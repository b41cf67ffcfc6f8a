import Nufw.Lib.Wire

/-!
# The Internet checksum

The checksum of RFC 1071: the bytes are taken in pairs as words of 16 bits, an odd byte at the end
with a zero, the words are added in one's complement arithmetic, where a carry goes around to the
low end, and the complement of the sum is the checksum. A message that contains its checksum
verifies if the sum of its words is all ones.

One's complement addition is addition modulo 65535 with two zeros: a sum is determined by its
residue and by whether it is zero at all (`eq_onesSum_iff`). So the words can be read in either byte
order (`verifies_order`).
-/

/-- A word of two bytes. -/
def ByteOrder.word : ByteOrder → UInt8 → UInt8 → ℕ
  | little, a, b => a.toNat + 256 * b.toNat
  | big, a, b => 256 * a.toNat + b.toNat

/-- The words of some bytes, an odd byte at the end with a zero. -/
def wordsOf (order : ByteOrder) : List UInt8 → List ℕ
  | [] => []
  | [a] => [order.word a 0]
  | a :: b :: bytes => order.word a b :: wordsOf order bytes

/-- Addition with the carry going around. -/
def onesAdd (x y : ℕ) : ℕ := (x + y) % 65536 + (x + y) / 65536

/-- The one's complement sum. -/
def onesSum (words : List ℕ) : ℕ := words.foldl onesAdd 0

/-- **The checksum of RFC 1071.** -/
def internetChecksum (order : ByteOrder) (bytes : List UInt8) : ℕ :=
  65535 - onesSum (wordsOf order bytes)

/-- A message with its checksum verifies. -/
def SumVerifies (order : ByteOrder) (bytes : List UInt8) : Prop :=
  onesSum (wordsOf order bytes) = 65535

/-! ### Sums -/

theorem onesAdd_spec {x y : ℕ} (hx : x ≤ 65535) (hy : y ≤ 65535) :
    onesAdd x y ≤ 65535 ∧ onesAdd x y % 65535 = (x + y) % 65535 ∧
      (onesAdd x y = 0 ↔ x + y = 0) := by
  rw [onesAdd]
  omega

theorem foldl_onesAdd_spec {words : List ℕ} (hwords : ∀ w ∈ words, w ≤ 65535) {x : ℕ}
    (hx : x ≤ 65535) :
    words.foldl onesAdd x ≤ 65535 ∧ words.foldl onesAdd x % 65535 = (x + words.sum) % 65535 ∧
      (words.foldl onesAdd x = 0 ↔ x + words.sum = 0) := by
  induction words generalizing x with
  | nil => exact ⟨hx, rfl, Iff.rfl⟩
  | cons w words ih =>
    obtain ⟨hw, hrest⟩ := List.forall_mem_cons.1 hwords
    obtain ⟨hle, hmod, hzero⟩ := onesAdd_spec hx hw
    obtain ⟨hle', hmod', hzero'⟩ := ih hrest hle
    rw [List.foldl_cons, List.sum_cons]
    refine ⟨hle', ?_, ?_⟩
    · omega
    · omega

/-- **A one's complement sum** is determined by its residue, and by whether it is zero. -/
theorem eq_onesSum_iff {words : List ℕ} (hwords : ∀ w ∈ words, w ≤ 65535) {s : ℕ} :
    s = onesSum words ↔
      s ≤ 65535 ∧ s % 65535 = words.sum % 65535 ∧ (s = 0 ↔ words.sum = 0) := by
  obtain ⟨hle, hmod, hzero⟩ := foldl_onesAdd_spec hwords (Nat.zero_le 65535)
  rw [Nat.zero_add] at hmod hzero
  rw [onesSum]
  constructor
  · rintro rfl
    exact ⟨hle, hmod, hzero⟩
  · rintro ⟨hle', hmod', hzero'⟩
    omega

/-! ### Words -/

theorem ByteOrder.word_le (order : ByteOrder) (a b : UInt8) : order.word a b ≤ 65535 := by
  have ha := a.toNat_lt
  have hb := b.toNat_lt
  cases order <;> simp only [word] <;> omega

theorem wordsOf_le (order : ByteOrder) (bytes : List UInt8) :
    ∀ w ∈ wordsOf order bytes, w ≤ 65535 := by
  induction bytes using wordsOf.induct with
  | case1 => exact nofun
  | case2 a =>
    intro w hw
    rw [List.mem_singleton.1 hw]
    exact order.word_le a 0
  | case3 a b bytes ih => exact List.forall_mem_cons.2 ⟨order.word_le a b, ih⟩

/-- An even number of bytes in front. -/
theorem wordsOf_append (order : ByteOrder) {front : List UInt8} (rest : List UInt8)
    (hfront : front.length % 2 = 0) :
    wordsOf order (front ++ rest) = wordsOf order front ++ wordsOf order rest := by
  induction front using wordsOf.induct with
  | case1 => rfl
  | case2 a => cases hfront
  | case3 a b front ih =>
    rw [List.length_cons, List.length_cons] at hfront
    rw [List.cons_append, List.cons_append, wordsOf, wordsOf, ih (by omega), List.cons_append]

/-- The byte order changes a sum by a factor that can be taken back. -/
theorem sum_wordsOf_order (bytes : List UInt8) :
    (wordsOf .big bytes).sum % 65535 = 256 * (wordsOf .little bytes).sum % 65535 ∧
      ((wordsOf .big bytes).sum = 0 ↔ (wordsOf .little bytes).sum = 0) := by
  induction bytes using wordsOf.induct with
  | case1 => exact ⟨rfl, Iff.rfl⟩
  | case2 a =>
    have ha := a.toNat_lt
    have hzero : (0 : UInt8).toNat = 0 := rfl
    simp only [wordsOf, ByteOrder.word, List.sum_singleton, hzero]
    omega
  | case3 a b bytes ih =>
    obtain ⟨hmod, hzero⟩ := ih
    simp only [wordsOf, ByteOrder.word, List.sum_cons]
    omega

theorem verifies_iff_sum {order : ByteOrder} {bytes : List UInt8} :
    SumVerifies order bytes ↔
      (wordsOf order bytes).sum % 65535 = 0 ∧ (wordsOf order bytes).sum ≠ 0 := by
  rw [SumVerifies, eq_comm, eq_onesSum_iff (wordsOf_le order bytes)]
  omega

/-- **A message verifies in either byte order.** -/
theorem verifies_order (order order' : ByteOrder) (bytes : List UInt8) :
    SumVerifies order bytes ↔ SumVerifies order' bytes := by
  obtain ⟨hmod, hzero⟩ := sum_wordsOf_order bytes
  have hiff : SumVerifies .big bytes ↔ SumVerifies .little bytes := by
    rw [verifies_iff_sum, verifies_iff_sum]
    omega
  cases order with
  | big =>
    cases order' with
    | big => exact Iff.rfl
    | little => exact hiff
  | little =>
    cases order' with
    | big => exact hiff.symm
    | little => exact Iff.rfl

/-- The complement of a sum verifies for words with another sum just if both sums are the same
modulo 65535. -/
theorem verifies_complement_iff {order : ByteOrder} {bytes : List UInt8} {words : List ℕ}
    (hwords : ∀ w ∈ words, w ≤ 65535) {rest : ℕ} (hpos : rest ≠ 0)
    (hsum : (wordsOf order bytes).sum = 65535 - onesSum words + rest) :
    SumVerifies order bytes ↔ rest % 65535 = words.sum % 65535 := by
  obtain ⟨hle, hmod, -⟩ := (eq_onesSum_iff hwords).1 rfl
  rw [verifies_iff_sum, hsum]
  omega
