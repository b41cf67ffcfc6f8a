import Nufw.Lib.Memory

/-!
# Messages in memory

A message is a list of bytes that one program writes and another one reads in place.
`Memory.Holds m o bs` says that the bytes stand in memory from `o` on; it splits along `++`
(`holds_append`), moves with the pointer (`holds_drop`), and gives back the fields that the reader
takes: an array of bytes (`Holds.bytes_eq`) or a number in network order (`Holds.be16_eq`,
`Holds.be32_eq`), provided that the writer put it there in that order.

`ByteOrder.bytes32` is what a plain assignment of a 32-bit field leaves in memory. Read back in
network order it is the number itself on a big-endian host, and on a little-endian host only when
its bytes are the same both ways (`Holds.be32_eq_iff`).
-/

/-- The two bytes of a number in network order. -/
def bigEndian16 (x : UInt16) : List UInt8 := [(x >>> 8).toUInt8, x.toUInt8]

/-- The four bytes of a number in network order. -/
def bigEndian32 (x : UInt32) : List UInt8 :=
  [(x >>> 24).toUInt8, (x >>> 16).toUInt8, (x >>> 8).toUInt8, x.toUInt8]

/-- The four bytes of a number in the order of the host. -/
def ByteOrder.bytes32 : ByteOrder → UInt32 → List UInt8
  | .big, x => bigEndian32 x
  | .little, x => (bigEndian32 x).reverse

/-- `htonl`: the number whose bytes, in the order of the host, are those of `x` in network order. -/
def ByteOrder.htonl (e : ByteOrder) (x : UInt32) : UInt32 :=
  (Memory.ofBytes (bigEndian32 x)).host32 e 0

@[simp] theorem length_bigEndian16 (x : UInt16) : (bigEndian16 x).length = 2 := rfl

@[simp] theorem length_bigEndian32 (x : UInt32) : (bigEndian32 x).length = 4 := rfl

@[simp] theorem ByteOrder.length_bytes32 (e : ByteOrder) (x : UInt32) :
    (e.bytes32 x).length = 4 := by
  cases e <;> rfl

namespace Memory

variable {m : Memory} {o : ℕ} {bs cs : List UInt8}

/-- The bytes stand in memory from `o` on. -/
def Holds (m : Memory) : ℕ → List UInt8 → Prop
  | _, [] => True
  | o, b :: bs => m o = b ∧ Holds m (o + 1) bs

@[simp] theorem holds_nil : m.Holds o [] := trivial

@[simp] theorem holds_cons {b : UInt8} : m.Holds o (b :: bs) ↔ m o = b ∧ m.Holds (o + 1) bs :=
  Iff.rfl

/-- The bytes, one by one. -/
theorem holds_iff_getElem : m.Holds o bs ↔ ∀ i (h : i < bs.length), m (o + i) = bs[i] := by
  induction bs generalizing o with
  | nil => simp
  | cons b bs ih =>
    rw [holds_cons, ih]
    constructor
    · rintro ⟨hb, hbs⟩ (_ | i) hi
      · exact hb
      · simpa [Nat.add_assoc, Nat.add_comm 1] using hbs i (Nat.lt_of_succ_lt_succ hi)
    · intro h
      refine ⟨h 0 (Nat.succ_pos _), fun i hi ↦ ?_⟩
      simpa [Nat.add_assoc, Nat.add_comm 1] using h (i + 1) (Nat.succ_lt_succ hi)

/-- Two parts of a message, one after the other. -/
theorem holds_append : m.Holds o (bs ++ cs) ↔ m.Holds o bs ∧ m.Holds (o + bs.length) cs := by
  induction bs generalizing o with
  | nil => simp
  | cons b bs ih =>
    rw [List.cons_append, holds_cons, holds_cons, ih, and_assoc, List.length_cons]
    rw [Nat.add_assoc, Nat.add_comm 1]

/-- The same bytes from another pointer. -/
theorem holds_drop {k : ℕ} : (m.drop k).Holds o bs ↔ m.Holds (k + o) bs := by
  simp only [holds_iff_getElem, drop, Nat.add_assoc]

theorem holds_ofBytes (bs : List UInt8) : (ofBytes bs).Holds 0 bs := by
  refine holds_iff_getElem.2 fun i hi ↦ ?_
  simp [ofBytes, hi]

/-- Bytes written behind others extend them. -/
theorem Holds.write_append (h : m.Holds 0 bs) : (m.write bs.length cs).Holds 0 (bs ++ cs) := by
  refine holds_iff_getElem.2 fun i hi ↦ ?_
  rw [Nat.zero_add, write]
  by_cases hlt : i < bs.length
  · rw [if_neg (by omega), List.getElem_append_left hlt]
    simpa using holds_iff_getElem.1 h i hlt
  · have hlength : i - bs.length < cs.length := by
      rw [List.length_append] at hi
      omega
    rw [if_pos (by omega), List.getElem_append_right (by omega)]
    simp [hlength]

/-- The bytes that a place holds. -/
theorem Holds.toList_bytes {n : ℕ} (h : m.Holds o bs) (hn : bs.length = n) :
    (m.bytes o n).toList = bs := by
  refine List.ext_getElem (by simp [hn]) fun i hi hi' ↦ ?_
  simpa [bytes] using holds_iff_getElem.1 h i hi'

theorem be16_congr {m' : Memory} {n : ℕ} (h : ∀ i < n, m i = m' i) (ho : o + 1 < n) :
    m.be16 o = m'.be16 o := by
  rw [be16, be16, h _ (by omega), h _ ho]

theorem bytes_congr {m' : Memory} {k n : ℕ} (h : ∀ i < n, m i = m' i) (ho : o + k ≤ n) :
    m.bytes o k = m'.bytes o k := by
  refine Vector.ext fun i hi ↦ ?_
  rw [bytes, bytes, Vector.getElem_ofFn, Vector.getElem_ofFn]
  exact h _ (by simp; omega)

/-- Two places that hold the same bytes. -/
theorem Holds.congr {m' : Memory} (h : m.Holds 0 bs) (h' : m'.Holds 0 bs) :
    ∀ i < bs.length, m i = m' i := by
  intro i hi
  have hm := holds_iff_getElem.1 h i hi
  have hm' := holds_iff_getElem.1 h' i hi
  rw [Nat.zero_add] at hm hm'
  rw [hm, hm']

/-- An array of bytes is read back. -/
theorem Holds.bytes_eq {n : ℕ} {v : Vector UInt8 n} (h : m.Holds o v.toList) : m.bytes o n = v := by
  refine Vector.ext fun i hi ↦ ?_
  rw [bytes, Vector.getElem_ofFn]
  rw [holds_iff_getElem.1 h i (by simpa using hi), Vector.getElem_toList]

/-- Every byte of an array is read back. -/
theorem Holds.apply_eq {src : Memory} {k n : ℕ} (h : m.Holds o (src.bytes 0 n).toList)
    (hk : k < n) : m (o + k) = src k := by
  simpa [bytes] using holds_iff_getElem.1 h k (by simpa using hk)

/-- A number written in network order is read back. -/
theorem Holds.be16_eq {x : UInt16} (h : m.Holds o (bigEndian16 x)) : m.be16 o = x := by
  rw [bigEndian16, holds_cons, holds_cons] at h
  rw [be16, h.1, h.2.1]
  refine UInt16.toNat_inj.1 ?_
  have hx := x.toNat_lt
  simp
  omega

theorem Holds.be32_eq {x : UInt32} (h : m.Holds o (bigEndian32 x)) : m.be32 o = x := by
  rw [bigEndian32, holds_cons, holds_cons, holds_cons, holds_cons] at h
  obtain ⟨h₀, h₁, h₂, h₃, -⟩ := h
  rw [be32, be16, be16, h₀, h₁, h₂, h₃]
  refine UInt32.toNat_inj.1 ?_
  have hx := x.toNat_lt
  simp
  omega

/-- The bytes of the number that is read. -/
theorem holds_be32 : m.Holds o (bigEndian32 (m.be32 o)) := by
  have h₀ := (m o).toNat_lt
  have h₁ := (m (o + 1)).toNat_lt
  have h₂ := (m (o + 2)).toNat_lt
  have h₃ := (m (o + 3)).toNat_lt
  refine ⟨?_, ?_, ?_, ?_, trivial⟩
  · refine UInt8.toNat_inj.1 ?_
    simp [be32, be16, Nat.add_assoc]
    omega
  · refine UInt8.toNat_inj.1 ?_
    simp [be32, be16, Nat.add_assoc]
    omega
  · refine UInt8.toNat_inj.1 ?_
    simp [be32, be16, Nat.add_assoc]
    omega
  · refine UInt8.toNat_inj.1 ?_
    simp [be32, be16, Nat.add_assoc]

/-- What lies elsewhere is not touched by rewriting a field. -/
theorem swap16_of_ne (e : ByteOrder) (m : Memory) {i : ℕ} (h : i ≠ o) (h' : i ≠ o + 1) :
    m.swap16 e o i = m i := by
  cases e with
  | big => rfl
  | little =>
    dsimp only [swap16]
    rw [if_neg h, if_neg h']

/-- A number written in network order and rewritten to the order of the host. -/
theorem Holds.host16_swap16 (e : ByteOrder) {x : UInt16} (h : m.Holds o (bigEndian16 x)) :
    (m.swap16 e o).host16 e o = x := by
  cases e with
  | big => exact h.be16_eq
  | little =>
    dsimp only [host16, swap16]
    rw [if_neg (Nat.succ_ne_self o), if_pos rfl, if_pos rfl]
    exact h.be16_eq

theorem host16_drop (e : ByteOrder) (m : Memory) (k o : ℕ) :
    (m.drop k).host16 e o = m.host16 e (k + o) := by
  cases e with
  | big => rfl
  | little => rfl

theorem host16_congr {m' : Memory} (e : ByteOrder) (h : m o = m' o) (h' : m (o + 1) = m' (o + 1)) :
    m.host16 e o = m'.host16 e o := by
  cases e with
  | big => rw [host16, host16, be16, be16, h, h']
  | little => rw [host16, host16, h, h']

/-- Bytes stay where they are in a memory that is the same there. -/
theorem Holds.of_eq {m' : Memory} (h : m.Holds o bs)
    (heq : ∀ i, o ≤ i → i < o + bs.length → m' i = m i) : m'.Holds o bs := by
  refine holds_iff_getElem.2 fun i hi ↦ ?_
  rw [heq _ (Nat.le_add_right o i) (Nat.add_lt_add_left hi o)]
  exact holds_iff_getElem.1 h i hi

theorem host32_congr {m' : Memory} {o' : ℕ} (e : ByteOrder)
    (h : ∀ i < 4, m (o + i) = m' (o' + i)) : m.host32 e o = m'.host32 e o' := by
  have h₀ : m o = m' o' := h 0 (by decide)
  have h₁ := h 1 (by decide)
  have h₂ := h 2 (by decide)
  have h₃ := h 3 (by decide)
  cases e with
  | big => simp only [host32, be32, be16, Nat.add_assoc, h₀, h₁, h₂, h₃]
  | little =>
    show be32 (fun i ↦ m (o + 3 - i)) 0 = be32 (fun i ↦ m' (o' + 3 - i)) 0
    simp [be32, be16, h₀, h₁, h₂, h₃]

/-- A number written in network order and taken as it stands. -/
theorem Holds.host32_eq (e : ByteOrder) {x : UInt32} (h : m.Holds o (bigEndian32 x)) :
    m.host32 e o = e.htonl x := by
  refine host32_congr e fun i hi ↦ ?_
  have hm := holds_iff_getElem.1 h i hi
  have hx := holds_iff_getElem.1 (holds_ofBytes (bigEndian32 x)) i hi
  rw [hm, hx]

/-- A place holds one message of a given length. -/
theorem Holds.eq (hbs : m.Holds o bs) (hcs : m.Holds o cs) (hlength : bs.length = cs.length) :
    bs = cs := by
  refine List.ext_getElem hlength fun i hi hi' ↦ ?_
  rw [← holds_iff_getElem.1 hbs i hi, holds_iff_getElem.1 hcs i hi']

/-- `htonl` gives the bytes of network order. -/
theorem bytes32_htonl (e : ByteOrder) (x : UInt32) : e.bytes32 (e.htonl x) = bigEndian32 x := by
  have hx := holds_ofBytes (bigEndian32 x)
  cases e with
  | big =>
    show bigEndian32 ((ofBytes (bigEndian32 x)).be32 0) = bigEndian32 x
    rw [hx.be32_eq]
  | little =>
    -- the memory read backwards holds the bytes of the number read
    show (bigEndian32 (be32 (fun i ↦ ofBytes (bigEndian32 x) (0 + 3 - i)) 0)).reverse = _
    obtain ⟨a, b, c, d, hbytes⟩ : ∃ a b c d, bigEndian32 x = [a, b, c, d] :=
      ⟨_, _, _, _, rfl⟩
    rw [hbytes]
    have hback : Holds (fun i ↦ ofBytes [a, b, c, d] (0 + 3 - i)) 0 [d, c, b, a] :=
      ⟨rfl, rfl, rfl, rfl, trivial⟩
    rw [holds_be32.eq hback (length_bigEndian32 _)]
    rfl

/-- A number written in the order of the host and read in network order is the same when the host
is big-endian, or when its bytes are the same both ways. -/
theorem Holds.be32_eq_iff {e : ByteOrder} {x : UInt32} (h : m.Holds o (e.bytes32 x)) :
    m.be32 o = x ↔ e = .big ∨ (bigEndian32 x).reverse = bigEndian32 x := by
  cases e with
  | big => exact iff_of_true h.be32_eq (Or.inl rfl)
  | little =>
    have hne : ByteOrder.little ≠ .big := by decide
    rw [or_iff_right hne]
    constructor
    · intro hx
      have hx' : m.Holds o (bigEndian32 x) := hx ▸ holds_be32
      exact h.eq hx' rfl
    · intro hx
      have hx' : m.Holds o (bigEndian32 x) := hx ▸ h
      exact hx'.be32_eq

end Memory
