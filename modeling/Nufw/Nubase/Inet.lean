import Nufw.Nubase.Strings
import Mathlib.Algebra.Order.Ring.Int
import Mathlib.Data.List.GetD

/-!
# Addresses as texts, and masks

`inet_pton` of the C library, for both families, and `create_ipv6_netmask` of `ipv6.c`. A mask is
built word by word; bit by bit it is what its length says (`addrBit_createIpv6Netmask`). The bits of
an address are counted from the left, in network order.
-/

namespace Nufw

/-! ### Texts -/

/-- The dotted notation: the octets that are complete, and the one that has been begun. A zero is
not followed by another digit. -/
def inetPton4Loop : Bytes → List ℕ → Option ℕ → Option (List ℕ)
  | [], octets, some n => if octets.length = 3 then some (octets ++ [n]) else none
  | [], _, none => none
  | ch :: src, octets, current =>
    if isdigit ch then
      match current with
      | none => inetPton4Loop src octets (some (ch.toNat - 48))
      | some n =>
        if n = 0 ∨ 255 < n * 10 + (ch.toNat - 48) then none
        else inetPton4Loop src octets (some (n * 10 + (ch.toNat - 48)))
    else if ch = 46 then
      match current with
      | none => none
      | some n => if octets.length = 3 then none else inetPton4Loop src (octets ++ [n]) none
    else none

/-- `inet_pton (AF_INET, src, dst)`: the four bytes in network order. -/
def inetPton4 (src : Bytes) : Option (Vector UInt8 4) :=
  (inetPton4Loop src [] none).map fun octets ↦
    Vector.ofFn fun i : Fin 4 ↦ UInt8.ofNat (octets.getD i 0)

/-- The value of a hexadecimal digit. -/
def hexDigitValue (ch : UInt8) : Option ℕ :=
  if isdigit ch then some (ch.toNat - 48)
  else if 65 ≤ ch ∧ ch ≤ 70 then some (ch.toNat - 55)
  else if 97 ≤ ch ∧ ch ≤ 102 then some (ch.toNat - 87)
  else none

/-- What the loop of `inet_pton6` goes on with. -/
structure Pton6 where
  /-- The text from the current group on. -/
  curtok : Bytes
  /-- The bytes before `tp`. -/
  dst : Bytes
  /-- Where `::` stands. -/
  colonp : Option ℕ
  xdigitsSeen : ℕ
  val : ℕ

/-- Groups of digits and colons, and perhaps a dotted address at the end. -/
def inetPton6Loop : Bytes → Pton6 → Option Pton6
  | [], s => some s
  | ch :: src, s =>
    match hexDigitValue ch with
    | some digit =>
      if s.xdigitsSeen = 4 then none
      else inetPton6Loop src
        { s with xdigitsSeen := s.xdigitsSeen + 1, val := s.val * 16 + digit }
    | none =>
      if ch = 58 then
        if s.xdigitsSeen = 0 then
          if s.colonp.isSome then none
          else inetPton6Loop src { s with curtok := src, colonp := some s.dst.length }
        else if src = [] ∨ 16 < s.dst.length + 2 then none
        else inetPton6Loop src
          { s with curtok := src, dst := s.dst ++ [UInt8.ofNat (s.val / 256), UInt8.ofNat s.val],
                   xdigitsSeen := 0, val := 0 }
      else if ch = 46 ∧ s.dst.length + 4 ≤ 16 then
        (inetPton4 s.curtok).map fun v4 ↦ { s with dst := s.dst ++ v4.toList, xdigitsSeen := 0 }
      else none

/-- What is left after the loop: the last group, and the zeros that `::` stands for. -/
def inetPton6End (s : Pton6) : Option Bytes :=
  if 0 < s.xdigitsSeen ∧ 16 < s.dst.length + 2 then none
  else
    let dst := if 0 < s.xdigitsSeen then
        s.dst ++ [UInt8.ofNat (s.val / 256), UInt8.ofNat s.val] else s.dst
    match s.colonp with
    | some k =>
      if dst.length = 16 then none
      else some (dst.take k ++ List.replicate (16 - dst.length) 0 ++ dst.drop k)
    | none => if dst.length = 16 then some dst else none

/-- `inet_pton (AF_INET6, src, dst)`. -/
def inetPton6 (src : Bytes) : Option In6Addr :=
  let text := if src.head? = some 58 then src.drop 1 else src
  if src = [] ∨ (src.head? = some 58 ∧ text.head? ≠ some 58) then none
  else
    ((inetPton6Loop text ⟨text, [], none, 0, 0⟩).bind inetPton6End).map fun dst ↦
      Vector.ofFn fun i : Fin 16 ↦ dst.getD i 0

/-! ### The characters of an address -/

/-- A character that can stand in an address. -/
def isAddrChar (ch : UInt8) : Bool := (hexDigitValue ch).isSome || ch = 58 || ch = 46

theorem isAddrChar_of_isdigit {ch : UInt8} (h : isdigit ch = true) : isAddrChar ch = true := by
  rw [isAddrChar, hexDigitValue, if_pos h]
  rfl

theorem inetPton4Loop_chars {src : Bytes} {octets octets' : List ℕ} {current : Option ℕ}
    (h : inetPton4Loop src octets current = some octets') :
    ∀ ch ∈ src, isdigit ch = true ∨ ch = 46 := by
  induction src generalizing octets current with
  | nil => exact fun _ hmem ↦ absurd hmem List.not_mem_nil
  | cons ch src ih =>
    rw [inetPton4Loop.eq_def] at h
    dsimp only at h
    refine List.forall_mem_cons.2 ?_
    split at h
    · next hdigit =>
      refine ⟨Or.inl hdigit, ?_⟩
      cases current with
      | none => exact ih h
      | some n =>
        dsimp only at h
        split at h
        · cases h
        · exact ih h
    · split at h
      · next hdot =>
        refine ⟨Or.inr hdot, ?_⟩
        cases current with
        | none => cases h
        | some n =>
          dsimp only at h
          split at h
          · cases h
          · exact ih h
      · cases h

theorem inetPton4_chars {src : Bytes} {addr : Vector UInt8 4} (h : inetPton4 src = some addr) :
    ∀ ch ∈ src, isAddrChar ch = true := by
  obtain ⟨octets, hoctets, -⟩ := Option.map_eq_some_iff.1 h
  intro ch hch
  rcases inetPton4Loop_chars hoctets ch hch with hdigit | rfl
  · exact isAddrChar_of_isdigit hdigit
  · decide

theorem inetPton6Loop_chars {src : Bytes} {s s' : Pton6} (hcurtok : src <:+ s.curtok)
    (h : inetPton6Loop src s = some s') : ∀ ch ∈ src, isAddrChar ch = true := by
  induction src generalizing s with
  | nil => exact fun _ hmem ↦ absurd hmem List.not_mem_nil
  | cons ch src ih =>
    have hsrc : src <:+ s.curtok := (List.suffix_cons ch src).trans hcurtok
    rw [inetPton6Loop] at h
    split at h
    · next digit hdigit =>
      split at h
      · cases h
      · refine List.forall_mem_cons.2 ⟨by rw [isAddrChar, hdigit]; rfl, ih ?_ h⟩
        exact hsrc
    · split at h
      · next hcolon =>
        refine List.forall_mem_cons.2 ⟨by rw [hcolon]; decide, ?_⟩
        split at h
        · split at h
          · cases h
          · refine ih ?_ h
            exact List.suffix_refl src
        · split at h
          · cases h
          · refine ih ?_ h
            exact List.suffix_refl src
      · split at h
        · -- the rest of the text is a dotted address
          obtain ⟨v4, hv4, -⟩ := Option.map_eq_some_iff.1 h
          exact fun c hc ↦ inetPton4_chars hv4 c (hcurtok.subset hc)
        · cases h

theorem inetPton6_chars {src : Bytes} {addr : In6Addr} (h : inetPton6 src = some addr) :
    ∀ ch ∈ src, isAddrChar ch = true := by
  -- a colon in front is followed by another, from which on the loop reads
  have hloop : ∀ {text : Bytes}, (((inetPton6Loop text ⟨text, [], none, 0, 0⟩).bind
      inetPton6End).map fun dst ↦ Vector.ofFn fun i : Fin 16 ↦ dst.getD i 0) = some addr →
        ∀ ch ∈ text, isAddrChar ch = true := by
    intro text htext
    obtain ⟨dst, hdst, -⟩ := Option.map_eq_some_iff.1 htext
    obtain ⟨s, hs, -⟩ := Option.bind_eq_some_iff.1 hdst
    exact inetPton6Loop_chars (List.suffix_refl text) hs
  rw [inetPton6] at h
  cases src with
  | nil => exact fun _ hmem ↦ absurd hmem List.not_mem_nil
  | cons ch src =>
    by_cases hcolon : ch = 58
    · simp only [hcolon, List.head?_cons, if_true, List.drop_succ_cons, List.drop_zero] at h
      split at h
      · cases h
      · exact List.forall_mem_cons.2 ⟨by rw [hcolon]; decide, hloop h⟩
    · simp only [List.head?_cons, Option.some.injEq, hcolon, if_false] at h
      split at h
      · cases h
      · exact hloop h

/-- Without a colon there are at most four bytes. -/
theorem inetPton6Loop_no_colon {src : Bytes} {s s' : Pton6} (hcolon : 58 ∉ src)
    (h : inetPton6Loop src s = some s') :
    s'.colonp = s.colonp ∧ s'.dst.length ≤ s.dst.length + 4 := by
  induction src generalizing s with
  | nil =>
    cases h
    exact ⟨rfl, Nat.le_add_right _ _⟩
  | cons ch src ih =>
    rw [List.mem_cons, not_or] at hcolon
    rw [inetPton6Loop] at h
    split at h
    · split at h
      · cases h
      · have hrest := ih hcolon.2 h
        exact hrest
    · rw [if_neg (Ne.symm hcolon.1)] at h
      split at h
      · obtain ⟨v4, -, rfl⟩ := Option.map_eq_some_iff.1 h
        refine ⟨rfl, ?_⟩
        rw [List.length_append, Vector.length_toList]
      · cases h

/-- Without `::`, all the bytes are written. -/
theorem length_of_inetPton6End {s : Pton6} {dst : Bytes} (hcolon : s.colonp = none)
    (h : inetPton6End s = some dst) : 16 ≤ s.dst.length + 2 := by
  rw [inetPton6End] at h
  by_cases hseen : 0 < s.xdigitsSeen
  · simp only [hseen, true_and, if_true, hcolon, List.length_append, List.length_cons,
      List.length_nil] at h
    split_ifs at h
    omega
  · simp only [hseen, false_and, if_false, hcolon] at h
    split_ifs at h
    omega

theorem colon_mem_of_inetPton6 {src : Bytes} {addr : In6Addr} (h : inetPton6 src = some addr) :
    58 ∈ src := by
  by_contra hcolon
  have hhead : src.head? ≠ some 58 := fun hhead ↦ hcolon (List.mem_of_mem_head? hhead)
  rw [inetPton6] at h
  simp only [hhead, if_false, false_and, or_false] at h
  split at h
  · cases h
  · obtain ⟨dst, hdst, -⟩ := Option.map_eq_some_iff.1 h
    obtain ⟨s, hs, hend⟩ := Option.bind_eq_some_iff.1 hdst
    obtain ⟨hnone, hlength⟩ := inetPton6Loop_no_colon hcolon hs
    have hfull := length_of_inetPton6End hnone hend
    simp only [List.length_nil] at hlength
    omega

/-- No text is an address of both families. -/
theorem inetPton4_eq_none {src : Bytes} {addr : In6Addr} (h : inetPton6 src = some addr) :
    inetPton4 src = none := by
  cases h4 : inetPton4 src with
  | none => rfl
  | some v4 =>
    obtain ⟨octets, hoctets, -⟩ := Option.map_eq_some_iff.1 h4
    rcases inetPton4Loop_chars hoctets 58 (colon_mem_of_inetPton6 h) with h | h
    · exact absurd h (by decide)
    · exact absurd h (by decide)

/-! ### Masks -/

/-- The words of a mask of so many bits, as bytes in network order. -/
def netmaskWords : ℕ → ℕ → Bytes
  | 0, _ => []
  | words + 1, mask =>
    if 32 < mask then [255, 255, 255, 255] ++ netmaskWords words (mask - 32)
    else
      -- `htonl(0xFFFFFFFF << (32 - mask))`, and zeros where nothing is written
      let word : ℕ := if mask ≠ 0 then (0xFFFFFFFF <<< (32 - mask)) % 2 ^ 32 else 0
      [UInt8.ofNat (word / 2 ^ 24), UInt8.ofNat (word / 2 ^ 16), UInt8.ofNat (word / 2 ^ 8),
        UInt8.ofNat word] ++ List.replicate (4 * words) 0

/-- `create_ipv6_netmask`. -/
def createIpv6Netmask (mask : Int) : In6Addr :=
  let mask := if mask < 0 then 0 else if 128 < mask then 128 else mask
  Vector.ofFn fun i : Fin 16 ↦ (netmaskWords 4 mask.toNat).getD i 0

/-! ### Bits -/

/-- A bit of bytes in network order. -/
def byteBit (bytes : Bytes) (i : ℕ) : Bool := (bytes.getD (i / 8) 0).toNat.testBit (7 - i % 8)

/-- A bit of an address, from the left. -/
def addrBit (a : In6Addr) (i : ℕ) : Bool := byteBit a.toList i

theorem byteBit_append_right {x rest : Bytes} (hx : x.length = 4) {i : ℕ} (hi : 32 ≤ i) :
    byteBit (x ++ rest) i = byteBit rest (i - 32) := by
  have hdiv : (i - 32) / 8 = i / 8 - x.length := by omega
  have hmod : (i - 32) % 8 = i % 8 := by omega
  rw [byteBit, byteBit, List.getD_append_right _ _ _ _ (by omega), hdiv, hmod]

theorem byteBit_append_left {x rest : Bytes} (hx : x.length = 4) {i : ℕ} (hi : i < 32) :
    byteBit (x ++ rest) i = byteBit x i := by
  rw [byteBit, byteBit, List.getD_append _ _ _ _ (by omega)]

theorem byteBit_replicate (n i : ℕ) : byteBit (List.replicate n 0) i = false := by
  have hzero : (List.replicate n (0 : UInt8)).getD (i / 8) 0 = 0 := by
    rw [List.getD_eq_getElem?_getD, List.getElem?_getD_replicate_default_eq]
  rw [byteBit, hzero]
  exact Nat.zero_testBit _

/-- The bits of the word that is cut. -/
theorem byteBit_word {mask i : ℕ} (hmask : mask ≤ 32) (hi : i < 32) :
    let word : ℕ := if mask ≠ 0 then (0xFFFFFFFF <<< (32 - mask)) % 2 ^ 32 else 0
    byteBit [UInt8.ofNat (word / 2 ^ 24), UInt8.ofNat (word / 2 ^ 16), UInt8.ofNat (word / 2 ^ 8),
      UInt8.ofNat word] i = decide (i < mask) := by
  have hall : ∀ (mask : Fin 33) (i : Fin 32),
      (let word : ℕ := if mask.val ≠ 0 then (0xFFFFFFFF <<< (32 - mask.val)) % 2 ^ 32 else 0
      byteBit [UInt8.ofNat (word / 2 ^ 24), UInt8.ofNat (word / 2 ^ 16),
        UInt8.ofNat (word / 2 ^ 8), UInt8.ofNat word] i) = decide (i.val < mask.val) := by
    decide +kernel
  exact hall ⟨mask, by omega⟩ ⟨i, hi⟩

theorem byteBit_netmaskWords {words mask i : ℕ} (hmask : mask ≤ 32 * words)
    (hi : i < 32 * words) : byteBit (netmaskWords words mask) i = decide (i < mask) := by
  induction words generalizing mask i with
  | zero => omega
  | succ words ih =>
    rw [netmaskWords]
    split
    · next hlt =>
      by_cases hfirst : i < 32
      · have hones : ∀ i : Fin 32, byteBit [255, 255, 255, 255] i = true := by decide +kernel
        rw [byteBit_append_left rfl hfirst, hones ⟨i, hfirst⟩]
        exact (decide_eq_true (by omega)).symm
      · rw [byteBit_append_right rfl (by omega), ih (by omega) (by omega)]
        exact decide_eq_decide.2 (by omega)
    · next hle =>
      by_cases hfirst : i < 32
      · rw [byteBit_append_left rfl hfirst]
        exact byteBit_word (by omega) hfirst
      · rw [byteBit_append_right rfl (by omega), byteBit_replicate]
        exact (decide_eq_false (by omega)).symm

theorem length_netmaskWords (words mask : ℕ) : (netmaskWords words mask).length = 4 * words := by
  induction words generalizing mask with
  | zero => rfl
  | succ words ih =>
    rw [netmaskWords]
    split
    · rw [List.length_append, ih]
      exact Nat.add_comm _ _
    · rw [List.length_append, List.length_replicate]
      exact Nat.add_comm _ _

/-- The bytes of an address that is filled from a list. -/
theorem toList_ofFn_getD {l : Bytes} (h : l.length = 16) :
    (Vector.ofFn fun i : Fin 16 ↦ l.getD i 0).toList = l := by
  refine List.ext_getElem (by simp [h]) fun i hi hi' ↦ ?_
  simp [hi']

/-- **A mask has the leading ones that its length says**, cut to what an address has. -/
theorem addrBit_createIpv6Netmask (mask : Int) {i : ℕ} (hi : i < 128) :
    addrBit (createIpv6Netmask mask) i = decide ((i : Int) < min (max mask 0) 128) := by
  rw [addrBit, createIpv6Netmask]
  rw [toList_ofFn_getD (length_netmaskWords 4 _), byteBit_netmaskWords _ (by omega)]
  · refine decide_eq_decide.2 ?_
    split_ifs <;> omega
  · split_ifs <;> omega

theorem addrBit_and (a b : In6Addr) {i : ℕ} (hi : i < 128) :
    addrBit (Vector.zipWith (· &&& ·) a b) i = (addrBit a i && addrBit b i) := by
  have hlt : i / 8 < 16 := by omega
  have hget : (Vector.zipWith (· &&& ·) a b).toList.getD (i / 8) 0 =
      a.toList.getD (i / 8) 0 &&& b.toList.getD (i / 8) 0 := by
    simp [hlt]
  rw [addrBit, byteBit, hget, UInt8.toNat_and, Nat.testBit_and]
  rfl

/-- Addresses are told apart by their bits. -/
theorem eq_of_addrBit {a b : In6Addr} (h : ∀ i < 128, addrBit a i = addrBit b i) : a = b := by
  refine Vector.ext fun j hj ↦ ?_
  rw [← UInt8.toNat_inj]
  refine Nat.eq_of_testBit_eq fun k ↦ ?_
  by_cases hk : k < 8
  · have hbit := h (8 * j + (7 - k)) (by omega)
    have hdiv : (8 * j + (7 - k)) / 8 = j := by omega
    have hmod : 7 - (7 - k) % 8 = k := by omega
    simpa [addrBit, byteBit, hdiv, hmod, hj] using hbit
  · have hlt : ∀ x : UInt8, x.toNat < 2 ^ k := fun x ↦
      lt_of_lt_of_le x.toNat_lt (Nat.pow_le_pow_right (by omega) (by omega))
    rw [Nat.testBit_lt_two_pow (hlt _), Nat.testBit_lt_two_pow (hlt _)]

end Nufw
