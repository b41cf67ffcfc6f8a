import Mathlib.Data.List.Induction
import Mathlib.Tactic.IntervalCases
import Nufw.Nubase.Strings

/-!
# Numbers in decimal

How `printf` writes numbers. The digits of a number are those of its tenth, and a last one
(`decimal_append`), so that what holds of all numerals is proved by induction over the number:
a numeral is read back as its number (`ofDigits_decimal`), and does not begin with a zero unless it
is one (`head?_decimal_ne`). A numeral that is filled up with zeros to a fixed width continues
another one (`decimal_append_padded`).
-/

namespace Nufw

/-- The character of a digit. -/
def digitByte (c : ℕ) : UInt8 := UInt8.ofNat (48 + c)

/-- A number as `%0<width>lu` prints it. -/
def padded (width n : ℕ) : Bytes := List.replicate (width - (decimal n).length) 48 ++ decimal n

theorem digitByte_digitChar {c : ℕ} (hc : c < 10) :
    UInt8.ofNat (Nat.digitChar c).toNat = digitByte c := by
  interval_cases c <;> rfl

theorem toNat_digitByte {c : ℕ} (hc : c < 10) : (digitByte c).toNat = 48 + c := by
  rw [digitByte, UInt8.toNat_ofNat']
  exact Nat.mod_eq_of_lt (by omega)

/-! ### The digits of a number -/

theorem decimal_of_lt {c : ℕ} (hc : c < 10) : decimal c = [digitByte c] := by
  rw [decimal, Nat.toDigits_of_lt_base hc, List.map_singleton, digitByte_digitChar hc]

/-- **The digits of a number**: those of its tenth, and a last one. -/
theorem decimal_append {n c : ℕ} (hn : 0 < n) (hc : c < 10) :
    decimal (10 * n + c) = decimal n ++ [digitByte c] := by
  rw [decimal, ← Nat.toDigits_append_toDigits (by decide) hn hc, List.map_append,
    Nat.toDigits_of_lt_base hc, List.map_singleton, digitByte_digitChar hc, decimal]

theorem decimal_of_ge {n : ℕ} (hn : 10 ≤ n) :
    decimal n = decimal (n / 10) ++ [digitByte (n % 10)] := by
  have hsplit : n = 10 * (n / 10) + n % 10 := (Nat.div_add_mod n 10).symm
  conv_lhs => rw [hsplit]
  exact decimal_append (by omega) (Nat.mod_lt n (by decide))

/-- What holds of the digits of all numbers. -/
theorem decimal_induction {P : ℕ → Prop} (hlt : ∀ c < 10, P c)
    (hge : ∀ n, 10 ≤ n → P (n / 10) → P n) (n : ℕ) : P n := by
  induction n using Nat.strongRecOn with
  | ind n ih =>
    by_cases hn : n < 10
    · exact hlt n hn
    · exact hge n (by omega) (ih (n / 10) (by omega))

theorem ofDigits_append_singleton (l : Bytes) {c : ℕ} (hc : c < 10) :
    ofDigits (l ++ [digitByte c]) = ofDigits l * 10 + c := by
  rw [ofDigits, List.foldl_append, ← ofDigits, List.foldl_cons, List.foldl_nil,
    toNat_digitByte hc, Nat.add_sub_cancel_left]

/-- **A numeral is read back.** -/
theorem ofDigits_decimal (n : ℕ) : ofDigits (decimal n) = n := by
  induction n using decimal_induction with
  | hlt c hc =>
    have hread := ofDigits_append_singleton [] hc
    rw [List.nil_append] at hread
    rw [decimal_of_lt hc, hread]
    exact Nat.zero_add c
  | hge n hn ih =>
    rw [decimal_of_ge hn, ofDigits_append_singleton _ (Nat.mod_lt n (by decide)), ih]
    omega

/-- The value of a text is at least that of its beginning. -/
theorem ofDigits_le_append (l l' : Bytes) : ofDigits l ≤ ofDigits (l ++ l') := by
  induction l' using List.reverseRecOn with
  | nil => rw [List.append_nil]
  | append_singleton l' c ih =>
    rw [← List.append_assoc, ofDigits, ofDigits, List.foldl_append, ← ofDigits, ← ofDigits,
      List.foldl_cons, List.foldl_nil]
    omega

theorem decimal_ne_nil (n : ℕ) : decimal n ≠ [] := by
  induction n using decimal_induction with
  | hlt c hc =>
    rw [decimal_of_lt hc]
    exact List.cons_ne_nil _ _
  | hge n hn ih =>
    rw [decimal_of_ge hn]
    exact List.append_ne_nil_of_left_ne_nil ih _

/-- A number that is not zero does not begin with a zero. -/
theorem head?_decimal_ne {n : ℕ} (hn : 0 < n) : (decimal n).head? ≠ some 48 := by
  induction n using decimal_induction with
  | hlt c hc =>
    rw [decimal_of_lt hc]
    intro h
    have hbyte := congrArg UInt8.toNat (Option.some.inj h)
    rw [toNat_digitByte hc] at hbyte
    simp at hbyte
    omega
  | hge n hge ih =>
    rw [decimal_of_ge hge, List.head?_append]
    cases hhead : (decimal (n / 10)).head? with
    | none => exact absurd (List.head?_eq_none_iff.1 hhead) (decimal_ne_nil _)
    | some b =>
      rw [hhead] at ih
      exact ih (by omega)

/-- No digit is a NUL. -/
theorem ne_zero_of_mem_decimal {n : ℕ} {b : UInt8} (hb : b ∈ decimal n) : b ≠ 0 := by
  have hdigit : ∀ {c : ℕ}, c < 10 → digitByte c ≠ 0 := by
    intro c hc h
    have hbyte := congrArg UInt8.toNat h
    rw [toNat_digitByte hc] at hbyte
    simp at hbyte
  induction n using decimal_induction with
  | hlt c hc =>
    rw [decimal_of_lt hc] at hb
    rw [List.mem_singleton.1 hb]
    exact hdigit hc
  | hge n hn ih =>
    rw [decimal_of_ge hn] at hb
    rcases List.mem_append.1 hb with hb | hb
    · exact ih hb
    · rw [List.mem_singleton.1 hb]
      exact hdigit (Nat.mod_lt n (by decide))

/-- A number below a power of ten has at most as many digits. -/
theorem length_decimal_le {n k : ℕ} (hk : 0 < k) (hn : n < 10 ^ k) : (decimal n).length ≤ k := by
  rw [decimal, List.length_map]
  exact (Nat.length_toDigits_le_iff (by decide) hk).2 hn

/-! ### Numerals of a fixed width -/

theorem length_padded {width n : ℕ} (hwidth : 0 < width) (hn : n < 10 ^ width) :
    (padded width n).length = width := by
  have hle := length_decimal_le hwidth hn
  rw [padded, List.length_append, List.length_replicate]
  omega

/-- The last digit of a filled-up numeral. -/
theorem padded_succ {width n : ℕ} (hwidth : 0 < width) :
    padded (width + 1) n = padded width (n / 10) ++ [digitByte (n % 10)] := by
  by_cases hn : n < 10
  · have hdiv : n / 10 = 0 := Nat.div_eq_of_lt hn
    rw [padded, padded, hdiv, Nat.mod_eq_of_lt hn, decimal_of_lt hn, decimal_of_lt (by decide)]
    obtain ⟨width, rfl⟩ := Nat.exists_eq_succ_of_ne_zero (Nat.ne_of_gt hwidth)
    simp [List.replicate_succ', digitByte]
  · rw [padded, padded, decimal_of_ge (by omega), List.length_append, List.length_singleton,
      Nat.add_sub_add_right, List.append_assoc]

/-- **A filled-up numeral continues another one.** -/
theorem decimal_append_padded {width n m : ℕ} (hwidth : 0 < width) (hn : 0 < n)
    (hm : m < 10 ^ width) : decimal n ++ padded width m = decimal (n * 10 ^ width + m) := by
  induction width, hwidth using Nat.le_induction generalizing m with
  | base =>
    have hlt : m < 10 := by simpa using hm
    rw [padded, decimal_of_lt hlt, List.length_singleton, Nat.sub_self, List.replicate_zero,
      List.nil_append, ← decimal_append hn hlt]
    congr 1
    omega
  | succ width hwidth ih =>
    have hdiv : m / 10 < 10 ^ width := by
      rw [Nat.pow_succ] at hm
      omega
    rw [padded_succ hwidth, ← List.append_assoc, ih hdiv,
      ← decimal_append (Nat.add_pos_left (Nat.mul_pos hn (by positivity)) _)
        (Nat.mod_lt m (by decide))]
    congr 1
    rw [Nat.pow_succ, ← Nat.mul_assoc]
    omega

/-- The digits of a number without leading zeros, none for zero. -/
def stripped (n : ℕ) : Bytes := if n = 0 then [] else decimal n

theorem dropWhile_decimal (n : ℕ) : (decimal n).dropWhile (· = 48) = stripped n := by
  rw [stripped]
  split
  · rename_i hn
    rw [hn]
    rfl
  · rename_i hn
    have hhead := head?_decimal_ne (Nat.pos_of_ne_zero hn)
    cases hdec : decimal n with
    | nil => rfl
    | cons b l =>
      rw [hdec, List.head?_cons] at hhead
      exact List.dropWhile_cons_of_neg (by simpa using fun h ↦ hhead (congrArg some h))

theorem dropWhile_padded (width n : ℕ) : (padded width n).dropWhile (· = 48) = stripped n := by
  rw [padded, List.dropWhile_append_of_pos (by simp), dropWhile_decimal]

end Nufw
