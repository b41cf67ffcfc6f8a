import Mathlib.Data.List.TakeWhile
import Nufw.Nubase.PacketParser

/-!
# Texts and numbers

What the programs use of the C library to read files and numbers, and `strings.c` of nubase on top
of it. A `long` has 64 bits.
-/

namespace Nufw

/-- What is read up to a character of another kind. -/
theorem span_append {α : Type} {p : α → Bool} {text rest : List α} (htext : ∀ c ∈ text, p c = true)
    (hrest : ∀ c, rest.head? = some c → p c = false) :
    (text ++ rest).takeWhile p = text ∧ (text ++ rest).dropWhile p = rest := by
  rw [List.takeWhile_append_of_pos htext, List.dropWhile_append_of_pos htext]
  match rest with
  | [] => exact ⟨List.append_nil text, rfl⟩
  | c :: rest =>
    have hc : ¬p c = true := by
      rw [hrest c rfl]
      exact Bool.false_ne_true
    rw [List.takeWhile_cons_of_neg hc, List.dropWhile_cons_of_neg hc, List.append_nil]
    exact ⟨rfl, rfl⟩

/-- The bytes of a text. -/
def ascii (s : String) : Bytes := s.toList.map fun c ↦ UInt8.ofNat c.toNat

/-- The text up to the first NUL. -/
def cString (bs : Bytes) : Bytes := bs.takeWhile (· ≠ 0)

theorem cString_of_notMem {bs : Bytes} (h : 0 ∉ bs) : cString bs = bs := by
  rw [cString, List.takeWhile_eq_self_iff]
  intro b hb
  rw [decide_eq_true_iff]
  rintro rfl
  exact h hb

theorem cString_append_nul {bs : Bytes} (h : 0 ∉ bs) (behind : Bytes) :
    cString (bs ++ 0 :: behind) = bs := by
  have hne : ∀ c ∈ bs, decide (c ≠ 0) = true := fun c hc ↦
    decide_eq_true fun h0 : c = 0 ↦ h (h0 ▸ hc)
  exact (span_append hne fun c hc ↦ by simp [← Option.some.inj hc]).1

/-- `strchr`: what stands before the character, and behind it. -/
def strchr (str : Bytes) (c : UInt8) : Option (Bytes × Bytes) :=
  if c ∈ str then some (str.takeWhile (· ≠ c), (str.dropWhile (· ≠ c)).drop 1) else none

/-- A text up to the first delimiter, and what follows. -/
theorem strchr_append {delimiter : UInt8} {token : Bytes} (h : delimiter ∉ token) (rest : Bytes) :
    strchr (token ++ delimiter :: rest) delimiter = some (token, rest) := by
  have hne : ∀ c ∈ token, decide (c ≠ delimiter) = true := fun c hc ↦
    decide_eq_true fun hcd : c = delimiter ↦ h (hcd ▸ hc)
  have hmem : delimiter ∈ token ++ delimiter :: rest :=
    List.mem_append_right _ List.mem_cons_self
  obtain ⟨htake, hdrop⟩ := span_append hne fun c (hc : (delimiter :: rest).head? = some c) ↦ by
    simp [← Option.some.inj hc]
  rw [strchr, if_pos hmem, htake, hdrop]
  rfl

/-- A number as `%d` and `%u` print it. -/
def decimal (n : ℕ) : Bytes := (Nat.toDigits 10 n).map fun c ↦ UInt8.ofNat c.toNat

/-- `isspace`. -/
def isspace (c : UInt8) : Bool := c = 32 || (9 ≤ c && c ≤ 13)

/-- `isdigit`. -/
def isdigit (c : UInt8) : Bool := 48 ≤ c && c ≤ 57

/-- The number that digits stand for. -/
def ofDigits (digits : Bytes) : ℕ := digits.foldl (fun n c ↦ n * 10 + (c.toNat - 48)) 0

/-- What `strtol` and `strtoul` read in base 10: spaces, a sign, and digits. The sign, the number
and what follows it, if there is a digit. -/
def scanNumber (nptr : Bytes) : Option (Bool × ℕ × Bytes) :=
  let text := nptr.dropWhile isspace
  let negative := text.head? = some 45
  let text := if negative || text.head? = some 43 then text.drop 1 else text
  let digits := text.takeWhile isdigit
  if digits = [] then none else some (negative, ofDigits digits, text.dropWhile isdigit)

/-- `strtol (nptr, &endptr, 10)`: the number, at most as large as a `long` can be, and `endptr`. -/
def strtol (nptr : Bytes) : Int × Bytes :=
  match scanNumber nptr with
  | none => (0, nptr)
  | some (negative, n, rest) =>
    (if negative then max (-n) (-2 ^ 63) else min n (2 ^ 63 - 1), rest)

/-- `strtoul (nptr, &endptr, 10)`. A negative number wraps around, one that is too large does
not. -/
def strtoul (nptr : Bytes) : ℕ × Bytes :=
  match scanNumber nptr with
  | none => (0, nptr)
  | some (negative, n, rest) =>
    (if 2 ^ 64 ≤ n then 2 ^ 64 - 1 else if negative then (2 ^ 64 - n) % 2 ^ 64 else n, rest)

/-- `atoi`. -/
def atoi (nptr : Bytes) : Int := (UInt32.ofInt (strtol nptr).1).toBitVec.toInt

/-- `str_to_long`. -/
def strToLong (text : Bytes) : Option Int :=
  match strtol (text.dropWhile isspace) with
  | (longvalue, []) => some longvalue
  | _ => none

/-- `str_to_int`. -/
def strToInt (text : Bytes) : Option Int :=
  match strToLong text with
  | some longvalue => if longvalue < -2 ^ 31 ∨ 2 ^ 31 - 1 < longvalue then none else some longvalue
  | none => none

/-! ### Files -/

/-- `fgets`, of at most `n` bytes: a line or a part of it, and the rest of the file. -/
def fgets : ℕ → Bytes → Bytes × Bytes
  | 0, data => ([], data)
  | _ + 1, [] => ([], [])
  | n + 1, c :: data =>
    if c = 10 then ([10], data) else (c :: (fgets n data).1, (fgets n data).2)

/-- What is read from a file with buffers for `n` bytes. -/
def readAll (n : ℕ) : ℕ → Bytes → List Bytes
  | 0, _ => []
  | _ + 1, [] => []
  | fuel + 1, c :: data => (fgets n (c :: data)).1 :: readAll n fuel (fgets n (c :: data)).2

theorem length_snd_fgets_le (n : ℕ) (data : Bytes) : (fgets n data).2.length ≤ data.length := by
  induction data generalizing n with
  | nil => cases n <;> exact Nat.le_refl _
  | cons c data ih =>
    obtain _ | n := n
    · exact Nat.le_refl _
    · rw [fgets]
      split
      · exact Nat.le_succ _
      · exact Nat.le_succ_of_le (ih n)

theorem length_snd_fgets_succ_le (n : ℕ) (c : UInt8) (data : Bytes) :
    (fgets (n + 1) (c :: data)).2.length ≤ data.length := by
  rw [fgets]
  split
  · exact Nat.le_refl _
  · exact length_snd_fgets_le n data

/-- A file is read to its end with whatever fuel is enough. -/
theorem readAll_fuel {n fuel fuel' : ℕ} {data : Bytes} (h : data.length ≤ fuel)
    (h' : data.length ≤ fuel') : readAll (n + 1) fuel data = readAll (n + 1) fuel' data := by
  induction fuel generalizing fuel' data with
  | zero =>
    obtain rfl := List.eq_nil_of_length_eq_zero (Nat.le_zero.1 h)
    cases fuel' <;> rfl
  | succ fuel ih =>
    cases data with
    | nil => cases fuel' <;> rfl
    | cons c data =>
      obtain _ | fuel' := fuel'
      · cases h'
      · have hle := length_snd_fgets_succ_le n c data
        rw [readAll, readAll, ih (Nat.le_trans hle (Nat.le_of_succ_le_succ h))
          (Nat.le_trans hle (Nat.le_of_succ_le_succ h'))]

/-- A line that has an end ends before what follows the file. -/
theorem fgets_append {n : ℕ} {data : Bytes} (hend : data.getLast? = some 10) (more : Bytes) :
    fgets n (data ++ more) = ((fgets n data).1, (fgets n data).2 ++ more) := by
  induction data generalizing n with
  | nil => cases hend
  | cons c data ih =>
    obtain _ | n := n
    · rfl
    · rw [List.cons_append, fgets, fgets]
      by_cases hc : c = 10
      · rw [if_pos hc, if_pos hc]
      · have hlast : data.getLast? = some 10 := by
          cases data with
          | nil => exact absurd (Option.some.inj hend) hc
          | cons d data => exact hend
        rw [if_neg hc, if_neg hc, ih hlast]

/-- What is left of a file whose last line has an end is empty, or its last line has an end. -/
theorem getLast?_snd_fgets {n : ℕ} {data : Bytes} (hend : data.getLast? = some 10) :
    (fgets n data).2 = [] ∨ (fgets n data).2.getLast? = some 10 := by
  induction data generalizing n with
  | nil => cases hend
  | cons c data ih =>
    obtain _ | n := n
    · exact Or.inr hend
    · rw [fgets]
      cases data with
      | nil =>
        split
        · exact Or.inl rfl
        · cases n <;> exact Or.inl rfl
      | cons d data =>
        split
        · exact Or.inr hend
        · exact ih hend

/-- A file whose last line has an end is read before what follows it. -/
theorem readAll_append {n : ℕ} {data : Bytes} (hend : data.getLast? = some 10) (more : Bytes) :
    readAll (n + 1) (data ++ more).length (data ++ more) =
      readAll (n + 1) data.length data ++ readAll (n + 1) more.length more := by
  induction hlength : data.length using Nat.strongRecOn generalizing data with
  | ind length ih =>
    subst hlength
    cases data with
    | nil => cases hend
    | cons c data =>
      have hle := length_snd_fgets_succ_le n c data
      have hrest : readAll (n + 1) (data ++ more).length ((fgets (n + 1) (c :: data)).2 ++ more) =
          readAll (n + 1) data.length (fgets (n + 1) (c :: data)).2 ++
            readAll (n + 1) more.length more := by
        have hfuel : readAll (n + 1) (data ++ more).length
            ((fgets (n + 1) (c :: data)).2 ++ more) =
              readAll (n + 1) ((fgets (n + 1) (c :: data)).2 ++ more).length
                ((fgets (n + 1) (c :: data)).2 ++ more) :=
          readAll_fuel (by simpa using hle) (Nat.le_refl _)
        rw [hfuel, readAll_fuel hle (Nat.le_refl _)]
        rcases getLast?_snd_fgets hend with hnil | hlast
        · rw [hnil]
          rfl
        · exact ih _ (Nat.lt_succ_of_le hle) hlast rfl
      have hread : readAll (n + 1) (c :: data).length (c :: data) =
          (fgets (n + 1) (c :: data)).1 ::
            readAll (n + 1) data.length (fgets (n + 1) (c :: data)).2 := rfl
      have hread' : readAll (n + 1) (c :: data ++ more).length (c :: data ++ more) =
          (fgets (n + 1) (c :: data ++ more)).1 ::
            readAll (n + 1) (data ++ more).length (fgets (n + 1) (c :: data ++ more)).2 := rfl
      rw [hread', hread, fgets_append hend, List.cons_append, hrest]

end Nufw
