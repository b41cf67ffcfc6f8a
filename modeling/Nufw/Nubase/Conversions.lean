import Nufw.Nuauth.GroupFile
import Nufw.Nuauth.PortLists

/-!
# Numbers in texts

`str_to_long`, `str_to_ulong`, `str_to_int` and `str_to_uint32` of `strings.c` convert a whole text,
and leave the result alone if they cannot. They rely on `strtol` and `strtoul` for everything but
the end of the text and the range of the two smaller types.

These two read nothing as zero, so a blank text is converted by all four. They answer a number that
is too large with the largest one, so `str_to_long` and `str_to_ulong` convert it too. And
`strtoul` takes a sign, and wraps around. Nothing else goes wrong (`conversions_exact_iff`).
-/

namespace Nufw

/-- The sign of a number. -/
inductive Sign
  | none
  | plus
  | minus
  deriving DecidableEq

/-- How the sign is written. -/
def Sign.text : Sign → Bytes
  | none => []
  | plus => [43]
  | minus => [45]

/-- The number with its sign. -/
def Sign.value (sign : Sign) (n : ℕ) : Int := if sign = minus then -n else n

/-- Optional white space, perhaps a sign, and digits. -/
def NumberText (text : Bytes) (sign : Sign) (n : ℕ) : Prop :=
  ∃ spaces digits, text = spaces ++ sign.text ++ digits ∧ (∀ c ∈ spaces, isspace c = true) ∧
    IsNumeral digits ∧ ofDigits digits = n

/-- Nothing but white space. -/
def BlankText (text : Bytes) : Prop := ∀ c ∈ text, isspace c = true

/-- What a caller sees of a conversion: what is returned, and what `value` points to afterwards. -/
def returned {α : Type} (converted : Option α) (value : α) : Bool × α :=
  match converted with
  | some v => (true, v)
  | none => (false, value)

/-! ### What `strtol` and `strtoul` read -/

theorem isspace_eq_false_of_isdigit {c : UInt8} (h : isdigit c = true) : isspace c = false := by
  rw [isdigit_iff] at h
  rw [← Bool.not_eq_true, isspace_iff]
  omega

theorem Sign.isspace_eq_false {sign : Sign} {c : UInt8} (h : c ∈ sign.text) :
    isspace c = false := by
  cases sign with
  | none => cases h
  | plus =>
    rw [List.mem_singleton.1 h]
    rfl
  | minus =>
    rw [List.mem_singleton.1 h]
    rfl

/-- The white space in front ends where the sign or the digits start. -/
theorem dropWhile_isspace_eq {spaces digits : Bytes} (sign : Sign)
    (hspaces : ∀ c ∈ spaces, isspace c = true) (hdigits : IsNumeral digits) :
    (spaces ++ sign.text ++ digits).dropWhile isspace = sign.text ++ digits := by
  rw [List.append_assoc, List.dropWhile_append_of_pos hspaces, List.dropWhile_eq_self_iff]
  intro hpos
  have hmem := List.getElem_mem hpos
  rcases List.mem_append.1 hmem with h | h
  · rw [Sign.isspace_eq_false h]
    exact Bool.false_ne_true
  · rw [isspace_eq_false_of_isdigit (hdigits.2 _ h)]
    exact Bool.false_ne_true

theorem NumberText.dropWhile {text : Bytes} {sign : Sign} {n : ℕ} (h : NumberText text sign n) :
    ∃ digits, text.dropWhile isspace = sign.text ++ digits ∧ IsNumeral digits ∧
      ofDigits digits = n := by
  obtain ⟨spaces, digits, rfl, hspaces, hdigits, hn⟩ := h
  exact ⟨digits, dropWhile_isspace_eq sign hspaces hdigits, hdigits, hn⟩

/-- A sign is not a digit. -/
theorem sign_append_inj {sign sign' : Sign} {digits digits' : Bytes} (hdigits : IsNumeral digits)
    (hdigits' : IsNumeral digits') (h : sign.text ++ digits = sign'.text ++ digits') :
    sign = sign' ∧ digits = digits' := by
  obtain ⟨⟨d, ds, rfl⟩, hall⟩ := hdigits.imp_left List.exists_cons_of_ne_nil
  obtain ⟨⟨d', ds', rfl⟩, hall'⟩ := hdigits'.imp_left List.exists_cons_of_ne_nil
  have hd := hall d List.mem_cons_self
  have hd' := hall' d' List.mem_cons_self
  cases sign <;> cases sign' <;>
    simp only [Sign.text, List.nil_append, List.singleton_append, List.cons.injEq] at h
  case none.none => exact ⟨rfl, by rw [h.1, h.2]⟩
  case plus.plus => exact ⟨rfl, by rw [h.2.1, h.2.2]⟩
  case minus.minus => exact ⟨rfl, by rw [h.2.1, h.2.2]⟩
  case none.plus =>
    rw [h.1] at hd
    exact absurd hd (by decide)
  case none.minus =>
    rw [h.1] at hd
    exact absurd hd (by decide)
  case plus.none =>
    rw [← h.1] at hd'
    exact absurd hd' (by decide)
  case minus.none =>
    rw [← h.1] at hd'
    exact absurd hd' (by decide)
  case plus.minus => exact absurd h.1 (by decide)
  case minus.plus => exact absurd h.1 (by decide)

/-- A text is a number in one way. -/
theorem NumberText.unique {text : Bytes} {sign sign' : Sign} {n n' : ℕ}
    (h : NumberText text sign n) (h' : NumberText text sign' n') : sign = sign' ∧ n = n' := by
  obtain ⟨digits, htext, hdigits, rfl⟩ := h.dropWhile
  obtain ⟨digits', htext', hdigits', rfl⟩ := h'.dropWhile
  obtain ⟨rfl, rfl⟩ := sign_append_inj hdigits hdigits' (htext.symm.trans htext')
  exact ⟨rfl, rfl⟩

/-- A text begins with a sign or it does not. -/
theorem exists_sign (text : Bytes) : ∃ (sign : Sign) (rest : Bytes), text = sign.text ++ rest ∧
    (sign = .none → rest.head? ≠ some 45 ∧ rest.head? ≠ some 43) := by
  rcases text with _ | ⟨c, rest⟩
  · exact ⟨.none, [], rfl, fun _ ↦ ⟨nofun, nofun⟩⟩
  by_cases hminus : c = 45
  · exact ⟨.minus, rest, by rw [hminus]; rfl, nofun⟩
  by_cases hplus : c = 43
  · exact ⟨.plus, rest, by rw [hplus]; rfl, nofun⟩
  · exact ⟨.none, c :: rest, rfl, fun _ ↦
      ⟨fun h ↦ hminus (Option.some.inj h), fun h ↦ hplus (Option.some.inj h)⟩⟩

/-- What is scanned behind the white space and the sign. -/
theorem scanNumber_eq {text rest : Bytes} {sign : Sign}
    (htext : text.dropWhile isspace = sign.text ++ rest)
    (hrest : sign = .none → rest.head? ≠ some 45 ∧ rest.head? ≠ some 43) :
    scanNumber text = if rest.takeWhile isdigit = [] then none else
      some (decide (sign = .minus), ofDigits (rest.takeWhile isdigit),
        rest.dropWhile isdigit) := by
  rw [scanNumber, htext]
  cases sign with
  | none =>
    obtain ⟨hminus, hplus⟩ := hrest rfl
    simp [Sign.text, hminus, hplus]
  | plus => simp [Sign.text]
  | minus => simp [Sign.text]

theorem head?_ne_of_isNumeral {digits : Bytes} (h : IsNumeral digits) :
    digits.head? ≠ some 45 ∧ digits.head? ≠ some 43 := by
  obtain ⟨⟨d, ds, rfl⟩, hall⟩ := h.imp_left List.exists_cons_of_ne_nil
  have hd := hall d List.mem_cons_self
  constructor
  · intro hminus
    rw [Option.some.inj hminus] at hd
    exact absurd hd (by decide)
  · intro hplus
    rw [Option.some.inj hplus] at hd
    exact absurd hd (by decide)

/-- **What the conversions scan**: a number to the end of the text, if it is one. -/
theorem scanNumber_eq_some_iff {text : Bytes} {negative : Bool} {n : ℕ} :
    scanNumber (text.dropWhile isspace) = some (negative, n, []) ↔
      ∃ sign, decide (sign = .minus) = negative ∧ NumberText text sign n := by
  obtain ⟨sign, rest, htext, hrest⟩ := exists_sign (text.dropWhile isspace)
  have hscan := scanNumber_eq ((List.dropWhile_idempotent isspace text).trans htext) hrest
  constructor
  · intro h
    rw [hscan] at h
    split_ifs at h with hnil
    simp only [Option.some.injEq, Prod.mk.injEq] at h
    obtain ⟨hneg, hn, hend⟩ := h
    have hall : ∀ c ∈ rest, isdigit c = true := List.dropWhile_eq_nil_iff.1 hend
    have htake : rest.takeWhile isdigit = rest := List.takeWhile_eq_self_iff.2 hall
    rw [htake] at hn hnil
    refine ⟨sign, hneg, text.takeWhile isspace, rest, ?_, fun c hc ↦ List.mem_takeWhile_imp hc,
      ⟨hnil, hall⟩, hn⟩
    rw [List.append_assoc, ← htext, List.takeWhile_append_dropWhile]
  · rintro ⟨sign', hneg, hnumber⟩
    obtain ⟨digits, hdrop, hdigits, hn⟩ := hnumber.dropWhile
    rw [scanNumber_eq ((List.dropWhile_idempotent isspace text).trans hdrop) fun _ ↦
      head?_ne_of_isNumeral hdigits, List.takeWhile_eq_self_iff.2 hdigits.2, if_neg hdigits.1,
      List.dropWhile_eq_nil_iff.2 hdigits.2, hneg, hn]

/-! ### The four conversions -/

/-- What a conversion does: zero for a blank text, something for each number, and nothing else. -/
structure ConvertsBy {α : Type} (convert : Bytes → Option α) (zero : α)
    (made : Sign → ℕ → Option α) : Prop where
  blank {text : Bytes} (h : BlankText text) : convert text = some zero
  number {text : Bytes} {sign : Sign} {n : ℕ} (h : NumberText text sign n) :
    convert text = made sign n
  other {text : Bytes} (h : ¬BlankText text) (h' : ∀ sign n, ¬NumberText text sign n) :
    convert text = none

/-- A blank text is not a number. -/
theorem NumberText.not_blank {text : Bytes} {sign : Sign} {n : ℕ} (h : NumberText text sign n) :
    ¬BlankText text := by
  intro hblank
  obtain ⟨digits, htext, hdigits, -⟩ := h.dropWhile
  rw [List.dropWhile_eq_nil_iff.2 hblank, eq_comm, List.append_eq_nil_iff] at htext
  exact hdigits.1 htext.2

/-- What `str_to_long` makes of a number. -/
def longMade (sign : Sign) (n : ℕ) : Option Int :=
  some (max (min (sign.value n) (2 ^ 63 - 1)) (-2 ^ 63))

/-- What `str_to_ulong` makes of a number. -/
def ulongMade (sign : Sign) (n : ℕ) : Option ℕ :=
  some (if 2 ^ 64 ≤ n then 2 ^ 64 - 1 else if sign = .minus then (2 ^ 64 - n) % 2 ^ 64 else n)

theorem convertsBy_strToLong : ConvertsBy strToLong 0 longMade where
  blank {text} h := by
    rw [strToLong, List.dropWhile_eq_nil_iff.2 h]
    rfl
  number {text sign n} h := by
    rw [strToLong, strtol, scanNumber_eq_some_iff.2 ⟨sign, rfl, h⟩, longMade, Sign.value]
    dsimp only
    by_cases hminus : sign = .minus
    · rw [decide_eq_true hminus, if_pos rfl, if_pos hminus, min_eq_left (by omega)]
    · rw [decide_eq_false hminus, if_neg Bool.false_ne_true, if_neg hminus,
        max_eq_left (by omega)]
  other {text} h h' := by
    rw [strToLong, strtol]
    rcases hscan : scanNumber (text.dropWhile isspace) with _ | ⟨negative, n, _ | ⟨c, rest⟩⟩
    · dsimp only
      split
      · next heq =>
        exact absurd (List.dropWhile_eq_nil_iff.1 (Prod.mk.inj heq).2) h
      · rfl
    · obtain ⟨sign, -, hnumber⟩ := scanNumber_eq_some_iff.1 hscan
      exact absurd hnumber (h' sign n)
    · rfl

theorem convertsBy_strToUlong : ConvertsBy strToUlong 0 ulongMade where
  blank {text} h := by
    rw [strToUlong, List.dropWhile_eq_nil_iff.2 h]
    rfl
  number {text sign n} h := by
    rw [strToUlong, strtoul, scanNumber_eq_some_iff.2 ⟨sign, rfl, h⟩, ulongMade]
    dsimp only
    simp only [decide_eq_true_eq]
  other {text} h h' := by
    rw [strToUlong, strtoul]
    rcases hscan : scanNumber (text.dropWhile isspace) with _ | ⟨negative, n, _ | ⟨c, rest⟩⟩
    · dsimp only
      split
      · next heq =>
        exact absurd (List.dropWhile_eq_nil_iff.1 (Prod.mk.inj heq).2) h
      · rfl
    · obtain ⟨sign, -, hnumber⟩ := scanNumber_eq_some_iff.1 hscan
      exact absurd hnumber (h' sign n)
    · rfl

/-- A conversion whose result is converted once more. -/
theorem ConvertsBy.bind {α β : Type} {convert : Bytes → Option α} {zero : α}
    {made : Sign → ℕ → Option α} (h : ConvertsBy convert zero made) (f : α → Option β) {zero' : β}
    (hzero : f zero = some zero') :
    ConvertsBy (fun text ↦ (convert text).bind f) zero' fun sign n ↦ (made sign n).bind f where
  blank hblank := by rw [h.blank hblank, Option.bind_some, hzero]
  number hnumber := by rw [h.number hnumber]
  other hblank hnumber := by rw [h.other hblank hnumber, Option.bind_none]

theorem convertsBy_strToInt : ConvertsBy strToInt 0 fun sign n ↦ (longMade sign n).bind
    fun longvalue ↦ if longvalue < -2 ^ 31 ∨ 2 ^ 31 - 1 < longvalue then none
      else some longvalue := by
  have heq : strToInt = fun text ↦ (strToLong text).bind fun longvalue ↦
      if longvalue < -2 ^ 31 ∨ 2 ^ 31 - 1 < longvalue then none else some longvalue := by
    funext text
    rw [strToInt]
    cases strToLong text <;> rfl
  rw [heq]
  exact convertsBy_strToLong.bind _ (by decide)

theorem convertsBy_strToUint32 : ConvertsBy strToUint32 0 fun sign n ↦ (ulongMade sign n).bind
    fun ulongvalue ↦ if 4294967295 < ulongvalue then none
      else some (UInt32.ofNat ulongvalue) := by
  have heq : strToUint32 = fun text ↦ (strToUlong text).bind fun ulongvalue ↦
      if 4294967295 < ulongvalue then none else some (UInt32.ofNat ulongvalue) := by
    funext text
    rw [strToUint32]
    cases strToUlong text <;> rfl
  rw [heq]
  exact convertsBy_strToUlong.bind _ (by decide)

/-! ### What they should do -/

/-- The numbers of each type: with a sign or without, and in its range. -/
def longMeant (sign : Sign) (n : ℕ) : Option Int :=
  if -2 ^ 63 ≤ sign.value n ∧ sign.value n < 2 ^ 63 then some (sign.value n) else none

def intMeant (sign : Sign) (n : ℕ) : Option Int :=
  if -2 ^ 31 ≤ sign.value n ∧ sign.value n < 2 ^ 31 then some (sign.value n) else none

def ulongMeant (sign : Sign) (n : ℕ) : Option ℕ :=
  if sign = .none ∧ n < 2 ^ 64 then some n else none

def uint32Meant (sign : Sign) (n : ℕ) : Option UInt32 :=
  if sign = .none ∧ n < 2 ^ 32 then some (.ofNat n) else none

/-- The text is converted just if it is a number that is meant, to that number; otherwise the value
is left alone. -/
def ConvertsExactly {α : Type} (meant : Sign → ℕ → Option α) (convert : Bytes → Option α)
    (text : Bytes) : Prop :=
  ∀ value, let r := returned (convert text) value
    (r.1 = true ↔ ∃ sign n, NumberText text sign n ∧ (meant sign n).isSome) ∧
      (∀ sign n v, NumberText text sign n → meant sign n = some v → r.2 = v) ∧
      (r.1 = false → r.2 = value)

theorem returned_fst {α : Type} (converted : Option α) (value : α) :
    (returned converted value).1 = converted.isSome := by
  cases converted <;> rfl

/-- A conversion is right unless the text is blank or makes something that is not meant. -/
theorem ConvertsBy.exactly_iff {α : Type} {convert : Bytes → Option α} {zero : α}
    {made meant : Sign → ℕ → Option α} (h : ConvertsBy convert zero made) (text : Bytes) :
    ConvertsExactly meant convert text ↔
      ¬BlankText text ∧ ∀ sign n, NumberText text sign n → made sign n = meant sign n := by
  constructor
  · intro hexact
    obtain ⟨hiff, hvalue, -⟩ := hexact zero
    rw [returned_fst] at hiff
    constructor
    · intro hblank
      obtain ⟨sign, n, hnumber, -⟩ := hiff.1 (by rw [h.blank hblank]; rfl)
      exact hnumber.not_blank hblank
    · intro sign n hnumber
      rw [h.number hnumber] at hiff hvalue
      cases hmeant : meant sign n with
      | none =>
        refine Option.not_isSome_iff_eq_none.1 fun hmade ↦ ?_
        obtain ⟨sign', n', hnumber', hmeant'⟩ := hiff.1 hmade
        obtain ⟨rfl, rfl⟩ := hnumber.unique hnumber'
        rw [hmeant] at hmeant'
        cases hmeant'
      | some v =>
        obtain ⟨v', hmade⟩ := Option.isSome_iff_exists.1 (hiff.2 ⟨sign, n, hnumber, hmeant ▸ rfl⟩)
        have hv := hvalue sign n v hnumber hmeant
        rw [hmade] at hv ⊢
        exact congrArg some hv
  · rintro ⟨hblank, hmade⟩ value
    by_cases hnumber : ∃ sign n, NumberText text sign n
    · obtain ⟨sign, n, hnumber⟩ := hnumber
      have hconvert : convert text = meant sign n := (h.number hnumber).trans (hmade _ _ hnumber)
      refine ⟨?_, fun sign' n' v hnumber' hmeant ↦ ?_, fun hfalse ↦ ?_⟩
      · rw [returned_fst, hconvert]
        refine ⟨fun hsome ↦ ⟨sign, n, hnumber, hsome⟩, ?_⟩
        rintro ⟨sign', n', hnumber', hsome⟩
        obtain ⟨rfl, rfl⟩ := hnumber.unique hnumber'
        exact hsome
      · obtain ⟨rfl, rfl⟩ := hnumber.unique hnumber'
        rw [hconvert, hmeant]
        rfl
      · rw [returned_fst, Option.isSome_eq_false_iff, Option.isNone_iff_eq_none] at hfalse
        rw [hfalse]
        rfl
    · have hconvert := h.other hblank fun sign n hn ↦ hnumber ⟨sign, n, hn⟩
      refine ⟨?_, fun sign n v hn _ ↦ absurd ⟨sign, n, hn⟩ hnumber, fun _ ↦ by rw [hconvert]; rfl⟩
      rw [hconvert]
      exact iff_of_false Bool.false_ne_true fun ⟨sign, n, hn, _⟩ ↦ hnumber ⟨sign, n, hn⟩

theorem longMade_eq_iff {sign : Sign} {n : ℕ} : longMade sign n = longMeant sign n ↔
    -2 ^ 63 ≤ sign.value n ∧ sign.value n < 2 ^ 63 := by
  rw [longMade, longMeant]
  split_ifs with h
  · exact iff_of_true (by congr 1; omega) h
  · exact iff_of_false nofun h

/-- What is cut by `str_to_long` is too large for an `int`. -/
theorem intMade_eq (sign : Sign) (n : ℕ) :
    ((longMade sign n).bind fun longvalue ↦
      if longvalue < -2 ^ 31 ∨ 2 ^ 31 - 1 < longvalue then none else some longvalue) =
        intMeant sign n := by
  rw [longMade, Option.bind_some, intMeant]
  by_cases h : -2 ^ 31 ≤ sign.value n ∧ sign.value n < 2 ^ 31
  · rw [if_neg (by omega), if_pos h]
    congr 1
    omega
  · rw [if_pos (by omega), if_neg h]

theorem ulongMade_eq_iff {sign : Sign} {n : ℕ} : ulongMade sign n = ulongMeant sign n ↔
    sign = .none ∧ n < 2 ^ 64 := by
  rw [ulongMade, ulongMeant]
  by_cases h : sign = .none ∧ n < 2 ^ 64
  · refine iff_of_true ?_ h
    rw [if_pos h, if_neg (by omega), if_neg (by rw [h.1]; exact nofun)]
  · rw [if_neg h]
    exact iff_of_false nofun h

/-- When `str_to_uint32` takes a number that has a sign. -/
theorem uint32Made_eq_iff (sign : Sign) (n : ℕ) :
    ((ulongMade sign n).bind fun ulongvalue ↦
      if 4294967295 < ulongvalue then none else some (UInt32.ofNat ulongvalue)) =
        uint32Meant sign n ↔
      (sign = .plus → 2 ^ 32 ≤ n) ∧
        (sign = .minus → n ≠ 0 ∧ (n ≤ 2 ^ 64 - 2 ^ 32 ∨ 2 ^ 64 ≤ n)) := by
  have hnone : ∀ ulongvalue : ℕ, (if 4294967295 < ulongvalue then none
      else some (UInt32.ofNat ulongvalue)) = none ↔ 4294967295 < ulongvalue := by
    intro ulongvalue
    split_ifs with h
    · exact iff_of_true rfl h
    · exact iff_of_false nofun h
  rw [ulongMade, Option.bind_some, uint32Meant]
  cases sign with
  | none =>
    refine iff_of_true ?_ ⟨nofun, nofun⟩
    simp only [reduceCtorEq, if_false, true_and]
    by_cases h : n < 2 ^ 32
    · rw [if_pos h, if_neg (show ¬2 ^ 64 ≤ n by omega), if_neg (by omega)]
    · rw [if_neg h, hnone]
      split_ifs <;> omega
  | plus =>
    simp only [reduceCtorEq, if_false, false_and, false_implies, and_true, true_implies]
    rw [hnone]
    split_ifs <;> omega
  | minus =>
    simp only [reduceCtorEq, if_true, if_false, false_and, false_implies, true_and, true_implies]
    rw [hnone]
    split_ifs <;> omega

/-- **A text is converted as it should be exactly if** it is not blank, and for `str_to_long` and
`str_to_ulong` no number that is too large, and for `str_to_ulong` and `str_to_uint32` no number
with a sign that they take. -/
theorem conversions_exact_iff (text : Bytes) :
    (ConvertsExactly longMeant strToLong text ↔
      ¬BlankText text ∧ ∀ sign n, NumberText text sign n →
        -2 ^ 63 ≤ sign.value n ∧ sign.value n < 2 ^ 63) ∧
    (ConvertsExactly intMeant strToInt text ↔ ¬BlankText text) ∧
    (ConvertsExactly ulongMeant strToUlong text ↔
      ¬BlankText text ∧ ∀ sign n, NumberText text sign n → sign = .none ∧ n < 2 ^ 64) ∧
    (ConvertsExactly uint32Meant strToUint32 text ↔
      ¬BlankText text ∧ ∀ n, (NumberText text .plus n → 2 ^ 32 ≤ n) ∧
        (NumberText text .minus n → n ≠ 0 ∧ (n ≤ 2 ^ 64 - 2 ^ 32 ∨ 2 ^ 64 ≤ n))) := by
  refine ⟨?_, ?_, ?_, ?_⟩
  · rw [convertsBy_strToLong.exactly_iff]
    simp only [longMade_eq_iff]
  · rw [convertsBy_strToInt.exactly_iff]
    exact and_iff_left fun sign n _ ↦ intMade_eq sign n
  · rw [convertsBy_strToUlong.exactly_iff]
    simp only [ulongMade_eq_iff]
  · rw [convertsBy_strToUint32.exactly_iff]
    simp only [uint32Made_eq_iff]
    refine and_congr_right fun _ ↦ ⟨fun h n ↦ ⟨fun hn ↦ (h _ n hn).1 rfl, fun hn ↦
      (h _ n hn).2 rfl⟩, fun h sign n hn ↦ ⟨?_, ?_⟩⟩
    · rintro rfl
      exact (h n).1 hn
    · rintro rfl
      exact (h n).2 hn

/-- The empty text is taken for zero. -/
theorem empty_not_exact : ¬ConvertsExactly uint32Meant strToUint32 [] := by
  intro h
  obtain ⟨sign, n, ⟨spaces, digits, htext, -, hdigits, -⟩, -⟩ := (h 7).1.1 (by decide)
  rw [eq_comm, List.append_eq_nil_iff] at htext
  exact hdigits.1 htext.2

end Nufw
