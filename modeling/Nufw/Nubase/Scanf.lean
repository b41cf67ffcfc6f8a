import Mathlib.Data.List.DropRight
import Nufw.Nubase.Decimal
import Nufw.Nuauth.PortLists

/-!
# Scanning with a format

What the programs use of `sscanf`: blanks, single characters, numbers in base 10 and 16, and words.
Numbers that `printf` has written are read back, whether they are filled up with blanks
(`sscanf_dec`) or with zeros (`sscanf_hex`).
-/

namespace Nufw

/-! ### Numbers in hexadecimal -/

/-- `isxdigit`. -/
def isxdigit (c : UInt8) : Bool :=
  isdigit c || (65 ≤ c && c ≤ 70) || (97 ≤ c && c ≤ 102)

/-- The value of a hexadecimal digit. -/
def xdigitValue (c : UInt8) : ℕ :=
  if isdigit c then c.toNat - 48 else if c < 97 then c.toNat - 55 else c.toNat - 87

/-- The number that hexadecimal digits stand for. -/
def ofXdigits (digits : Bytes) : ℕ := digits.foldl (fun n c ↦ n * 16 + xdigitValue c) 0

/-- The text starts with `0x`. -/
def HexPrefix (text : Bytes) : Prop :=
  text.head? = some 48 ∧ ((text.drop 1).head? = some 120 ∨ (text.drop 1).head? = some 88)

instance (text : Bytes) : Decidable (HexPrefix text) := inferInstanceAs (Decidable (_ ∧ _))

/-- What `strtoul` reads in base 16: spaces, a sign, `0x`, and digits. The sign, the number and
what follows it, if there is a digit. -/
def scanHex (nptr : Bytes) : Option (Bool × ℕ × Bytes) :=
  let text := nptr.dropWhile isspace
  let negative := text.head? = some 45
  let text := if negative || text.head? = some 43 then text.drop 1 else text
  let text := if HexPrefix text then text.drop 2 else text
  let digits := text.takeWhile isxdigit
  if digits = [] then none else some (negative, ofXdigits digits, text.dropWhile isxdigit)

/-- A hexadecimal digit in capital letters. -/
def xdigitByte (c : ℕ) : UInt8 := UInt8.ofNat (if c < 10 then 48 + c else 55 + c)

/-- A number below `16 ^ width` as `%0<width>X` prints it. -/
def hexPadded : ℕ → ℕ → Bytes
  | 0, _ => []
  | width + 1, n => hexPadded width (n / 16) ++ [xdigitByte (n % 16)]

/-- A number as `%<width>u` prints it. -/
def rightAligned (width n : ℕ) : Bytes :=
  List.replicate (width - (decimal n).length) 32 ++ decimal n

/-! ### The formats -/

/-- A directive of a format. What a conversion with a `*` reads is not assigned. -/
inductive Directive
  /-- Any number of blanks, also none. -/
  | blank
  | char (c : UInt8)
  /-- `%x`. -/
  | hex (assign : Bool)
  /-- `%d` or `%lu`. -/
  | dec (assign : Bool)
  /-- `%<width>s`. -/
  | str (width : ℕ)

/-- What a conversion assigns. -/
inductive ScanValue
  | number (n : ℕ)
  | text (word : Bytes)
  deriving DecidableEq

/-- A number as an `unsigned long`. -/
def unsignedLong (negative : Bool) (n : ℕ) : ℕ :=
  if 2 ^ 64 ≤ n then 2 ^ 64 - 1 else if negative then (2 ^ 64 - n) % 2 ^ 64 else n

/-- A number that has been scanned. -/
def scannedNumber (assign : Bool) (scanned : Bool × ℕ × Bytes) : List ScanValue × Bytes :=
  (if assign then [.number (unsignedLong scanned.1 scanned.2.1)] else [], scanned.2.2)

/-- What a directive does with the input: the values that it assigns, and the rest. -/
def Directive.scan : Directive → Bytes → Option (List ScanValue × Bytes)
  | blank, input => some ([], input.dropWhile isspace)
  | char c, input => if input.head? = some c then some ([], input.drop 1) else none
  | hex assign, input => (scanHex input).map (scannedNumber assign)
  | dec assign, input => (scanNumber input).map (scannedNumber assign)
  | str width, input =>
    let input := input.dropWhile isspace
    let word := (input.takeWhile fun c ↦ !isspace c).take width
    if word = [] then none else some ([.text word], input.drop word.length)

/-- `sscanf`: the values up to the first directive that fails. -/
def sscanf : List Directive → Bytes → List ScanValue
  | [], _ => []
  | directive :: format, input =>
    match directive.scan input with
    | none => []
    | some (values, rest) => values ++ sscanf format rest

section

variable {format : List Directive} {input rest : Bytes} {assign : Bool} {c : UInt8}

@[simp]
theorem sscanf_nil (input : Bytes) : sscanf [] input = [] := rfl

theorem sscanf_cons {directive : Directive} {values : List ScanValue}
    (h : directive.scan input = some (values, rest)) :
    sscanf (directive :: format) input = values ++ sscanf format rest := by
  rw [sscanf, h]

theorem sscanf_congr {directive : Directive} {input' : Bytes}
    (h : directive.scan input = directive.scan input') :
    sscanf (directive :: format) input = sscanf (directive :: format) input' := by
  rw [sscanf, sscanf, h]

@[simp]
theorem sscanf_char (c : UInt8) (rest : Bytes) :
    sscanf (.char c :: format) (c :: rest) = sscanf format rest := by
  have h : (Directive.char c).scan (c :: rest) = some ([], rest) := if_pos rfl
  exact sscanf_cons h

/-! ### Blanks -/

theorem scan_dropWhile_isspace {directive : Directive} (h : ∀ c, directive ≠ .char c) :
    directive.scan (input.dropWhile isspace) = directive.scan input := by
  cases directive with
  | char c => exact absurd rfl (h c)
  | blank | str => simp only [Directive.scan, List.dropWhile_idempotent]
  | hex => simp only [Directive.scan, scanHex, List.dropWhile_idempotent]
  | dec => simp only [Directive.scan, scanNumber, List.dropWhile_idempotent]

/-- Blanks before a conversion are skipped anyway. -/
theorem sscanf_blank {directive : Directive} (h : ∀ c, directive ≠ .char c) :
    sscanf (.blank :: directive :: format) input = sscanf (directive :: format) input :=
  (sscanf_cons rfl).trans (sscanf_congr (scan_dropWhile_isspace h))

theorem sscanf_skip {directive : Directive} (h : ∀ c, directive ≠ .char c) (blanks : Bytes)
    (hblanks : ∀ c ∈ blanks, isspace c = true) :
    sscanf (directive :: format) (blanks ++ input) = sscanf (directive :: format) input := by
  refine sscanf_congr ?_
  rw [← scan_dropWhile_isspace h, List.dropWhile_append_of_pos hblanks, scan_dropWhile_isspace h]

@[simp]
theorem sscanf_blank_hex :
    sscanf (.blank :: .hex assign :: format) input = sscanf (.hex assign :: format) input :=
  sscanf_blank nofun

@[simp]
theorem sscanf_blank_dec :
    sscanf (.blank :: .dec assign :: format) input = sscanf (.dec assign :: format) input :=
  sscanf_blank nofun

@[simp]
theorem sscanf_blank_str {width : ℕ} :
    sscanf (.blank :: .str width :: format) input = sscanf (.str width :: format) input :=
  sscanf_blank nofun

@[simp]
theorem sscanf_hex_space :
    sscanf (.hex assign :: format) (32 :: input) = sscanf (.hex assign :: format) input :=
  sscanf_skip (by simp) [32] (by simp [isspace])

@[simp]
theorem sscanf_dec_space :
    sscanf (.dec assign :: format) (32 :: input) = sscanf (.dec assign :: format) input :=
  sscanf_skip (by simp) [32] (by simp [isspace])

@[simp]
theorem sscanf_str_space {width : ℕ} :
    sscanf (.str width :: format) (32 :: input) = sscanf (.str width :: format) input :=
  sscanf_skip (by simp) [32] (by simp [isspace])

/-! ### Numbers in decimal -/

theorem isdigit_of_mem_decimal {n : ℕ} (h : c ∈ decimal n) : isdigit c = true := by
  have hdigit : ∀ d < 10, isdigit (digitByte d) = true := by decide
  induction n using decimal_induction with
  | hlt d hd =>
    rw [decimal_of_lt hd] at h
    rw [List.mem_singleton.1 h]
    exact hdigit d hd
  | hge n hn ih =>
    rw [decimal_of_ge hn] at h
    rcases List.mem_append.1 h with h | h
    · exact ih h
    · rw [List.mem_singleton.1 h]
      exact hdigit _ (Nat.mod_lt n (by decide))

theorem length_rightAligned {width n : ℕ} (hwidth : 0 < width) (hn : n < 10 ^ width) :
    (rightAligned width n).length = width := by
  have hle := length_decimal_le hwidth hn
  rw [rightAligned, List.length_append, List.length_replicate]
  omega

theorem isspace_of_mem_replicate (n : ℕ) :
    ∀ b ∈ List.replicate n (32 : UInt8), isspace b = true := by
  intro b hb
  rw [List.eq_of_mem_replicate hb]
  rfl

/-- The blanks of a number end where its digits start. -/
theorem rightAligned_append (width n : ℕ) (rest : Bytes) :
    (rightAligned width n ++ rest).takeWhile isspace =
        List.replicate (width - (decimal n).length) 32 ∧
      (rightAligned width n ++ rest).dropWhile isspace = decimal n ++ rest := by
  obtain ⟨d, ds, hdecimal⟩ := List.exists_cons_of_ne_nil (decimal_ne_nil n)
  have hd : isdigit d = true := isdigit_of_mem_decimal (hdecimal ▸ List.mem_cons_self)
  have hspace : ¬isspace d = true := by
    rw [isdigit_iff] at hd
    rw [isspace_iff]
    omega
  have hblanks := isspace_of_mem_replicate (width - (decimal n).length)
  rw [rightAligned, List.append_assoc]
  refine span_append hblanks fun c hc ↦ ?_
  rw [hdecimal] at hc
  obtain rfl : d = c := Option.some.inj hc
  exact Bool.not_eq_true _ ▸ hspace

theorem unsignedLong_of_lt {n : ℕ} (hn : n < 2 ^ 64) : unsignedLong false n = n := by
  rw [unsignedLong, if_neg (Nat.not_le.2 hn)]
  rfl

theorem sscanf_number {directive : Directive} {n : ℕ} (hn : n < 2 ^ 64)
    (h : directive.scan input = some (scannedNumber assign (false, n, rest))) :
    sscanf (directive :: format) input =
      (if assign then [.number n] else []) ++ sscanf format rest := by
  rw [sscanf, h, scannedNumber]
  dsimp only
  rw [unsignedLong_of_lt hn]

theorem scan_rightAligned (width n : ℕ) (hc : isdigit c = false) :
    (Directive.dec assign).scan (rightAligned width n ++ c :: rest) =
      some (scannedNumber assign (false, n, c :: rest)) := by
  have hblanks := isspace_of_mem_replicate (width - (decimal n).length)
  have hrest : ∀ d, (c :: rest).head? = some d → isdigit d = false := fun d hd ↦
    Option.some.inj hd ▸ hc
  rw [rightAligned, Directive.scan, scanNumber_digits hblanks
    (fun _ ↦ isdigit_of_mem_decimal) (decimal_ne_nil n) hrest, ofDigits_decimal]
  rfl

/-- **A number that is filled up with blanks** is read back. -/
@[simp]
theorem sscanf_dec {width n : ℕ} (hn : n < 2 ^ 64) (hc : isdigit c = false) :
    sscanf (.dec true :: format) (rightAligned width n ++ c :: rest) =
      .number n :: sscanf format (c :: rest) :=
  sscanf_number hn (scan_rightAligned width n hc)

@[simp]
theorem sscanf_dec_false {width n : ℕ} (hc : isdigit c = false) :
    sscanf (.dec false :: format) (rightAligned width n ++ c :: rest) =
      sscanf format (c :: rest) :=
  sscanf_cons (scan_rightAligned width n hc)

theorem rightAligned_zero (n : ℕ) : rightAligned 0 n = decimal n := by
  rw [rightAligned, Nat.zero_sub, List.replicate_zero, List.nil_append]

@[simp]
theorem sscanf_decimal {n : ℕ} (hn : n < 2 ^ 64) (hc : isdigit c = false) :
    sscanf (.dec true :: format) (decimal n ++ c :: rest) =
      .number n :: sscanf format (c :: rest) := by
  rw [← rightAligned_zero]
  exact sscanf_dec hn hc

/-! ### Numbers in hexadecimal -/

theorem isxdigit_iff {c : UInt8} : isxdigit c = true ↔
    (48 ≤ c.toNat ∧ c.toNat ≤ 57) ∨ (65 ≤ c.toNat ∧ c.toNat ≤ 70) ∨
      (97 ≤ c.toNat ∧ c.toNat ≤ 102) := by
  simp only [isxdigit, Bool.or_eq_true, Bool.and_eq_true, decide_eq_true_eq, isdigit_iff,
    UInt8.le_iff_toNat_le, or_assoc]
  rfl

theorem isspace_eq_false_of_isxdigit (h : isxdigit c = true) : isspace c = false := by
  rw [isxdigit_iff] at h
  rw [← Bool.not_eq_true, isspace_iff]
  omega

theorem isxdigit_xdigitByte : ∀ d < 16, isxdigit (xdigitByte d) = true := by decide

theorem xdigitValue_xdigitByte : ∀ d < 16, xdigitValue (xdigitByte d) = d := by decide

@[simp]
theorem length_hexPadded (width n : ℕ) : (hexPadded width n).length = width := by
  induction width generalizing n with
  | zero => rfl
  | succ width ih => rw [hexPadded, List.length_append, ih, List.length_singleton]

theorem exists_of_mem_hexPadded {width n : ℕ} (h : c ∈ hexPadded width n) :
    ∃ d < 16, c = xdigitByte d := by
  induction width generalizing n with
  | zero => cases h
  | succ width ih =>
    rcases List.mem_append.1 h with h | h
    · exact ih h
    · exact ⟨n % 16, Nat.mod_lt n (by decide), List.mem_singleton.1 h⟩

theorem isxdigit_of_mem_hexPadded {width n : ℕ} (h : c ∈ hexPadded width n) :
    isxdigit c = true := by
  obtain ⟨d, hd, rfl⟩ := exists_of_mem_hexPadded h
  exact isxdigit_xdigitByte d hd

theorem ofXdigits_hexPadded {width n : ℕ} (hn : n < 16 ^ width) :
    ofXdigits (hexPadded width n) = n := by
  induction width generalizing n with
  | zero => exact (Nat.lt_one_iff.1 hn).symm
  | succ width ih =>
    have hdiv : n / 16 < 16 ^ width := Nat.div_lt_of_lt_mul (by rwa [Nat.pow_succ'] at hn)
    rw [hexPadded, ofXdigits, List.foldl_append, ← ofXdigits, ih hdiv, List.foldl_cons,
      List.foldl_nil, xdigitValue_xdigitByte _ (Nat.mod_lt n (by decide))]
    omega

/-- Neither a digit nor the letter of a prefix comes next. -/
def EndsHex (rest : Bytes) : Prop :=
  ∀ c, rest.head? = some c → isxdigit c = false ∧ c ≠ 120 ∧ c ≠ 88

theorem endsHex_nil : EndsHex [] := nofun

theorem endsHex_cons (hc : isxdigit c = false) (hc' : c ≠ 120) (hc'' : c ≠ 88) :
    EndsHex (c :: rest) := by
  intro d hd
  obtain rfl := Option.some.inj hd
  exact ⟨hc, hc', hc''⟩

/-- Digits in base 16 are scanned to their end. -/
theorem scanHex_digits {digits : Bytes} (hdigits : ∀ c ∈ digits, isxdigit c = true)
    (hne : digits ≠ []) (hrest : EndsHex rest) :
    scanHex (digits ++ rest) = some (false, ofXdigits digits, rest) := by
  obtain ⟨d, ds, rfl⟩ := List.exists_cons_of_ne_nil hne
  have hd := hdigits d List.mem_cons_self
  have hspace : ¬isspace d = true := by
    rw [isspace_eq_false_of_isxdigit hd]
    exact Bool.false_ne_true
  have hother : ∀ {b : UInt8}, isxdigit b = false → ∀ x ∈ d :: ds, x ≠ b := by
    rintro b hb x hx rfl
    rw [hdigits x hx] at hb
    cases hb
  have hminus : d ≠ 45 := hother rfl d List.mem_cons_self
  have hplus : d ≠ 43 := hother rfl d List.mem_cons_self
  have hstarts : ¬HexPrefix (d :: (ds ++ rest)) := by
    rintro ⟨-, hx⟩
    have hnext : ∀ x, (ds ++ rest).head? = some x → x ≠ 120 ∧ x ≠ 88 := by
      intro x hx
      rcases ds with _ | ⟨e, ds⟩
      · exact (hrest x hx).2
      · obtain rfl := Option.some.inj hx
        have hmem : e ∈ d :: e :: ds := List.mem_cons_of_mem d List.mem_cons_self
        exact ⟨hother rfl e hmem, hother rfl e hmem⟩
    rcases hx with hx | hx
    · exact (hnext _ hx).1 rfl
    · exact (hnext _ hx).2 rfl
  have htext : (d :: (ds ++ rest)).dropWhile isspace = d :: (ds ++ rest) :=
    List.dropWhile_cons_of_neg hspace
  obtain ⟨htake, hdrop⟩ := span_append hdigits fun c hc ↦ (hrest c hc).1
  rw [scanHex, List.cons_append, htext]
  simp only [List.head?_cons, Option.some.injEq, hminus, hplus, decide_false, Bool.or_self,
    Bool.false_eq_true, if_false, hstarts]
  rw [← List.cons_append, htake, hdrop, if_neg (List.cons_ne_nil d ds)]

/-- **A number that is filled up with zeros** is read back. -/
theorem sscanf_hexPadded {width n : ℕ} (hwidth : width ≠ 0) (hwidth' : width ≤ 16)
    (hn : n < 16 ^ width) (hrest : EndsHex rest) :
    sscanf (.hex assign :: format) (hexPadded width n ++ rest) =
      (if assign then [.number n] else []) ++ sscanf format rest := by
  have hne : hexPadded width n ≠ [] := fun h ↦
    hwidth ((length_hexPadded width n).symm.trans (congrArg List.length h))
  have hn' : n < 2 ^ 64 := hn.trans_le (Nat.pow_le_pow_right (by decide) hwidth')
  refine sscanf_number hn' ?_
  rw [Directive.scan, scanHex_digits (fun _ ↦ isxdigit_of_mem_hexPadded) hne hrest,
    ofXdigits_hexPadded hn]
  rfl

@[simp]
theorem sscanf_hex {width n : ℕ} (hwidth : width ≠ 0) (hwidth' : width ≤ 16)
    (hn : n < 16 ^ width) (hc : isxdigit c = false) (hc' : c ≠ 120) (hc'' : c ≠ 88) :
    sscanf (.hex assign :: format) (hexPadded width n ++ c :: rest) =
      (if assign then [.number n] else []) ++ sscanf format (c :: rest) :=
  sscanf_hexPadded hwidth hwidth' hn (endsHex_cons hc hc' hc'')

/-! ### Words -/

/-- A word that is as long as its conversion is wide is read back, whatever follows it. -/
theorem sscanf_str {word : Bytes} (hne : word ≠ []) (hword : ∀ c ∈ word, isspace c = false) :
    sscanf (.str word.length :: format) (word ++ rest) = .text word :: sscanf format rest := by
  obtain ⟨d, ds, rfl⟩ := List.exists_cons_of_ne_nil hne
  have hd : ¬isspace d = true := by
    rw [hword d List.mem_cons_self]
    exact Bool.false_ne_true
  have htext : (d :: ds ++ rest).dropWhile isspace = d :: ds ++ rest :=
    List.dropWhile_cons_of_neg hd
  have htake : ((d :: ds ++ rest).takeWhile fun c ↦ !isspace c).take (d :: ds).length =
      d :: ds := by
    rw [List.takeWhile_append_of_pos fun c hc ↦ by rw [hword c hc]; rfl, List.take_left]
  have hscan : (Directive.str (d :: ds).length).scan (d :: ds ++ rest) =
      some ([.text (d :: ds)], rest) := by
    rw [Directive.scan, htext, htake, if_neg (List.cons_ne_nil d ds), List.drop_left]
  rw [sscanf_cons hscan]
  rfl

end

end Nufw
