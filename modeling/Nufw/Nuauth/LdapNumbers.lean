import Mathlib.Data.Nat.Digits.Defs
import Nufw.Nubase.Decimal
import Nufw.Nuauth.Ldap

/-!
# Addresses as decimal numbers

The IPv6 schema of the directory has addresses as decimal numbers. `ipv6_to_base10` of `ldap.c`
computes them with numbers of seven digits in base 10^6, the least one first: the bytes of the
address are added, and the number is multiplied by 256, in turn; then the digits are printed one
behind the other and the leading zeros are passed over.

The arithmetic is right and stays in the array: what it computes is `256 * n` for the address `n`
(`ipv6Number_eq`), since the last byte is followed by a multiplication as well. The text is copied
without the NUL at its end, and that of zero is empty. So the decimal numeral of an address is in
the buffer afterwards only if it is the zero address, and has been there before (`converts_iff`).
-/

namespace Nufw

/-- `BASE`. -/
def numberBase : ℕ := 1000000
/-- `BASE_LOG10`. -/
def baseLog10 : ℕ := 6
/-- `DIGIT_COUNT`. -/
def digitCount : ℕ := 7
/-- `IPADDR_STRLEN`. -/
def ipaddrStrlen : ℕ := 42

/-! ### The arithmetic -/

/-- The loop of `number_multiply`, with its carry, an `unsigned long`. -/
def multiplyFrom (factor : ℕ) : ℕ → List ℕ → List ℕ
  | _, [] => []
  | value, digit :: number =>
    let value := (value + digit * factor) % 2 ^ 64
    value % numberBase :: multiplyFrom factor (value / numberBase) number

/-- `number_multiply`. -/
def numberMultiply (number : List ℕ) (factor : ℕ) : List ℕ := multiplyFrom factor 0 number

/-- `number_add`. A carry that leaves the array changes the digit behind it before the index is
tested; this is `none`. -/
def numberAdd : List ℕ → ℕ → Option (List ℕ)
  | [], value => if value = 0 then some [] else none
  | digit :: number, value =>
    if value = 0 then some (digit :: number)
    else
      let value := (value + digit) % 2 ^ 64
      (numberAdd number (value / numberBase)).map (value % numberBase :: ·)

/-- The loop of `ipv6_to_base10` over the bytes of the address. -/
def ipv6Number : List UInt8 → List ℕ → Option (List ℕ)
  | [], number => some number
  | byte :: bytes, number =>
    (numberAdd number byte.toNat).bind fun number ↦ ipv6Number bytes (numberMultiply number 256)

/-! ### The text -/

/-- The loop of `number_to_decimal`, from the digit that is printed first: `sprintf` at a multiple
of `BASE_LOG10`. -/
def printDigits : ℕ → List ℕ → Bytes → Bytes
  | _, [], ascii => ascii
  | index, digit :: number, ascii =>
    printDigits (index + 1) number (ascii.take (index * baseLog10) ++ padded baseLog10 digit)

/-- `number_to_decimal`: the text is copied without its end. -/
def numberToDecimal (number : List ℕ) (ipaddr : Memory) : NuError × Memory :=
  let text := (printDigits 0 number.reverse []).dropWhile (· = 48)
  if text.length < ipaddrStrlen then (.ok, ipaddr.write 0 text) else (.error, ipaddr)

/-- `ipv6_to_base10`: what it returns and what is in the buffer then. -/
def ipv6ToBase10Buffer (addr : In6Addr) (ipaddr : Memory) : Option (NuError × Memory) :=
  (ipv6Number addr.toList (List.replicate digitCount 0)).map (numberToDecimal · ipaddr)

/-! ### Values -/

/-- The digits are digits. -/
def ProperNumber (number : List ℕ) : Prop := ∀ digit ∈ number, digit < numberBase

/-- A number in base 10^6. -/
def numberValue (number : List ℕ) : ℕ := Nat.ofDigits numberBase number

theorem numberValue_cons (digit : ℕ) (number : List ℕ) :
    numberValue (digit :: number) = digit + numberBase * numberValue number := Nat.ofDigits_cons

/-- What is left of a sum for the digits behind the first one. -/
theorem carry_lt {v n k : ℕ} (h : v + numberBase * n < numberBase ^ (k + 1)) :
    v / numberBase + n < numberBase ^ k := by
  have hdiv : (v + numberBase * n) / numberBase = v / numberBase + n :=
    Nat.add_mul_div_left v n (by decide)
  rw [← hdiv]
  refine Nat.div_lt_of_lt_mul ?_
  rwa [Nat.pow_succ, Nat.mul_comm (numberBase ^ k)] at h

/-- **Multiplying is right**, if the product has room. -/
theorem multiplyFrom_eq {factor value : ℕ} {number : List ℕ} (hfactor : factor ≤ 256)
    (hvalue : value ≤ 256) (hproper : ProperNumber number)
    (hroom : value + factor * numberValue number < numberBase ^ number.length) :
    numberValue (multiplyFrom factor value number) = value + factor * numberValue number ∧
      ProperNumber (multiplyFrom factor value number) ∧
      (multiplyFrom factor value number).length = number.length := by
  induction number generalizing value with
  | nil =>
    have hzero : value = 0 := by
      rw [List.length_nil, Nat.pow_zero] at hroom
      omega
    rw [hzero, multiplyFrom, numberValue, Nat.ofDigits_nil]
    exact ⟨rfl, hproper, rfl⟩
  | cons digit number ih =>
    obtain ⟨hdigit, hproper⟩ := List.forall_mem_cons.1 hproper
    have hbound : value + digit * factor ≤ 256 + 999999 * 256 :=
      Nat.add_le_add hvalue (Nat.mul_le_mul (Nat.le_of_lt_succ hdigit) hfactor)
    have hwrap : (value + digit * factor) % 2 ^ 64 = value + digit * factor :=
      Nat.mod_eq_of_lt (by omega)
    have hsum : value + factor * numberValue (digit :: number) =
        (value + digit * factor) + numberBase * (factor * numberValue number) := by
      rw [numberValue_cons]
      ring
    rw [hsum, List.length_cons] at hroom
    obtain ⟨hvalue', hproper', hlength⟩ :=
      ih (by rw [numberBase]; omega) hproper (carry_lt hroom)
    rw [multiplyFrom, hwrap]
    refine ⟨?_, List.forall_mem_cons.2 ⟨Nat.mod_lt _ (by decide), hproper'⟩, ?_⟩
    · rw [numberValue_cons, hvalue', hsum, Nat.mul_add, ← Nat.add_assoc,
        Nat.mod_add_div]
    · rw [List.length_cons, List.length_cons, hlength]

/-- **Adding is right**, if the sum has room. -/
theorem numberAdd_eq {value : ℕ} {number : List ℕ} (hvalue : value < numberBase)
    (hproper : ProperNumber number)
    (hroom : value + numberValue number < numberBase ^ number.length) :
    ∃ sum, numberAdd number value = some sum ∧ numberValue sum = value + numberValue number ∧
      ProperNumber sum ∧ sum.length = number.length := by
  induction number generalizing value with
  | nil =>
    have hzero : value = 0 := by
      rw [List.length_nil, Nat.pow_zero] at hroom
      omega
    refine ⟨[], by rw [numberAdd, if_pos hzero], ?_, hproper, rfl⟩
    rw [hzero, Nat.zero_add]
  | cons digit number ih =>
    rw [numberAdd]
    by_cases hzero : value = 0
    · exact ⟨_, if_pos hzero, by rw [hzero, Nat.zero_add], hproper, rfl⟩
    · obtain ⟨hdigit, hproper⟩ := List.forall_mem_cons.1 hproper
      rw [numberBase] at hdigit hvalue
      have hwrap : (value + digit) % 2 ^ 64 = value + digit := Nat.mod_eq_of_lt (by omega)
      have hsum : value + numberValue (digit :: number) =
          (value + digit) + numberBase * numberValue number := by
        rw [numberValue_cons, Nat.add_assoc]
      rw [hsum, List.length_cons] at hroom
      obtain ⟨sum, hadd, hsumValue, hsumProper, hlength⟩ :=
        ih (by rw [numberBase]; omega) hproper (carry_lt hroom)
      rw [if_neg hzero]
      dsimp only
      rw [hwrap, hadd]
      refine ⟨_, rfl, ?_, List.forall_mem_cons.2 ⟨Nat.mod_lt _ (by decide), hsumProper⟩, ?_⟩
      · rw [numberValue_cons, hsumValue, hsum, Nat.mul_add, ← Nat.add_assoc, Nat.mod_add_div]
      · rw [List.length_cons, List.length_cons, hlength]

/-! ### The loop -/

/-- The address as a number, its first byte being the most significant one. -/
def addrValue (addr : In6Addr) : ℕ := addr.toList.foldl (fun n byte ↦ n * 256 + byte.toNat) 0

theorem foldl_lt {bytes : List UInt8} {a k : ℕ} (h : a < 256 ^ k) :
    bytes.foldl (fun n byte ↦ n * 256 + byte.toNat) a < 256 ^ (k + bytes.length) := by
  induction bytes generalizing a k with
  | nil => exact h
  | cons byte bytes ih =>
    have hbyte : byte.toNat < 256 := byte.toNat_lt
    have hnext : a * 256 + byte.toNat < 256 ^ (k + 1) := by
      rw [Nat.pow_succ]
      omega
    rw [List.foldl_cons, List.length_cons, ← Nat.add_assoc, Nat.add_right_comm]
    exact ih hnext

theorem addrValue_lt (addr : In6Addr) : addrValue addr < 256 ^ 16 := by
  have hlt := @foldl_lt addr.toList 0 0 (by decide)
  rwa [Vector.length_toList, Nat.zero_add] at hlt

/-- The loop keeps 256 times the number of the bytes that it has read. -/
theorem ipv6Number_spec {bytes : List UInt8} {number : List ℕ} {a k : ℕ}
    (hproper : ProperNumber number) (hlength : number.length = digitCount)
    (hvalue : numberValue number = 256 * a) (ha : a < 256 ^ k) (hk : k + bytes.length ≤ 16) :
    ∃ result, ipv6Number bytes number = some result ∧ ProperNumber result ∧
      numberValue result = 256 * bytes.foldl (fun n byte ↦ n * 256 + byte.toNat) a := by
  induction bytes generalizing number a k with
  | nil => exact ⟨number, rfl, hproper, hvalue⟩
  | cons byte bytes ih =>
    have hbyte : byte.toNat < 256 := byte.toNat_lt
    rw [List.length_cons] at hk
    have hnext : a * 256 + byte.toNat < 256 ^ (k + 1) := by
      rw [Nat.pow_succ]
      omega
    have hsmall : a * 256 + byte.toNat < 256 ^ 16 :=
      lt_of_lt_of_le hnext (Nat.pow_le_pow_right (by decide) (by omega))
    have hroom : (256 : ℕ) ^ 17 < numberBase ^ digitCount := by decide +kernel
    have hmul : 256 * (a * 256 + byte.toNat) < 256 ^ 17 := by
      rw [Nat.pow_succ, Nat.mul_comm]
      exact Nat.mul_lt_mul_of_pos_right hsmall (by decide)
    obtain ⟨sum, hadd, hsumValue, hsumProper, hsumLength⟩ :=
      @numberAdd_eq byte.toNat number (lt_of_lt_of_le hbyte (by decide)) hproper (by
        rw [hlength, hvalue]
        omega)
    have hsum : numberValue sum = a * 256 + byte.toNat := by omega
    obtain ⟨hprodValue, hprodProper, hprodLength⟩ :=
      @multiplyFrom_eq 256 0 sum le_rfl (by decide) hsumProper (by
        rw [hsumLength, hlength, hsum]
        omega)
    rw [Nat.zero_add, hsum] at hprodValue
    rw [ipv6Number, hadd, Option.bind_some, List.foldl_cons]
    exact ih hprodProper (hprodLength.trans (hsumLength.trans hlength)) hprodValue hnext (by omega)

/-- **What the loop computes**: the address, multiplied once too often. -/
theorem ipv6Number_eq (addr : In6Addr) :
    ∃ result, ipv6Number addr.toList (List.replicate digitCount 0) = some result ∧
      ProperNumber result ∧ numberValue result = 256 * addrValue addr := by
  have hzero : ProperNumber (List.replicate digitCount 0) := fun digit hdigit ↦ by
    rw [List.eq_of_mem_replicate hdigit]
    decide
  exact ipv6Number_spec (a := 0) (k := 0) hzero (List.length_replicate) rfl (by decide)
    (by rw [Vector.length_toList])

/-! ### The text -/

/-- The digits are printed one behind the other. -/
theorem printDigits_eq {number : List ℕ} (hproper : ProperNumber number) {index : ℕ}
    {ascii : Bytes} (h : ascii.length = index * baseLog10) :
    printDigits index number ascii = ascii ++ number.flatMap (padded baseLog10) := by
  induction number generalizing index ascii with
  | nil => rw [printDigits, List.flatMap_nil, List.append_nil]
  | cons digit number ih =>
    obtain ⟨hdigit, hproper⟩ := List.forall_mem_cons.1 hproper
    have hlength : (padded baseLog10 digit).length = baseLog10 :=
      length_padded (by decide) hdigit
    have hnext : (ascii ++ padded baseLog10 digit).length = (index + 1) * baseLog10 := by
      rw [List.length_append, h, hlength, Nat.succ_mul]
    rw [printDigits, ← h, List.take_length, ih hproper hnext, List.flatMap_cons,
      List.append_assoc]

/-- **Without its leading zeros the text is the numeral of the number**, and that of zero is
empty. -/
theorem dropWhile_digits {number : List ℕ} (hproper : ProperNumber number) :
    (number.reverse.flatMap (padded baseLog10)).dropWhile (· = 48) =
      stripped (numberValue number) := by
  induction number with
  | nil => rfl
  | cons digit number ih =>
    obtain ⟨hdigit, hproper⟩ := List.forall_mem_cons.1 hproper
    rw [List.reverse_cons, List.flatMap_append, List.dropWhile_append, ih hproper,
      List.flatMap_singleton, numberValue_cons, dropWhile_padded]
    by_cases hzero : numberValue number = 0
    · rw [hzero]
      rfl
    · have hpos := Nat.pos_of_ne_zero hzero
      have hsum : digit + numberBase * numberValue number =
          numberValue number * 10 ^ baseLog10 + digit := by
        rw [Nat.add_comm, Nat.mul_comm]
        rfl
      have hne : digit + numberBase * numberValue number ≠ 0 := by
        rw [numberBase]
        omega
      rw [stripped, if_neg hzero, if_neg (by simpa using decimal_ne_nil _),
        decimal_append_padded (by decide) hpos hdigit, stripped, if_neg hne, hsum]

/-- The text of an address has room in the buffer. -/
theorem length_stripped_lt (addr : In6Addr) :
    (stripped (256 * addrValue addr)).length < ipaddrStrlen := by
  rw [stripped]
  split
  · decide
  · have hlt := addrValue_lt addr
    have hroom : (256 : ℕ) ^ 17 ≤ 10 ^ 41 := by decide +kernel
    have hle := length_decimal_le (n := 256 * addrValue addr) (k := 41) (by decide) (by
      refine lt_of_lt_of_le ?_ hroom
      rw [Nat.pow_succ, Nat.mul_comm]
      exact Nat.mul_lt_mul_of_pos_right hlt (by decide))
    exact Nat.lt_succ_of_le hle

/-- **What `ipv6_to_base10` does.** -/
theorem ipv6ToBase10Buffer_eq (addr : In6Addr) (ipaddr : Memory) :
    ipv6ToBase10Buffer addr ipaddr =
      some (.ok, ipaddr.write 0 (stripped (256 * addrValue addr))) := by
  obtain ⟨number, hloop, hproper, hvalue⟩ := ipv6Number_eq addr
  have hreverse : ProperNumber number.reverse := fun digit hdigit ↦
    hproper digit (List.mem_reverse.1 hdigit)
  have hprint : printDigits 0 number.reverse [] =
      number.reverse.flatMap (padded baseLog10) := printDigits_eq hreverse rfl
  rw [ipv6ToBase10Buffer, hloop, Option.map_some, numberToDecimal, hprint,
    dropWhile_digits hproper, hvalue, if_pos (length_stripped_lt addr)]

/-- The filter is made of what this leaves in the buffers. -/
theorem ipv6ToBase10_eq (addr : In6Addr) (ipaddr : Memory) :
    ipv6ToBase10 ipaddr addr =
      (ipv6ToBase10Buffer addr ipaddr).map fun result ↦ stringAt result.2 := by
  have hfold : ∀ (bytes : List UInt8) (a : ℕ),
      bytes.foldl (fun n byte ↦ 256 * (n + byte.toNat)) (256 * a) =
        256 * bytes.foldl (fun n byte ↦ n * 256 + byte.toNat) a := by
    intro bytes
    induction bytes with
    | nil => exact fun _ ↦ rfl
    | cons byte bytes ih =>
      intro a
      rw [List.foldl_cons, List.foldl_cons, ← ih, Nat.mul_comm 256 a]
  have hnumber : addr.toList.foldl (fun n byte ↦ 256 * (n + byte.toNat)) 0 =
      256 * addrValue addr := hfold addr.toList 0
  rw [ipv6ToBase10Buffer_eq, ipv6ToBase10, hnumber, ← stripped, Option.map_some]
  exact if_pos (length_stripped_lt addr)

/-! ### What should be in the buffer -/

/-- **The conversion**: the buffer has the numeral of the address, with a NUL at its end, and
nothing outside of the buffer is changed. -/
def Converts (addr : In6Addr) (ipaddr : Memory) : Prop :=
  ∃ ipaddr', ipv6ToBase10Buffer addr ipaddr = some (.ok, ipaddr') ∧
    (∀ i b, (decimal (addrValue addr) ++ [0])[i]? = some b → ipaddr' i = b) ∧
    ∀ i, ipaddrStrlen ≤ i → ipaddr' i = ipaddr i

theorem write_zero_of_getElem? {ipaddr : Memory} {text : Bytes} {i : ℕ} {b : UInt8}
    (h : text[i]? = some b) : ipaddr.write 0 text i = b := by
  rw [Memory.write, if_pos (Nat.zero_le i), Nat.sub_zero, List.getD_eq_getElem?_getD, h]
  rfl

theorem write_zero_of_le {ipaddr : Memory} {text : Bytes} {i : ℕ} (h : text.length ≤ i) :
    ipaddr.write 0 text i = ipaddr i := by
  rw [Memory.write, if_pos (Nat.zero_le i), Nat.sub_zero, List.getD_eq_getElem?_getD,
    List.getElem?_eq_none h]
  rfl

/-- **Nothing is written outside of the array and the buffer.** -/
theorem ipv6ToBase10Buffer_within (addr : In6Addr) (ipaddr : Memory) :
    ∃ ipaddr', ipv6ToBase10Buffer addr ipaddr = some (.ok, ipaddr') ∧
      ∀ i, ipaddrStrlen ≤ i → ipaddr' i = ipaddr i :=
  ⟨_, ipv6ToBase10Buffer_eq addr ipaddr, fun _ hi ↦
    write_zero_of_le ((length_stripped_lt addr).le.trans hi)⟩

/-- Another numeral of a larger number is not continued by this one and a NUL. -/
theorem not_continued {n m : ℕ} (h : n < m) {mem : Memory}
    (hn : ∀ i b, (decimal n ++ [0])[i]? = some b → mem i = b)
    (hm : ∀ i b, (decimal m)[i]? = some b → mem i = b) : False := by
  have hsame : ∀ i, i < (decimal n).length → i < (decimal m).length →
      (decimal n)[i]? = (decimal m)[i]? := by
    intro i hi hi'
    have hleft := hn i _ ((List.getElem?_append_left hi).trans (List.getElem?_eq_getElem hi))
    have hright := hm i _ (List.getElem?_eq_getElem hi')
    rw [List.getElem?_eq_getElem hi, List.getElem?_eq_getElem hi', ← hleft, hright]
  by_cases hlength : (decimal n).length < (decimal m).length
  · -- the NUL is where the longer numeral has a digit
    have hnul := hn (decimal n).length 0 (by simp)
    have hdigit := hm (decimal n).length _ (List.getElem?_eq_getElem hlength)
    exact ne_zero_of_mem_decimal (List.getElem_mem hlength) (hdigit.symm.trans hnul)
  · have hprefix : decimal m <+: decimal n := by
      refine List.prefix_iff_getElem?.2 fun i hi ↦ ?_
      rw [hsame i (by omega) hi, List.getElem?_eq_getElem hi]
    obtain ⟨rest, hrest⟩ := hprefix
    have hle := ofDigits_le_append (decimal m) rest
    rw [hrest, ofDigits_decimal, ofDigits_decimal] at hle
    omega

/-- **The numeral of an address is in the buffer exactly if the address is zero and its numeral has
been there before.** -/
theorem converts_iff (addr : In6Addr) (ipaddr : Memory) :
    Converts addr ipaddr ↔ addrValue addr = 0 ∧ ipaddr 0 = 48 ∧ ipaddr 1 = 0 := by
  constructor
  · rintro ⟨ipaddr', hrun, htext, -⟩
    rw [ipv6ToBase10Buffer_eq] at hrun
    obtain rfl : ipaddr.write 0 (stripped (256 * addrValue addr)) = ipaddr' :=
      congrArg Prod.snd (Option.some.inj hrun)
    by_cases hzero : addrValue addr = 0
    · have hempty : stripped (256 * addrValue addr) = [] := by
        rw [hzero]
        rfl
      rw [hempty, hzero] at htext
      exact ⟨hzero, htext 0 48 rfl, htext 1 0 rfl⟩
    · have hnumeral : stripped (256 * addrValue addr) = decimal (256 * addrValue addr) :=
        if_neg (by omega)
      rw [hnumeral] at htext
      exact (not_continued (n := addrValue addr) (m := 256 * addrValue addr) (by omega) htext
        fun i b hb ↦ write_zero_of_getElem? hb).elim
  · rintro ⟨hzero, hfirst, hsecond⟩
    have hempty : stripped (256 * addrValue addr) = [] := by
      rw [hzero]
      rfl
    refine ⟨_, ipv6ToBase10Buffer_eq addr ipaddr, fun i b hb ↦ ?_, fun i hi ↦ ?_⟩
    · rw [hempty, write_zero_of_le (Nat.zero_le i)]
      rw [hzero] at hb
      obtain _ | _ | i := i
      · exact hfirst.trans (Option.some.inj hb)
      · exact hsecond.trans (Option.some.inj hb)
      · cases hb
    · rw [hempty]
      exact write_zero_of_le (Nat.zero_le i)

/-- The loopback address. -/
def loopback6 : In6Addr := Vector.ofFn fun i ↦ if (i : ℕ) = 15 then 1 else 0

/-- The address `::1` becomes the number 256. -/
theorem loopback6_not_converted :
    addrValue loopback6 = 1 ∧
      ipv6ToBase10Buffer loopback6 (fun _ ↦ 0) =
        some (.ok, Memory.write (fun _ ↦ 0) 0 (ascii "256")) ∧
      ¬Converts loopback6 fun _ ↦ 0 := by
  have htext : stripped (256 * addrValue loopback6) = ascii "256" := by decide +kernel
  have hrun : ipv6ToBase10Buffer loopback6 (fun _ ↦ 0) =
      some (.ok, Memory.write (fun _ ↦ 0) 0 (ascii "256")) := by
    rw [ipv6ToBase10Buffer_eq, htext]
  refine ⟨by decide +kernel, hrun, ?_⟩
  rintro ⟨ipaddr', hrun', hnumeral, -⟩
  rw [hrun, Option.some.injEq, Prod.mk.injEq] at hrun'
  have hone : (decimal (addrValue loopback6) ++ [0])[0]? = some 49 := by decide +kernel
  have hfirst := hnumeral 0 49 hone
  rw [← hrun'.2] at hfirst
  exact absurd hfirst (by decide +kernel)

end Nufw
