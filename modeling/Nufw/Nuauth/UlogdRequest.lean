import Nufw.Lib.Writes
import Nufw.Nuauth.Connections

/-!
# Requests to ulogd2

`log_ulogd2_request.c` writes a packet and what is known of its connection into a buffer, for
ulogd2: a header, the payload, and options with a key, a length and a value. The payload and the
values are padded to eight bytes, and a NUL follows each value.

`INC_RET` looks for the end of the buffer, but after each write and not before it. So nothing is
written beyond the buffer exactly if its end does not fall inside one of the fields
(`formats_iff`); and what is returned can be read back.
-/

namespace Nufw

/-- A value that is added to a request. Its length is an `unsigned int`. -/
structure UlogdOption where
  opt : UInt32
  value : Bytes
  length_lt : value.length < 2 ^ 32

/-- `struct ulogd2_request`: the list of options from its head on. -/
structure UlogdRequest where
  payload : Bytes
  options : List UlogdOption

/-- `ulogd2_request_new` and `ulogd2_request_set_payload`. -/
def UlogdRequest.new (payload : Bytes) : UlogdRequest := ⟨payload, []⟩

/-- `ulogd2_request_add_option`: `llist_add` puts it at the head. -/
def UlogdRequest.addOption (req : UlogdRequest) (option : UlogdOption) : UlogdRequest :=
  { req with options := option :: req.options }

/-- `ULOGD_SOCKET_MARK`. -/
def ulogdSocketMark : UInt32 := 0x41c90fd4

/-- `sizeof (struct ulogd_unixsock_packet_t)`, which is packed. -/
def ulogdHeaderSize : ℕ := 12

/-- `USOCK_ALIGN`, of an `unsigned int`. -/
def usockAlign (len : UInt32) : UInt32 := (len + 7) &&& ~~~7

/-- `padded_length` is an `int`. -/
def paddedLength (len : UInt32) : Int := (usockAlign len).toBitVec.toInt

/-- `INC_RET`: the next value of `ret`, which is a `size_t`, or none for `-1`. -/
def incRet (bufsz ret : ℕ) (value : Int) : Option ℕ :=
  let ret := ((ret + value) % 2 ^ 64).toNat
  if bufsz ≤ ret then none else some ret

/-- A turn of the loop over the options: what is written, and the next value of `ret`. -/
def formatOption (bufsz : ℕ) (option : UlogdOption) (ret : ℕ) : MemWrites × Option ℕ :=
  let length := UInt32.ofNat option.value.length
  let key := [(ret, bigEndian32 option.opt)]
  match incRet bufsz ret 4 with
  | none => (key, none)
  | some ret =>
    let key := key ++ [(ret, bigEndian32 (length + 1))]
    match incRet bufsz ret 4 with
    | none => (key, none)
    | some ret =>
      (key ++ [(ret, option.value), (ret + option.value.length, [0])],
        incRet bufsz ret (paddedLength (length + 1)))

/-- The loop over the options. -/
def formatOptions (bufsz : ℕ) : List UlogdOption → ℕ → MemWrites × Option ℕ
  | [], ret => ([], some ret)
  | option :: options, ret =>
    match formatOption bufsz option ret with
    | (writes, none) => (writes, none)
    | (writes, some ret) =>
      let r := formatOptions bufsz options ret
      (writes ++ r.1, r.2)

/-- `pkt`, before the total size is known. -/
def ulogdHeader (payload : Bytes) : Bytes :=
  bigEndian32 ulogdSocketMark ++ [0, 0] ++ [0, 0, 0, 0] ++
    bigEndian16 (UInt16.ofNat payload.length)

/-- `ulogd2_request_format`: what is written, and what is returned, none for `-1`. -/
def ulogd2RequestFormat (req : UlogdRequest) (bufsz : ℕ) : MemWrites × Option ℕ :=
  if bufsz < ulogdHeaderSize then ([], none)
  else
    let writes := [(0, ulogdHeader req.payload)]
    match incRet bufsz 0 ulogdHeaderSize with
    | none => (writes, none)
    | some ret =>
      let writes := writes ++ [(ret, req.payload)]
      match incRet bufsz ret (paddedLength (UInt32.ofNat req.payload.length)) with
      | none => (writes, none)
      | some ret =>
        match formatOptions bufsz req.options ret with
        | (optionWrites, none) => (writes ++ optionWrites, none)
        | (optionWrites, some ret) =>
          (writes ++ optionWrites ++ [(4, bigEndian16 (UInt16.ofNat (ret - 4)))], some ret)

/-! ### What is read back -/

/-- The next multiple of eight. -/
def align8 (n : ℕ) : ℕ := (n + 7) / 8 * 8

/-- The records up to `stop`: a key, a length and a value, padded to eight bytes. -/
def readRecords (m : Memory) (stop : ℕ) : ℕ → ℕ → Option (List (UInt32 × Bytes))
  | 0, pos => if pos = stop then some [] else none
  | fuel + 1, pos =>
    if pos = stop then some []
    else
      let length := (m.be32 (pos + 4)).toNat
      let next := pos + 8 + align8 length
      if stop < next then none
      else (readRecords m stop fuel next).map ((m.be32 pos, (m.bytes (pos + 8) length).toList) :: ·)

/-- A message: the payload and the records. -/
def readUlogdMessage (m : Memory) : Option (Bytes × List (UInt32 × Bytes)) :=
  let stop := (m.be16 4).toNat + 4
  let payloadLength := (m.be16 10).toNat
  let start := ulogdHeaderSize + align8 payloadLength
  if m.be32 0 ≠ ulogdSocketMark ∨ stop < start then none
  else (readRecords m stop stop start).map ((m.bytes ulogdHeaderSize payloadLength).toList, ·)

/-- An option as it is read: its value is followed by a NUL. -/
def UlogdOption.record (option : UlogdOption) : UInt32 × Bytes := (option.opt, option.value ++ [0])

/-- Where the options end that start at `pos`. -/
def optionsEnd : List UlogdOption → ℕ → ℕ
  | [], pos => pos
  | option :: options, pos => optionsEnd options (pos + 8 + align8 (option.value.length + 1))

/-- Where a request ends. -/
def UlogdRequest.ending (req : UlogdRequest) : ℕ :=
  optionsEnd req.options (ulogdHeaderSize + align8 req.payload.length)

/-- **A request is formatted properly**: nothing is written beyond the buffer, and what is returned
is the size of a message that can be read back, with the options in the reverse order. -/
def FormatsProperly (payload : Bytes) (added : List UlogdOption) (bufsz : ℕ) : Prop :=
  let req := added.foldl UlogdRequest.addOption (UlogdRequest.new payload)
  let r := ulogd2RequestFormat req bufsz
  WritesBelow bufsz r.1 ∧ ∀ n, r.2 = some n → n = req.ending ∧ ∀ buf : Memory,
    ((buf.writeAll r.1).be16 4).toNat = n - 4 ∧
      readUlogdMessage (buf.writeAll r.1) =
        some (payload, added.reverse.map UlogdOption.record)

/-! ### Fields -/

/-- The fields of the options that start at `pos`: where they start, and their size. -/
def optionFields : List UlogdOption → ℕ → List (ℕ × ℕ)
  | [], _ => []
  | option :: options, pos =>
    (pos, 4) :: (pos + 4, 4) :: (pos + 8, option.value.length + 1) ::
      optionFields options (pos + 8 + align8 (option.value.length + 1))

/-- The fields behind the header. -/
def UlogdRequest.fields (req : UlogdRequest) : List (ℕ × ℕ) :=
  (ulogdHeaderSize, req.payload.length) ::
    optionFields req.options (ulogdHeaderSize + align8 req.payload.length)

/-- The end of the buffer does not fall inside a field. -/
def Fits (bufsz : ℕ) (fields : List (ℕ × ℕ)) : Prop :=
  ∀ f ∈ fields, f.1 < bufsz → f.1 + f.2 ≤ bufsz

theorem le_of_mem_optionFields {options : List UlogdOption} {pos : ℕ} {f : ℕ × ℕ}
    (h : f ∈ optionFields options pos) : pos ≤ f.1 := by
  induction options generalizing pos with
  | nil => cases h
  | cons option options ih =>
    simp only [optionFields, List.mem_cons] at h
    obtain rfl | rfl | rfl | h := h
    · exact Nat.le_refl _
    · exact Nat.le_add_right _ _
    · exact Nat.le_add_right _ _
    · have := ih h
      omega

/-- Behind the end of the buffer nothing is written. -/
theorem fits_optionFields_of_le {bufsz pos : ℕ} (h : bufsz ≤ pos) (options : List UlogdOption) :
    Fits bufsz (optionFields options pos) :=
  fun _ hf hlt ↦ absurd (h.trans (le_of_mem_optionFields hf)) (not_le.2 hlt)

theorem fits_cons {bufsz : ℕ} {f : ℕ × ℕ} {fields : List (ℕ × ℕ)} :
    Fits bufsz (f :: fields) ↔ (f.1 < bufsz → f.1 + f.2 ≤ bufsz) ∧ Fits bufsz fields :=
  List.forall_mem_cons

/-! ### Arithmetic -/

/-- Taking the three low bits away. -/
theorem toNat_and_not_seven (x : UInt32) : (x &&& ~~~7).toNat = x.toNat / 8 * 8 := by
  have hbits : (x &&& ~~~7).toBitVec = (x.toBitVec >>> 3) <<< 3 := by
    refine BitVec.eq_of_getLsbD_eq fun i hi ↦ ?_
    have hseven : (7 : UInt32).toBitVec.getLsbD i = decide (i < 3) := by
      show (7#32).getLsbD i = _
      rw [BitVec.getLsbD_ofNat, decide_eq_true hi, Bool.true_and]
      exact Nat.testBit_two_pow_sub_one 3 i
    rw [UInt32.toBitVec_and, UInt32.toBitVec_not, BitVec.getLsbD_and, BitVec.getLsbD_not, hseven,
      BitVec.getLsbD_shiftLeft, BitVec.getLsbD_ushiftRight, decide_eq_true hi, Bool.true_and]
    by_cases h : i < 3
    · simp [h]
    · simp [h, show 3 + (i - 3) = i by omega]
  have hlt := x.toNat_lt
  rw [← UInt32.toNat_toBitVec, hbits, BitVec.toNat_shiftLeft, BitVec.toNat_ushiftRight,
    Nat.shiftRight_eq_div_pow, Nat.shiftLeft_eq, UInt32.toNat_toBitVec]
  omega

theorem paddedLength_ofNat {n : ℕ} (hn : n < 65536) : paddedLength (UInt32.ofNat n) = align8 n := by
  have hnat : (usockAlign (UInt32.ofNat n)).toNat = align8 n := by
    have hseven : (7 : UInt32).toNat = 7 := rfl
    rw [usockAlign, toNat_and_not_seven, UInt32.toNat_add, UInt32.toNat_ofNat', hseven, align8]
    omega
  have hle : align8 n ≤ n + 7 := Nat.div_mul_le_self (n + 7) 8
  rw [paddedLength, BitVec.toInt_eq_toNat_of_lt, UInt32.toNat_toBitVec, hnat]
  rw [UInt32.toNat_toBitVec, hnat]
  omega

theorem le_align8 (n : ℕ) : n ≤ align8 n := by
  rw [align8]
  omega

theorem align8_le (n : ℕ) : align8 n ≤ n + 7 := Nat.div_mul_le_self (n + 7) 8

theorem incRet_eq {bufsz ret value : ℕ} (h : ret + value < 2 ^ 64) :
    incRet bufsz ret value = if bufsz ≤ ret + value then none else some (ret + value) := by
  have hnat : (((ret : Int) + (value : Int)) % 2 ^ 64).toNat = ret + value := by omega
  rw [incRet, hnat]

/-! ### The loop -/

section

variable {bufsz ret : ℕ} {option : UlogdOption} {options : List UlogdOption}

/-- The key, the length and the value. -/
def optionWrites (option : UlogdOption) (ret : ℕ) : MemWrites :=
  [(ret, bigEndian32 option.opt),
    (ret + 4, bigEndian32 (UInt32.ofNat (option.value.length + 1))),
    (ret + 8, option.value), (ret + 8 + option.value.length, [0])]

/-- **What a turn of the loop does**, up to the value. -/
theorem formatOption_eq (hret : ret < bufsz) (hbufsz : bufsz ≤ 65535) :
    formatOption bufsz option ret =
      if bufsz ≤ ret + 4 then ((optionWrites option ret).take 1, none)
      else if bufsz ≤ ret + 8 then ((optionWrites option ret).take 2, none)
      else (optionWrites option ret,
        incRet bufsz (ret + 8) (paddedLength (UInt32.ofNat (option.value.length + 1)))) := by
  have hlength : UInt32.ofNat option.value.length + 1 = UInt32.ofNat (option.value.length + 1) :=
    (UInt32.ofNat_add _ 1).symm
  have hfour : ∀ ret < bufsz, incRet bufsz ret 4 =
      if bufsz ≤ ret + 4 then none else some (ret + 4) := fun ret hret ↦
    @incRet_eq bufsz ret 4 (by omega)
  rw [formatOption, hlength, hfour ret hret]
  by_cases hkey : bufsz ≤ ret + 4
  · rw [if_pos hkey, if_pos hkey]
    rfl
  · rw [if_neg hkey, if_neg hkey]
    dsimp only
    rw [hfour (ret + 4) (by omega)]
    by_cases hlen : bufsz ≤ ret + 4 + 4
    · rw [if_pos hlen, if_pos hlen]
      rfl
    · rw [if_neg hlen, if_neg hlen]
      rfl

/-- The next option, behind a value that is not too long. -/
theorem incRet_padded (hret : ret < bufsz) (hbufsz : bufsz ≤ 65535)
    (hvalue : option.value.length + 1 ≤ bufsz) :
    incRet bufsz (ret + 8) (paddedLength (UInt32.ofNat (option.value.length + 1))) =
      if bufsz ≤ ret + 8 + align8 (option.value.length + 1) then none
      else some (ret + 8 + align8 (option.value.length + 1)) := by
  have hle := align8_le (option.value.length + 1)
  rw [paddedLength_ofNat (by omega), incRet_eq (by omega)]

/-- **The writes of the loop** stay in the buffer exactly if its end does not fall inside a
field. -/
theorem writesBelow_formatOptions (hret : ret < bufsz) (hbufsz : bufsz ≤ 65535) :
    WritesBelow bufsz (formatOptions bufsz options ret).1 ↔
      Fits bufsz (optionFields options ret) := by
  induction options generalizing ret with
  | nil => exact iff_of_true (writesBelow_nil bufsz) nofun
  | cons option options ih =>
    have hvoid : bufsz ≤ ret + 8 + align8 (option.value.length + 1) →
        Fits bufsz (optionFields options (ret + 8 + align8 (option.value.length + 1))) :=
      fun h ↦ fits_optionFields_of_le h options
    rw [optionFields, fits_cons, fits_cons, fits_cons, formatOptions, formatOption_eq hret hbufsz]
    dsimp only
    by_cases hkey : bufsz ≤ ret + 4
    · have hwrites : WritesBelow bufsz ((optionWrites option ret).take 1) ↔ ret + 4 ≤ bufsz :=
        (writesBelow_cons hret).trans (and_iff_left (writesBelow_nil bufsz))
      rw [if_pos hkey, hwrites]
      exact ⟨fun h ↦ ⟨fun _ ↦ h, fun hlt ↦ absurd hkey (not_le.2 hlt), fun hlt ↦ by omega,
        hvoid (by omega)⟩, fun h ↦ h.1 hret⟩
    rw [if_neg hkey]
    by_cases hlen : bufsz ≤ ret + 8
    · have hwrites : WritesBelow bufsz ((optionWrites option ret).take 2) ↔
          ret + 4 ≤ bufsz ∧ ret + 4 + 4 ≤ bufsz :=
        (writesBelow_cons hret).trans (and_congr_right fun _ ↦
          (writesBelow_cons (by omega)).trans (and_iff_left (writesBelow_nil bufsz)))
      rw [if_pos hlen, hwrites]
      exact ⟨fun h ↦ ⟨fun _ ↦ h.1, fun _ ↦ h.2, fun hlt ↦ absurd hlen (not_le.2 hlt),
        hvoid (by omega)⟩, fun h ↦ ⟨h.1 hret, h.2.1 (by omega)⟩⟩
    rw [if_neg hlen]
    have hwrites : WritesBelow bufsz (optionWrites option ret) ↔
        ret + 8 + (option.value.length + 1) ≤ bufsz := by
      refine (writesBelow_cons hret).trans ((and_congr_right fun _ ↦
        (writesBelow_cons (by omega)).trans (and_congr_right fun _ ↦
          (writesBelow_cons (by omega)).trans (and_congr_right fun _ ↦ writesBelow_byte))).trans ?_)
      rw [length_bigEndian32, length_bigEndian32]
      omega
    by_cases hvalue : ret + 8 + (option.value.length + 1) ≤ bufsz
    · rw [incRet_padded hret hbufsz (by omega)]
      by_cases hnext : bufsz ≤ ret + 8 + align8 (option.value.length + 1)
      · rw [if_pos hnext]
        exact iff_of_true (hwrites.2 hvalue)
          ⟨fun _ ↦ by omega, fun _ ↦ by omega, fun _ ↦ hvalue, hvoid hnext⟩
      · rw [if_neg hnext]
        dsimp only
        rw [writesBelow_append, hwrites, ih (not_le.1 hnext)]
        exact ⟨fun h ↦ ⟨fun _ ↦ by omega, fun _ ↦ by omega, fun _ ↦ hvalue, h.2⟩,
          fun h ↦ ⟨hvalue, h.2.2.2⟩⟩
    · refine iff_of_false (fun h ↦ hvalue (hwrites.1 ?_)) fun h ↦ hvalue (h.2.2.1 (by omega))
      cases hnext : incRet bufsz (ret + 8)
          (paddedLength (UInt32.ofNat (option.value.length + 1))) with
      | none =>
        rw [hnext] at h
        exact h
      | some next =>
        rw [hnext] at h
        exact (writesBelow_append.1 h).1

/-! ### What is in the buffer -/

/-- The options stand in memory from `pos` on. -/
def HoldsOptions (m : Memory) : List UlogdOption → ℕ → Prop
  | [], _ => True
  | option :: options, pos =>
    m.Holds pos (bigEndian32 option.opt) ∧
      m.Holds (pos + 4) (bigEndian32 (UInt32.ofNat (option.value.length + 1))) ∧
      m.Holds (pos + 8) (option.value ++ [0]) ∧
      HoldsOptions m options (pos + 8 + align8 (option.value.length + 1))

theorem le_optionsEnd (options : List UlogdOption) (pos : ℕ) :
    pos + 8 * options.length ≤ optionsEnd options pos := by
  induction options generalizing pos with
  | nil => exact Nat.le_refl _
  | cons option options ih =>
    have := ih (pos + 8 + align8 (option.value.length + 1))
    rw [optionsEnd, List.length_cons]
    omega

/-- The writes of a turn, and what they leave in memory. -/
theorem holds_optionWrites (m : Memory) (option : UlogdOption) (ret : ℕ) :
    (m.writeAll (optionWrites option ret)).Holds ret (bigEndian32 option.opt) ∧
      (m.writeAll (optionWrites option ret)).Holds (ret + 4)
        (bigEndian32 (UInt32.ofNat (option.value.length + 1))) ∧
      (m.writeAll (optionWrites option ret)).Holds (ret + 8) (option.value ++ [0]) := by
  -- each write leaves alone what was written before it
  refine ⟨Memory.holds_writeAll_cons fun w hw ↦ ?_,
    Memory.holds_writeAll_cons (m := m.write ret _) fun w hw ↦ ?_, ?_⟩
  · rw [length_bigEndian32]
    simp only [List.mem_cons, List.not_mem_nil, or_false] at hw
    rcases hw with rfl | rfl | rfl <;> dsimp only <;> omega
  · rw [length_bigEndian32]
    simp only [List.mem_cons, List.not_mem_nil, or_false] at hw
    rcases hw with rfl | rfl <;> dsimp only <;> omega
  · rw [Memory.holds_append]
    refine ⟨Memory.holds_writeAll_cons (m := (m.write ret _).write (ret + 4) _) fun w hw ↦ ?_,
      Memory.holds_write⟩
    rw [List.mem_singleton.1 hw]

/-- **What the loop leaves in memory**, when its writes stay in the buffer. -/
theorem formatOptions_spec (hret : ret < bufsz) (hbufsz : bufsz ≤ 65535)
    (hfits : Fits bufsz (optionFields options ret)) :
    (∀ w ∈ (formatOptions bufsz options ret).1, ret ≤ w.1) ∧
      ∀ n, (formatOptions bufsz options ret).2 = some n →
        n = optionsEnd options ret ∧ n < bufsz ∧
          ∀ m : Memory,
            HoldsOptions (m.writeAll (formatOptions bufsz options ret).1) options ret := by
  induction options generalizing ret with
  | nil =>
    refine ⟨nofun, fun n hn ↦ ?_⟩
    obtain rfl := Option.some.inj hn
    exact ⟨rfl, hret, fun _ ↦ trivial⟩
  | cons option options ih =>
    rw [optionFields, fits_cons, fits_cons, fits_cons] at hfits
    obtain ⟨-, -, hvalue, hrest⟩ := hfits
    have hwrites : ∀ w ∈ optionWrites option ret, ret ≤ w.1 := by
      intro w hw
      simp only [optionWrites, List.mem_cons, List.not_mem_nil, or_false] at hw
      rcases hw with rfl | rfl | rfl | rfl <;> dsimp only <;> omega
    rw [formatOptions, formatOption_eq hret hbufsz]
    by_cases hkey : bufsz ≤ ret + 4
    · rw [if_pos hkey]
      exact ⟨fun w hw ↦ hwrites w (List.mem_of_mem_take hw), nofun⟩
    rw [if_neg hkey]
    by_cases hlen : bufsz ≤ ret + 8
    · rw [if_pos hlen]
      exact ⟨fun w hw ↦ hwrites w (List.mem_of_mem_take hw), nofun⟩
    have hvalue' := hvalue (not_le.1 hlen)
    dsimp only at hvalue'
    rw [if_neg hlen, incRet_padded hret hbufsz (by omega)]
    by_cases hnext : bufsz ≤ ret + 8 + align8 (option.value.length + 1)
    · rw [if_pos hnext]
      exact ⟨hwrites, nofun⟩
    rw [if_neg hnext]
    dsimp only
    have hpad := le_align8 (option.value.length + 1)
    obtain ⟨hbehind, hspec⟩ := ih (not_le.1 hnext) hrest
    refine ⟨fun w hw ↦ ?_, fun n hn ↦ ?_⟩
    · rcases List.mem_append.1 hw with hw | hw
      · exact hwrites w hw
      · have := hbehind w hw
        omega
    · obtain ⟨hend, hlt, hholds⟩ := hspec n hn
      refine ⟨hend, hlt, fun m ↦ ?_⟩
      obtain ⟨hopt, hlength, hval⟩ := holds_optionWrites m option ret
      rw [Memory.writeAll_append]
      refine ⟨hopt.writeAll ?_ hbehind, hlength.writeAll ?_ hbehind, hval.writeAll ?_ hbehind,
        hholds _⟩
      · rw [length_bigEndian32]
        omega
      · rw [length_bigEndian32]
        omega
      · rw [List.length_append, List.length_singleton]
        omega

theorem HoldsOptions.congr {m m' : Memory} {pos : ℕ} (h : HoldsOptions m options pos)
    (hsame : ∀ i, pos ≤ i → m' i = m i) : HoldsOptions m' options pos := by
  induction options generalizing pos with
  | nil => trivial
  | cons option options ih =>
    obtain ⟨hopt, hlength, hvalue, hrest⟩ := h
    exact ⟨hopt.of_eq fun i hi _ ↦ hsame i hi, hlength.of_eq fun i hi _ ↦ hsame i (by omega),
      hvalue.of_eq fun i hi _ ↦ hsame i (by omega),
      ih hrest fun i hi ↦ hsame i (by omega)⟩

/-- **The options are read back**, up to their end. -/
theorem readRecords_eq {m : Memory} {pos fuel : ℕ} (h : HoldsOptions m options pos)
    (hend : optionsEnd options pos ≤ 65535) (hfuel : options.length ≤ fuel) :
    readRecords m (optionsEnd options pos) fuel pos = some (options.map UlogdOption.record) := by
  induction options generalizing pos fuel with
  | nil => cases fuel <;> exact if_pos rfl
  | cons option options ih =>
    obtain ⟨hopt, hlength, hvalue, hrest⟩ := h
    obtain _ | fuel := fuel
    · cases hfuel
    have hle := le_optionsEnd options (pos + 8 + align8 (option.value.length + 1))
    have hpad := le_align8 (option.value.length + 1)
    rw [optionsEnd] at hend ⊢
    have hnat : (m.be32 (pos + 4)).toNat = option.value.length + 1 := by
      rw [hlength.be32_eq, UInt32.toNat_ofNat']
      omega
    have hbytes : (m.bytes (pos + 8) (option.value.length + 1)).toList = option.value ++ [0] :=
      hvalue.toList_bytes (by rw [List.length_append, List.length_singleton])
    rw [readRecords, if_neg (by omega)]
    dsimp only
    rw [hnat, if_neg (by omega), ih hrest hend (Nat.le_of_succ_le_succ hfuel), hopt.be32_eq, hbytes]
    rfl

/-! ### The request -/

theorem foldl_addOption (payload : Bytes) (added : List UlogdOption) :
    added.foldl UlogdRequest.addOption (UlogdRequest.new payload) = ⟨payload, added.reverse⟩ := by
  have hfold : ∀ options : List UlogdOption, added.foldl UlogdRequest.addOption ⟨payload, options⟩ =
      ⟨payload, added.reverse ++ options⟩ := by
    induction added with
    | nil => exact fun _ ↦ rfl
    | cons option added ih =>
      intro options
      rw [List.foldl_cons, UlogdRequest.addOption, ih, List.reverse_cons, List.append_assoc]
      rfl
  rw [UlogdRequest.new, hfold, List.append_nil]

/-- **The header and the payload** are written first. -/
theorem ulogd2RequestFormat_eq {req : UlogdRequest} (hpayload : req.payload.length ≤ 128)
    (hbufsz : bufsz ≤ 65535) (hhead : ulogdHeaderSize < bufsz) :
    let front := [(0, ulogdHeader req.payload), (ulogdHeaderSize, req.payload)]
    let start := ulogdHeaderSize + align8 req.payload.length
    ulogd2RequestFormat req bufsz =
      if bufsz ≤ start then (front, none)
      else
        let r := formatOptions bufsz req.options start
        match r.2 with
        | none => (front ++ r.1, none)
        | some n => (front ++ r.1 ++ [(4, bigEndian16 (UInt16.ofNat (n - 4)))], some n) := by
  have htwelve : incRet bufsz 0 ulogdHeaderSize = some ulogdHeaderSize := by
    rw [incRet_eq (by omega), Nat.zero_add, if_neg (by omega)]
  have hle := align8_le req.payload.length
  have hsize : ulogdHeaderSize = 12 := rfl
  dsimp only
  rw [ulogd2RequestFormat, if_neg (by omega)]
  dsimp only
  rw [htwelve]
  dsimp only
  rw [paddedLength_ofNat (by omega), incRet_eq (by omega)]
  by_cases hstart : bufsz ≤ ulogdHeaderSize + align8 req.payload.length
  · rw [if_pos hstart, if_pos hstart]
    rfl
  · rw [if_neg hstart, if_neg hstart]
    dsimp only
    obtain ⟨writes, _ | n⟩ := formatOptions bufsz req.options
      (ulogdHeaderSize + align8 req.payload.length)
    · rfl
    · rfl

/-- **A message is read back** when its header, the payload and the options stand in memory. -/
theorem readUlogdMessage_eq {m : Memory} {payload : Bytes} {n : ℕ} (hpayload : payload.length ≤ 128)
    (hmark : m.Holds 0 (bigEndian32 ulogdSocketMark))
    (hsize : (m.be16 4).toNat + 4 = n)
    (hlength : m.Holds 10 (bigEndian16 (UInt16.ofNat payload.length)))
    (hholds : m.Holds ulogdHeaderSize payload)
    (hoptions : HoldsOptions m options (ulogdHeaderSize + align8 payload.length))
    (hend : n = optionsEnd options (ulogdHeaderSize + align8 payload.length)) (hn : n ≤ 65535) :
    readUlogdMessage m = some (payload, options.map UlogdOption.record) := by
  have hnat : (m.be16 10).toNat = payload.length := by
    rw [hlength.be16_eq, UInt16.toNat_ofNat']
    omega
  have hle := le_optionsEnd options (ulogdHeaderSize + align8 payload.length)
  have hgood : ¬(ulogdSocketMark ≠ ulogdSocketMark ∨
      optionsEnd options (ulogdHeaderSize + align8 payload.length) <
        ulogdHeaderSize + align8 payload.length) := by
    rintro (h | h)
    · exact h rfl
    · omega
  rw [readUlogdMessage, hnat, hsize, hmark.be32_eq, hend, if_neg hgood,
    readRecords_eq hoptions (by omega) (by omega), hholds.toList_bytes rfl, Option.map_some]

theorem length_ulogdHeader (payload : Bytes) : (ulogdHeader payload).length = ulogdHeaderSize := by
  rw [ulogdHeader, List.length_append, List.length_append, List.length_append, length_bigEndian32,
    length_bigEndian16]
  rfl

/-- The buffer has room for the header at most. -/
theorem ulogd2RequestFormat_of_le {req : UlogdRequest} (h : bufsz ≤ ulogdHeaderSize) :
    WritesBelow bufsz (ulogd2RequestFormat req bufsz).1 ∧
      (ulogd2RequestFormat req bufsz).2 = none := by
  have hsize : ulogdHeaderSize = 12 := rfl
  rw [ulogd2RequestFormat]
  by_cases hsmall : bufsz < ulogdHeaderSize
  · rw [if_pos hsmall]
    exact ⟨writesBelow_nil bufsz, rfl⟩
  · have htwelve : incRet bufsz 0 ulogdHeaderSize = none := by
      rw [incRet_eq (by omega), if_pos (by omega)]
    rw [if_neg hsmall]
    dsimp only
    rw [htwelve]
    refine ⟨(writesBelow_cons (by omega)).2 ⟨?_, writesBelow_nil bufsz⟩, rfl⟩
    rw [length_ulogdHeader]
    omega

/-- **Nothing is written beyond the buffer exactly if** its end does not fall inside a field. -/
theorem writesBelow_format_iff {req : UlogdRequest} (hpayload : req.payload.length ≤ 128)
    (hbufsz : bufsz ≤ 65535) :
    WritesBelow bufsz (ulogd2RequestFormat req bufsz).1 ↔ Fits bufsz req.fields := by
  have hsize : ulogdHeaderSize = 12 := rfl
  rw [UlogdRequest.fields, fits_cons]
  dsimp only
  by_cases hhead : bufsz ≤ ulogdHeaderSize
  · exact iff_of_true (ulogd2RequestFormat_of_le hhead).1
      ⟨fun hlt ↦ absurd hhead (not_le.2 hlt), fits_optionFields_of_le (by omega) _⟩
  have hfront : WritesBelow bufsz [(0, ulogdHeader req.payload), (ulogdHeaderSize, req.payload)] ↔
      ulogdHeaderSize + req.payload.length ≤ bufsz := by
    refine (writesBelow_cons (by omega)).trans ((and_congr_right fun _ ↦
      (writesBelow_cons (not_le.1 hhead)).trans (and_iff_left (writesBelow_nil bufsz))).trans ?_)
    rw [length_ulogdHeader]
    omega
  rw [ulogd2RequestFormat_eq hpayload hbufsz (not_le.1 hhead)]
  by_cases hstart : bufsz ≤ ulogdHeaderSize + align8 req.payload.length
  · rw [if_pos hstart, hfront]
    exact ⟨fun h ↦ ⟨fun _ ↦ h, fits_optionFields_of_le hstart _⟩, fun h ↦ h.1 (not_le.1 hhead)⟩
  have hoptions := @writesBelow_formatOptions bufsz _ req.options (not_le.1 hstart) hbufsz
  have hmain : WritesBelow bufsz ([(0, ulogdHeader req.payload), (ulogdHeaderSize, req.payload)] ++
      (formatOptions bufsz req.options (ulogdHeaderSize + align8 req.payload.length)).1) ↔
        (ulogdHeaderSize < bufsz → ulogdHeaderSize + req.payload.length ≤ bufsz) ∧
          Fits bufsz
            (optionFields req.options (ulogdHeaderSize + align8 req.payload.length)) := by
    rw [writesBelow_append, hfront, hoptions]
    exact and_congr_left fun _ ↦ ⟨fun h _ ↦ h, fun h ↦ h (not_le.1 hhead)⟩
  rw [if_neg hstart, ← hmain]
  obtain ⟨writes, _ | n⟩ := formatOptions bufsz req.options
    (ulogdHeaderSize + align8 req.payload.length)
  · rfl
  · refine writesBelow_append.trans (and_iff_left ?_)
    refine (writesBelow_cons (by omega)).2 ⟨?_, writesBelow_nil bufsz⟩
    rw [length_bigEndian16]
    omega

/-- **What is returned can be read back.** -/
theorem format_reads_back {req : UlogdRequest} (hpayload : req.payload.length ≤ 128)
    (hbufsz : bufsz ≤ 65535) (hfits : Fits bufsz req.fields) {n : ℕ}
    (hn : (ulogd2RequestFormat req bufsz).2 = some n) :
    n = req.ending ∧ ∀ buf : Memory,
      ((buf.writeAll (ulogd2RequestFormat req bufsz).1).be16 4).toNat = n - 4 ∧
        readUlogdMessage (buf.writeAll (ulogd2RequestFormat req bufsz).1) =
          some (req.payload, req.options.map UlogdOption.record) := by
  have hsize : ulogdHeaderSize = 12 := rfl
  have hpad := le_align8 req.payload.length
  by_cases hhead : bufsz ≤ ulogdHeaderSize
  · rw [(ulogd2RequestFormat_of_le hhead).2] at hn
    cases hn
  rw [ulogd2RequestFormat_eq hpayload hbufsz (not_le.1 hhead)] at hn ⊢
  by_cases hstart : bufsz ≤ ulogdHeaderSize + align8 req.payload.length
  · rw [if_pos hstart] at hn
    cases hn
  rw [if_neg hstart] at hn ⊢
  obtain ⟨hbehind, hspec⟩ := @formatOptions_spec bufsz _ req.options (not_le.1 hstart) hbufsz
    (fits_cons.1 hfits).2
  generalize formatOptions bufsz req.options (ulogdHeaderSize + align8 req.payload.length) = r
    at hn hbehind hspec ⊢
  obtain ⟨writes, _ | n'⟩ := r
  · cases hn
  obtain rfl := Option.some.inj hn
  obtain ⟨hend, hlt, hholds⟩ := hspec n' rfl
  refine ⟨hend, fun buf ↦ ?_⟩
  dsimp only at hbehind hholds ⊢
  -- the front is written first, the total size last
  obtain ⟨front, hfront⟩ : ∃ front : Memory, buf.writeAll [(0, ulogdHeader req.payload),
    (ulogdHeaderSize, req.payload)] = front := ⟨_, rfl⟩
  obtain ⟨last, hlast⟩ : ∃ last : Memory,
    (front.writeAll writes).write 4 (bigEndian16 (UInt16.ofNat (n' - 4))) = last := ⟨_, rfl⟩
  have hbuf : buf.writeAll ([(0, ulogdHeader req.payload), (ulogdHeaderSize, req.payload)] ++
      writes ++ [(4, bigEndian16 (UInt16.ofNat (n' - 4)))]) = last := by
    rw [Memory.writeAll_append, Memory.writeAll_append, hfront]
    exact hlast
  have hle := le_optionsEnd req.options (ulogdHeaderSize + align8 req.payload.length)
  have hn' : n' = optionsEnd req.options (ulogdHeaderSize + align8 req.payload.length) := hend
  have htotal : (last.be16 4).toNat = n' - 4 := by
    have hholds4 : last.Holds 4 (bigEndian16 (UInt16.ofNat (n' - 4))) := by
      rw [← hlast]
      exact Memory.holds_write
    rw [hholds4.be16_eq, UInt16.toNat_ofNat']
    omega
  have hout : ∀ i, i < 4 ∨ 6 ≤ i → last i = front.writeAll writes i := by
    rintro i (hi | hi)
    · rw [← hlast, Memory.write_of_lt hi]
    · rw [← hlast, Memory.write_of_ge (by rw [length_bigEndian16]; exact hi)]
  have hheader : front.Holds 0 (ulogdHeader req.payload) := by
    rw [← hfront]
    refine Memory.holds_writeAll_cons fun w hw ↦ ?_
    rw [List.mem_singleton.1 hw, length_ulogdHeader]
    omega
  have hpayload' : front.Holds ulogdHeaderSize req.payload := by
    rw [← hfront]
    exact Memory.holds_write
  have hkeep : ∀ i < ulogdHeaderSize + align8 req.payload.length, i < 4 ∨ 6 ≤ i →
      last i = front i := by
    intro i hi hi'
    rw [hout i hi', Memory.writeAll_of_before hbehind hi]
  rw [hbuf]
  rw [ulogdHeader, Memory.holds_append, Memory.holds_append, Memory.holds_append] at hheader
  obtain ⟨⟨⟨hmark, -⟩, -⟩, hlength⟩ := hheader
  refine ⟨htotal, readUlogdMessage_eq hpayload ?_ (by omega) ?_ ?_ ?_ hn' (by omega)⟩
  · refine hmark.of_eq fun i _ hi ↦ hkeep i ?_ (Or.inl ?_)
    · rw [length_bigEndian32] at hi
      omega
    · rw [length_bigEndian32] at hi
      omega
  · refine Memory.Holds.of_eq (o := 10) hlength fun i hge hi ↦ hkeep i ?_ (Or.inr (by omega))
    rw [length_bigEndian16] at hi
    omega
  · exact hpayload'.of_eq fun i hge hi ↦ hkeep i (by omega) (Or.inr (by omega))
  · exact (hholds front).congr fun i hi ↦ hout i (Or.inr (by omega))

/-- **A request is formatted properly exactly if** the end of the buffer does not fall inside a
field. -/
theorem formats_iff {payload : Bytes} (hpayload : payload.length ≤ storedPayloadSize)
    (added : List UlogdOption) (hbufsz : bufsz ≤ 65535) :
    FormatsProperly payload added bufsz ↔
      Fits bufsz (UlogdRequest.fields ⟨payload, added.reverse⟩) := by
  rw [FormatsProperly, foldl_addOption]
  constructor
  · rintro ⟨hwrites, -⟩
    exact (writesBelow_format_iff hpayload hbufsz).1 hwrites
  · intro hfits
    exact ⟨(writesBelow_format_iff hpayload hbufsz).2 hfits,
      fun n hn ↦ format_reads_back hpayload hbufsz hfits hn⟩

end

/-! ### A buffer of 4096 bytes -/

/-- A log prefix. -/
def longValue (n : ℕ) (hn : n < 2 ^ 32) : UlogdOption where
  opt := 1
  value := List.replicate n 65
  length_lt := by rwa [List.length_replicate]

/-- A prefix that ends in the buffer. -/
theorem short_formatsProperly : FormatsProperly [] [longValue 100 (by decide)] 4096 := by
  refine (formats_iff (Nat.zero_le _) _ (by decide)).2 fun f hf _ ↦ ?_
  simp only [UlogdRequest.fields, optionFields, longValue, List.reverse_singleton,
    List.length_replicate, List.mem_cons, List.not_mem_nil, or_false] at hf
  rcases hf with rfl | rfl | rfl | rfl <;> decide

/-- **A prefix that is longer than the buffer** is written whole. -/
theorem long_not_formatsProperly : ¬FormatsProperly [] [longValue 4200 (by decide)] 4096 := by
  rintro ⟨hwrites, -⟩
  rw [foldl_addOption] at hwrites
  have hfields : UlogdRequest.fields ⟨[], [longValue 4200 (by decide)].reverse⟩ =
      [(12, 0), (12, 4), (16, 4), (20, 4201)] := by
    simp only [UlogdRequest.fields, optionFields, longValue, List.reverse_singleton,
      List.length_replicate, List.length_nil]
    rfl
  have hfits := (writesBelow_format_iff (Nat.zero_le _) (by decide)).1 hwrites
  rw [hfields] at hfits
  exact absurd (hfits (20, 4201) (by simp) (by decide)) (by decide)

end Nufw
