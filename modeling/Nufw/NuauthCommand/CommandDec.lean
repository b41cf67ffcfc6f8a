import Nufw.Lib.Reader
import Nufw.Nubase.PacketParser

/-!
# The decoder of the administration client

`command_dec.py`: a `Decoder` goes over the bytes of an answer. Every value starts with its
bytecode, which `DECODER` maps to the function that reads the rest.

Text is taken as bytes, before it is decoded, addresses as the integers that are given to `IPy.IP`,
and dates as the seconds that are given to `datetime`. No caller asks for `check_end`.

A tuple or an answer contains values again. The recursion is bounded by a fuel, of which as much as
there are bytes is enough: a value that is read inside another one starts at a later byte. The
recursion limit of the interpreter is taken to be large enough.
-/

namespace Nufw

/-- What the decoder raises. -/
inductive PyError where
  /-- `IndexError`: "Buffer underflow". -/
  | indexError
  /-- `struct.error`. -/
  | structError
  /-- `ValueError`. -/
  | valueError
  /-- The fuel of the model has run out. -/
  | fuel
  deriving DecidableEq

/-- What the decoder returns. The fields of a message are in the order of its constructor. -/
inductive PyValue where
  | bool (value : Bool)
  | int (value : Int)
  | str (text : Bytes)
  | ip (value : ℕ)
  | datetime (sec : ℕ)
  | list (items : List PyValue)
  /-- `Answer`. -/
  | answer (ok : Bool) (content : PyValue)
  /-- `Uptime`. -/
  | uptime (start : ℕ) (diff : Int)
  /-- `User`. A user that does not expire has `None` there. -/
  | user (clientVersion : PyValue) (socket : Int) (name : Bytes) (addr : ℕ) (sport uid : Int)
    (groups : List PyValue) (connectTimestamp : ℕ) (uptime : Int) (expire : Option Int)
    (sysname release : Bytes) (version : PyValue) (activated : Bool)
    (rx error spoofed hello : Int)
  /-- `NuFW`. -/
  | nufw (version socket : Int) (peername connectTimestamp : ℕ) (uptime usage : Int) (alive : Bool)

mutual

/-- The bytes that a value takes. -/
def PyValue.size : PyValue → ℕ
  | .bool _ => 2
  | .int _ => 5
  | .str text => 5 + text.length
  | .ip _ => 17
  | .datetime _ => 5
  | .list items => 5 + sizes items
  | .answer _ content => 11 + content.size
  | .uptime _ _ => 11
  | .user _ _ name _ _ _ groups _ _ _ sysname release version _ _ _ _ _ =>
    10 + (5 + name.length) + 27 + (5 + sizes groups) + 15 + (5 + sysname.length) +
      (5 + release.length) + version.size + 23
  | .nufw _ _ _ _ _ _ _ => 45

/-- The bytes that values take, one after the other. -/
def PyValue.sizes : List PyValue → ℕ
  | [] => 0
  | x :: xs => x.size + sizes xs

end

theorem PyValue.sizes_eq (l : List PyValue) : sizes l = (l.map size).sum := by
  induction l with
  | nil => rfl
  | cons x l ih => rw [sizes, List.map_cons, List.sum_cons, ih]

/-- The version of the client of a user. -/
def PyValue.clientVersion : PyValue → Option PyValue
  | .user clientVersion .. => some clientVersion
  | _ => none

/-- What a decoder can return: the items of a list, and of the lists in it, are counted with 31
bits, and the client of a user has a text as its version. -/
inductive PyValue.Decoded : PyValue → Prop
  | list {items : List PyValue} (hlength : items.length < 2 ^ 31) (h : ∀ x ∈ items, x.Decoded) :
    Decoded (.list items)
  | other {x : PyValue} (h : ∀ items, x ≠ .list items)
    (hversion : ∀ version, x.clientVersion = some version → ∃ text, version = .str text) :
    Decoded x

/-- A value that is neither a list nor a user. -/
theorem PyValue.Decoded.plain {x : PyValue} (h : ∀ items, x ≠ .list items)
    (hversion : x.clientVersion = none) : x.Decoded :=
  .other h fun version hsome ↦ by
    rw [hversion] at hsome
    cases hsome

/-- The methods of `Decoder`: its `index` and `end` are those of the cursor. -/
abbrev Decoder := Reader PyError

namespace Decoder

/-- `readMany`, for a format of `n` bytes. -/
def readMany (n : ℕ) : Decoder Bytes := Reader.take .indexError .structError n

/-- `checkBytecode`. -/
def checkBytecode (expected : UInt8) : Decoder Unit := do
  let bytecode ← readMany 1
  if bytecode = [expected] then pure () else throw .valueError

/-! ### Low level -/

/-- `decode_bool`. -/
def decodeBool : Decoder Bool := (fun b ↦ b = [1]) <$> readMany 1

/-- `decode_int32`. -/
def decodeInt32 : Decoder Int := (fun bs ↦ signed32 (ofBigEndian bs)) <$> readMany 4

/-- `decode_string`. A negative size makes an invalid format. -/
def decodeString : Decoder Bytes := do
  let size ← decodeInt32
  if size < 0 then throw .structError else readMany size.toNat

/-- `decode_ipv6`. -/
def decodeIpv6 : Decoder ℕ := ofBigEndian <$> readMany 16

/-- `decode_timestamp`. -/
def decodeTimestamp : Decoder ℕ := ofBigEndian <$> readMany 4

/-- `decode_tuple`: there are no items if the count is negative. -/
def decodeTuple (decode : Decoder PyValue) : Decoder (List PyValue) := do
  let count ← decodeInt32
  Reader.times count.toNat decode

/-! ### High level -/

/-- `readBool`. -/
def readBool : Decoder Bool := do checkBytecode 0x62; decodeBool

/-- `readInt32`. -/
def readInt32 : Decoder Int := do checkBytecode 0x69; decodeInt32

/-- `readTimestamp`. -/
def readTimestamp : Decoder ℕ := do checkBytecode 0x74; decodeTimestamp

/-- `readString`. -/
def readString : Decoder Bytes := do checkBytecode 0x73; decodeString

/-- `readIPv6`. -/
def readIPv6 : Decoder ℕ := do checkBytecode 0x70; decodeIpv6

/-- `readTuple`. -/
def readTuple (decode : Decoder PyValue) : Decoder (List PyValue) := do
  checkBytecode 0x28; decodeTuple decode

/-- `decode`, with a `maxlen` that is `size` bytes further on: `end` is set, and restored
afterwards. -/
def within {α : Type} (size : Int) (m : Decoder α) : Decoder α := fun c ↦
  match m { c with limit := (c.index + size).toNat } with
  | .ok (a, c') => .ok (a, { c' with limit := c.limit })
  | .error e => .error e

/-- `decode_answer`. -/
def decodeAnswer (decode : Decoder PyValue) : Decoder PyValue := do
  let size ← readInt32
  let ok ← readInt32
  let content ← within size decode
  pure (.answer (ok = 1) content)

/-- `decode_uptime`. -/
def decodeUptime : Decoder PyValue := do
  let start ← readTimestamp
  let diff ← readInt32
  pure (.uptime start diff)

/-- `decode_user`. The name `version` is used twice there: the second value replaces the first, here
`_version`. -/
def decodeUser (decode : Decoder PyValue) : Decoder PyValue := do
  let _version ← readInt32
  let socket ← readInt32
  let name ← readString
  let addr ← readIPv6
  let sport ← readInt32
  let uid ← readInt32
  let groups ← readTuple decode
  let timestamp ← readTimestamp
  let uptime ← readInt32
  let expire ← readInt32
  let sysname ← readString
  let release ← readString
  let version ← PyValue.str <$> readString
  let activated ← readBool
  let rx ← readInt32
  let hello ← readInt32
  let spoofed ← readInt32
  let error ← readInt32
  pure (.user version socket name addr sport uid groups timestamp uptime
    (if expire < 0 then none else some expire) sysname release version activated rx error spoofed
    hello)

/-- `decode_nufw`. -/
def decodeNufw : Decoder PyValue := do
  let version ← readInt32
  let socket ← readInt32
  let peername ← readIPv6
  let timestamp ← readTimestamp
  let uptime ← readInt32
  let usage ← readInt32
  let alive ← readBool
  pure (.nufw version socket peername timestamp uptime usage alive)

/-- `DECODER`, and the error for a bytecode that it lacks. -/
def dispatch (decode : Decoder PyValue) (bytecode : Bytes) : Decoder PyValue :=
  if bytecode = [0x62] then .bool <$> decodeBool
  else if bytecode = [0x69] then .int <$> decodeInt32
  else if bytecode = [0x73] then .str <$> decodeString
  else if bytecode = [0x28] then .list <$> decodeTuple decode
  else if bytecode = [0x70] then .ip <$> decodeIpv6
  else if bytecode = [0x74] then .datetime <$> decodeTimestamp
  else if bytecode = [0x61] then decodeAnswer decode
  else if bytecode = [0x55] then decodeUptime
  else if bytecode = [0x75] then decodeUser decode
  else if bytecode = [0x77] then decodeNufw
  else throw .valueError

/-- What `decode` makes of a `struct.error`. -/
def catchStruct (m : Decoder PyValue) : Decoder PyValue := fun c ↦
  match m c with
  | .error .structError => .error .valueError
  | r => r

/-- `Decoder.decode`. -/
def decode : ℕ → Decoder PyValue
  | 0 => throw .fuel
  | fuel + 1 => do
    let bytecode ← readMany 1
    catchStruct (dispatch (decode fuel) bytecode)

/-- `Decoder (data)`, at its first byte. -/
def start (data : Bytes) : Cursor := ⟨data, 0, data.length⟩

/-! ### Reading back -/

section

variable {decode : Decoder PyValue} {bs : Bytes} {x : UInt32}

open Reader

theorem reads_readMany {n : ℕ} (h : bs.length = n) : Reads (readMany n) bs bs := reads_take _ _ h

theorem reads_checkBytecode (bytecode : UInt8) :
    Reads (checkBytecode bytecode) [bytecode] () :=
  (reads_readMany rfl).bind_pure (if_pos rfl)

theorem reads_decodeBool (b : Bool) : Reads decodeBool [if b then 1 else 0] b := by
  have hread : Reads (readMany 1) [if b then 1 else 0] [if b then 1 else 0] := reads_readMany rfl
  have h := hread.map fun bs : Bytes ↦ decide (bs = [1])
  cases b <;> exact h

theorem reads_decodeInt32 (x : UInt32) : Reads decodeInt32 (bigEndian32 x) (signed32 x.toNat) := by
  have h := (reads_readMany (length_bigEndian32 x)).map fun bs ↦ signed32 (ofBigEndian bs)
  rw [ofBigEndian_bigEndian32] at h
  exact h

theorem reads_decodeString (h : bs.length < 2 ^ 31) :
    Reads decodeString (bigEndian32 (UInt32.ofNat bs.length) ++ bs) bs := by
  have hlength : (UInt32.ofNat bs.length).toNat = bs.length :=
    UInt32.toNat_ofNat_of_lt (Nat.lt_trans h (by decide))
  refine (reads_decodeInt32 _).bind ?_
  rw [hlength, signed32_of_lt h, if_neg (by omega), Int.toNat_natCast]
  exact reads_readMany rfl

theorem reads_decodeIpv6 (a : In6Addr) : Reads decodeIpv6 a.toList (ofBigEndian a.toList) :=
  (reads_readMany (by simp)).map ofBigEndian

theorem reads_decodeTimestamp (x : UInt32) : Reads decodeTimestamp (bigEndian32 x) x.toNat := by
  have h := (reads_readMany (length_bigEndian32 x)).map ofBigEndian
  rw [ofBigEndian_bigEndian32] at h
  exact h

/-- **A tuple**, of whatever can be read. -/
theorem reads_decodeTuple {ι : Type} {bytes : ι → Bytes} {value : ι → PyValue} {l : List ι}
    (hl : l.length < 2 ^ 31) (h : ∀ i ∈ l, Reads decode (bytes i) (value i)) :
    Reads (decodeTuple decode) (bigEndian32 (UInt32.ofNat l.length) ++ l.flatMap bytes)
      (l.map value) := by
  have hlength : (UInt32.ofNat l.length).toNat = l.length :=
    UInt32.toNat_ofNat_of_lt (Nat.lt_trans hl (by decide))
  refine (reads_decodeInt32 _).bind ?_
  rw [hlength, signed32_of_lt hl, Int.toNat_natCast]
  exact reads_times h

theorem reads_readBool (b : Bool) : Reads readBool [0x62, if b then 1 else 0] b :=
  (reads_checkBytecode 0x62).bind (reads_decodeBool b)

theorem reads_readInt32 (x : UInt32) :
    Reads readInt32 (0x69 :: bigEndian32 x) (signed32 x.toNat) :=
  (reads_checkBytecode 0x69).bind (reads_decodeInt32 x)

theorem reads_readTimestamp (x : UInt32) : Reads readTimestamp (0x74 :: bigEndian32 x) x.toNat :=
  (reads_checkBytecode 0x74).bind (reads_decodeTimestamp x)

theorem reads_readString (h : bs.length < 2 ^ 31) :
    Reads readString (0x73 :: bigEndian32 (UInt32.ofNat bs.length) ++ bs) bs :=
  (reads_checkBytecode 0x73).bind (reads_decodeString h)

theorem reads_readIPv6 (a : In6Addr) : Reads readIPv6 (0x70 :: a.toList) (ofBigEndian a.toList) :=
  (reads_checkBytecode 0x70).bind (reads_decodeIpv6 a)

/-- The value stands within its limit. -/
theorem reads_within {α : Type} {m : Decoder α} {a : α} {size : Int} (h : Reads m bs a)
    (hsize : size = bs.length) : Reads (within size m) bs a := by
  intro c hc
  have hlimit : (c.index + size).toNat = c.index + bs.length := by omega
  have hm := h { c with limit := (c.index + size).toNat } ⟨hc.1, Nat.le_of_eq hlimit.symm⟩
  rw [within, hm]
  rfl

/-- **A value**, by its bytecode. -/
theorem reads_decode {fuel : ℕ} {bytecode : UInt8} {value : PyValue}
    (h : Reads (dispatch (Decoder.decode fuel) [bytecode]) bs value) :
    Reads (Decoder.decode (fuel + 1)) (bytecode :: bs) value := by
  have hread : Reads (readMany 1) [bytecode] [bytecode] := reads_readMany rfl
  refine hread.bind fun c hc ↦ ?_
  rw [catchStruct, h c hc]

end

/-! ### What has been read -/

section

variable {decode : Decoder PyValue} {bs : Bytes} {c c' : Cursor}

open Reader

theorem readMany_eq_ok {n : ℕ} (h : readMany n c = .ok (bs, c')) :
    bs.length = n ∧ c' = c.advance n ∧ n ≤ c.data.length - c.index := take_eq_ok h

theorem checkBytecode_eq_ok {bytecode : UInt8} (h : checkBytecode bytecode c = .ok ((), c')) :
    c' = c.advance 1 := by
  obtain ⟨bs, c₁, hread, hcheck⟩ := bind_eq_ok.1 h
  obtain ⟨-, rfl, -⟩ := readMany_eq_ok hread
  split at hcheck
  · exact (pure_eq_ok.1 hcheck).2.symm
  · cases hcheck

/-- The bytecode comes before the value. -/
theorem spends_read {α : Type} {m : Decoder α} {size : α → ℕ} {p : α → Prop} (bytecode : UInt8)
    (hm : Spends m size p) :
    Spends (do checkBytecode bytecode; m) (fun a ↦ 1 + size a) p := by
  intro c a c' h
  obtain ⟨_, c₁, hcheck, h⟩ := bind_eq_ok.1 h
  obtain rfl := checkBytecode_eq_ok hcheck
  obtain ⟨rfl, hthere, hp⟩ := hm _ _ _ h
  exact ⟨Cursor.advance_advance _ _ _, hthere, hp⟩

theorem spends_map_readMany {α : Type} {n : ℕ} (hn : 0 < n) (f : Bytes → α) :
    Spends (f <$> readMany n) (fun _ ↦ n) fun _ ↦ True := by
  intro c a c' h
  obtain ⟨bs, hread, -⟩ := map_eq_ok.1 h
  obtain ⟨-, rfl, hthere⟩ := readMany_eq_ok hread
  refine ⟨rfl, ?_, trivial⟩
  rw [Cursor.index_advance]
  omega

theorem spends_decodeBool : Spends decodeBool (fun _ ↦ 1) fun _ ↦ True :=
  spends_map_readMany (by decide) _

theorem spends_decodeInt32 : Spends decodeInt32 (fun _ ↦ 4) fun i ↦ i < 2 ^ 31 := by
  intro c i c' h
  obtain ⟨hc', hthere, -⟩ := spends_map_readMany (by decide) _ _ _ _ h
  obtain ⟨bs, hread, rfl⟩ := map_eq_ok.1 h
  refine ⟨hc', hthere, signed32_lt ?_⟩
  have hlt := ofBigEndian_lt bs
  rw [(readMany_eq_ok hread).1] at hlt
  exact hlt

theorem spends_decodeString : Spends decodeString (fun s ↦ 4 + s.length) fun _ ↦ True := by
  intro c s c' h
  obtain ⟨size, c₁, hsize, h⟩ := bind_eq_ok.1 h
  obtain ⟨rfl, hthere, -⟩ := spends_decodeInt32 _ _ _ hsize
  split at h
  · cases h
  · obtain ⟨hlength, rfl, hthere'⟩ := readMany_eq_ok h
    rw [← hlength] at hthere' ⊢
    refine ⟨Cursor.advance_advance _ _ _, ?_, trivial⟩
    simp only [Cursor.index_advance, Cursor.data_advance] at hthere hthere' ⊢
    omega

theorem spends_decodeIpv6 : Spends decodeIpv6 (fun _ ↦ 16) fun _ ↦ True :=
  spends_map_readMany (by decide) _

theorem spends_decodeTimestamp : Spends decodeTimestamp (fun _ ↦ 4) fun _ ↦ True :=
  spends_map_readMany (by decide) _

theorem spends_decodeTuple (h : Spends decode PyValue.size PyValue.Decoded) :
    Spends (decodeTuple decode) (fun l ↦ 4 + PyValue.sizes l)
      fun l ↦ l.length < 2 ^ 31 ∧ ∀ x ∈ l, x.Decoded := by
  intro c l c' hl
  obtain ⟨count, c₁, hcount, hl⟩ := bind_eq_ok.1 hl
  obtain ⟨rfl, hthere, hlt⟩ := spends_decodeInt32 _ _ _ hcount
  obtain ⟨hlength, rfl, hthere', hfit⟩ := h.times hthere hl
  refine ⟨?_, hthere', by omega, hfit⟩
  show _ = c.advance (4 + PyValue.sizes l)
  rw [PyValue.sizes_eq]
  exact Cursor.advance_advance _ _ _

theorem spends_readBool : Spends readBool (fun _ ↦ 2) fun _ ↦ True :=
  spends_read 0x62 spends_decodeBool

theorem spends_readInt32 : Spends readInt32 (fun _ ↦ 5) fun i ↦ i < 2 ^ 31 :=
  spends_read 0x69 spends_decodeInt32

theorem spends_readTimestamp : Spends readTimestamp (fun _ ↦ 5) fun _ ↦ True :=
  spends_read 0x74 spends_decodeTimestamp

theorem spends_readString : Spends readString (fun s ↦ 1 + (4 + s.length)) fun _ ↦ True :=
  spends_read 0x73 spends_decodeString

theorem spends_readIPv6 : Spends readIPv6 (fun _ ↦ 17) fun _ ↦ True :=
  spends_read 0x70 spends_decodeIpv6

theorem spends_readTuple (h : Spends decode PyValue.size PyValue.Decoded) :
    Spends (readTuple decode) (fun l ↦ 1 + (4 + PyValue.sizes l))
      fun l ↦ l.length < 2 ^ 31 ∧ ∀ x ∈ l, x.Decoded :=
  spends_read 0x28 (spends_decodeTuple h)

/-- What a value takes besides its bytecode. -/
abbrev SpendsBody (m : Decoder PyValue) : Prop :=
  ∀ c x c', m c = .ok (x, c') → c.advance x.size = c'.advance 1 ∧ c'.index ≤ c.data.length ∧
    x.Decoded

theorem spendsBody_decodeUptime : SpendsBody decodeUptime := by
  intro c x c' h
  obtain ⟨start, c₁, hstart, h⟩ := bind_eq_ok.1 h
  obtain ⟨diff, c₂, hdiff, h⟩ := bind_eq_ok.1 h
  obtain ⟨rfl, rfl⟩ := pure_eq_ok.1 h
  obtain ⟨rfl, -, -⟩ := spends_readTimestamp _ _ _ hstart
  obtain ⟨rfl, hthere, -⟩ := spends_readInt32 _ _ _ hdiff
  refine ⟨?_, hthere, .plain (fun _ h ↦ by cases h) rfl⟩
  simp only [PyValue.size, Cursor.advance_advance]

theorem spendsBody_decodeNufw : SpendsBody decodeNufw := by
  intro c x c' h
  obtain ⟨version, c₁, h₁, h⟩ := bind_eq_ok.1 h
  obtain ⟨socket, c₂, h₂, h⟩ := bind_eq_ok.1 h
  obtain ⟨peername, c₃, h₃, h⟩ := bind_eq_ok.1 h
  obtain ⟨timestamp, c₄, h₄, h⟩ := bind_eq_ok.1 h
  obtain ⟨uptime, c₅, h₅, h⟩ := bind_eq_ok.1 h
  obtain ⟨usage, c₆, h₆, h⟩ := bind_eq_ok.1 h
  obtain ⟨alive, c₇, h₇, h⟩ := bind_eq_ok.1 h
  obtain ⟨rfl, rfl⟩ := pure_eq_ok.1 h
  obtain rfl := (spends_readInt32 _ _ _ h₁).1
  obtain rfl := (spends_readInt32 _ _ _ h₂).1
  obtain rfl := (spends_readIPv6 _ _ _ h₃).1
  obtain rfl := (spends_readTimestamp _ _ _ h₄).1
  obtain rfl := (spends_readInt32 _ _ _ h₅).1
  obtain rfl := (spends_readInt32 _ _ _ h₆).1
  obtain ⟨rfl, hthere, -⟩ := spends_readBool _ _ _ h₇
  refine ⟨?_, hthere, .plain (fun _ h ↦ by cases h) rfl⟩
  simp only [PyValue.size, Cursor.advance_advance]

theorem spendsBody_decodeUser (hdecode : Spends decode PyValue.size PyValue.Decoded) :
    SpendsBody (decodeUser decode) := by
  intro c x c' h
  obtain ⟨_, c₁, h₁, h⟩ := bind_eq_ok.1 h
  obtain ⟨socket, c₂, h₂, h⟩ := bind_eq_ok.1 h
  obtain ⟨name, c₃, h₃, h⟩ := bind_eq_ok.1 h
  obtain ⟨addr, c₄, h₄, h⟩ := bind_eq_ok.1 h
  obtain ⟨sport, c₅, h₅, h⟩ := bind_eq_ok.1 h
  obtain ⟨uid, c₆, h₆, h⟩ := bind_eq_ok.1 h
  obtain ⟨groups, c₇, h₇, h⟩ := bind_eq_ok.1 h
  obtain ⟨timestamp, c₈, h₈, h⟩ := bind_eq_ok.1 h
  obtain ⟨uptime, c₉, h₉, h⟩ := bind_eq_ok.1 h
  obtain ⟨expire, c₁₀, h₁₀, h⟩ := bind_eq_ok.1 h
  obtain ⟨sysname, c₁₁, h₁₁, h⟩ := bind_eq_ok.1 h
  obtain ⟨release, c₁₂, h₁₂, h⟩ := bind_eq_ok.1 h
  obtain ⟨_, c₁₃, h₁₃, h⟩ := bind_eq_ok.1 h
  obtain ⟨version, hversion, rfl⟩ := map_eq_ok.1 h₁₃
  obtain ⟨activated, c₁₄, h₁₄, h⟩ := bind_eq_ok.1 h
  obtain ⟨rx, c₁₅, h₁₅, h⟩ := bind_eq_ok.1 h
  obtain ⟨hello, c₁₆, h₁₆, h⟩ := bind_eq_ok.1 h
  obtain ⟨spoofed, c₁₇, h₁₇, h⟩ := bind_eq_ok.1 h
  obtain ⟨error, c₁₈, h₁₈, h⟩ := bind_eq_ok.1 h
  obtain ⟨rfl, rfl⟩ := pure_eq_ok.1 h
  obtain ⟨hlast, hthere, -⟩ := spends_readInt32 _ _ _ h₁₈
  -- the bytes of the fields add up
  have hindex : c.advance (5 + 5 + (1 + (4 + name.length)) + 17 + 5 + 5 +
      (1 + (4 + PyValue.sizes groups)) + 5 + 5 + 5 + (1 + (4 + sysname.length)) +
      (1 + (4 + release.length)) + (1 + (4 + version.length)) + 2 + 5 + 5 + 5 + 5) = c₁₈ := by
    rw [hlast, (spends_readInt32 _ _ _ h₁₇).1, (spends_readInt32 _ _ _ h₁₆).1,
      (spends_readInt32 _ _ _ h₁₅).1, (spends_readBool _ _ _ h₁₄).1,
      (spends_readString _ _ _ hversion).1, (spends_readString _ _ _ h₁₂).1,
      (spends_readString _ _ _ h₁₁).1, (spends_readInt32 _ _ _ h₁₀).1,
      (spends_readInt32 _ _ _ h₉).1, (spends_readTimestamp _ _ _ h₈).1,
      (spends_readTuple hdecode _ _ _ h₇).1, (spends_readInt32 _ _ _ h₆).1,
      (spends_readInt32 _ _ _ h₅).1, (spends_readIPv6 _ _ _ h₄).1,
      (spends_readString _ _ _ h₃).1, (spends_readInt32 _ _ _ h₂).1,
      (spends_readInt32 _ _ _ h₁).1]
    simp only [Cursor.advance_advance]
  have hdata : c₁₇.data = c.data := by
    have hsame := congrArg Cursor.data (hlast.symm.trans hindex.symm)
    exact hsame
  refine ⟨?_, hdata ▸ hthere, .other (fun _ h ↦ by cases h) fun _ h ↦ ⟨version, ?_⟩⟩
  · rw [← hindex, Cursor.advance_advance, PyValue.size, PyValue.size]
    congr 1
    omega
  · exact (Option.some.inj h).symm

theorem spendsBody_decodeAnswer (hdecode : Spends decode PyValue.size PyValue.Decoded) :
    SpendsBody (decodeAnswer decode) := by
  intro c x c' h
  obtain ⟨size, c₁, hsize, h⟩ := bind_eq_ok.1 h
  obtain ⟨ok, c₂, hok, h⟩ := bind_eq_ok.1 h
  obtain ⟨content, c₃, hcontent, h⟩ := bind_eq_ok.1 h
  obtain ⟨rfl, rfl⟩ := pure_eq_ok.1 h
  obtain ⟨rfl, -, -⟩ := spends_readInt32 _ _ _ hsize
  obtain ⟨rfl, -, -⟩ := spends_readInt32 _ _ _ hok
  rw [within] at hcontent
  split at hcontent
  · rename_i a c₄ hdec
    cases hcontent
    obtain ⟨rfl, hthere, -⟩ := hdecode _ _ _ hdec
    refine ⟨?_, hthere, .plain (fun _ h ↦ by cases h) rfl⟩
    rw [PyValue.size]
    simp only [Cursor.advance, Cursor.mk.injEq, true_and, and_true]
    omega
  · cases hcontent

theorem spendsBody_map {α : Type} {m : Decoder α} {size : α → ℕ} {p : α → Prop}
    {f : α → PyValue} (hm : Spends m size p) (hsize : ∀ a, (f a).size = size a + 1)
    (hfit : ∀ a, p a → (f a).Decoded) : SpendsBody (f <$> m) := by
  intro c x c' h
  obtain ⟨a, ha, rfl⟩ := map_eq_ok.1 h
  obtain ⟨rfl, hthere, hp⟩ := hm _ _ _ ha
  exact ⟨by rw [hsize, Cursor.advance_advance], hthere, hfit a hp⟩

theorem spendsBody_ite {p : Prop} [Decidable p] {m m' : Decoder PyValue} (hm : SpendsBody m)
    (hm' : SpendsBody m') : SpendsBody (if p then m else m') := by
  split
  · exact hm
  · exact hm'

theorem spendsBody_dispatch (hdecode : Spends decode PyValue.size PyValue.Decoded)
    (bytecode : Bytes) : SpendsBody (dispatch decode bytecode) := by
  refine spendsBody_ite ?_ <| spendsBody_ite ?_ <| spendsBody_ite ?_ <| spendsBody_ite ?_ <|
    spendsBody_ite ?_ <| spendsBody_ite ?_ <| spendsBody_ite ?_ <| spendsBody_ite ?_ <|
    spendsBody_ite ?_ <| spendsBody_ite ?_ fun c x c' h ↦ by cases h
  · exact spendsBody_map spends_decodeBool (fun _ ↦ rfl) fun _ _ ↦ .plain (fun _ h ↦ by cases h) rfl
  · exact spendsBody_map spends_decodeInt32 (fun _ ↦ rfl) fun _ _ ↦
      .plain (fun _ h ↦ by cases h) rfl
  · refine spendsBody_map spends_decodeString (fun s ↦ ?_) fun _ _ ↦
      .plain (fun _ h ↦ by cases h) rfl
    rw [PyValue.size]
    omega
  · refine spendsBody_map (spends_decodeTuple hdecode) (fun l ↦ ?_) fun l hl ↦ .list hl.1 hl.2
    rw [PyValue.size]
    omega
  · exact spendsBody_map spends_decodeIpv6 (fun _ ↦ rfl) fun _ _ ↦ .plain (fun _ h ↦ by cases h) rfl
  · exact spendsBody_map spends_decodeTimestamp (fun _ ↦ rfl) fun _ _ ↦
      .plain (fun _ h ↦ by cases h) rfl
  · exact spendsBody_decodeAnswer hdecode
  · exact spendsBody_decodeUptime
  · exact spendsBody_decodeUser hdecode
  · exact spendsBody_decodeNufw

/-- **Whatever is decoded takes the bytes that it is worth.** -/
theorem spends_decode (fuel : ℕ) :
    Spends (Decoder.decode fuel) PyValue.size PyValue.Decoded := by
  induction fuel with
  | zero =>
    intro c x c' h
    cases h
  | succ fuel ih =>
    intro c x c' h
    obtain ⟨bytecode, c₁, hread, h⟩ := bind_eq_ok.1 h
    obtain ⟨-, rfl, -⟩ := readMany_eq_ok hread
    rw [catchStruct] at h
    split at h
    · cases h
    · obtain ⟨hsize, hthere, hfit⟩ := spendsBody_dispatch ih bytecode _ _ _ h
      refine ⟨?_, hthere, hfit⟩
      simp only [Cursor.advance, Cursor.mk.injEq] at hsize ⊢
      obtain ⟨hdata, hindex, hlimit⟩ := hsize
      cases c'
      simp only [Cursor.mk.injEq] at *
      exact ⟨hdata.symm, by omega, hlimit.symm⟩

end

end Decoder

/-- `decode`, of the module: the value, and where the decoder stops. -/
def pyDecode (data : Bytes) : Except PyError (PyValue × Cursor) :=
  Decoder.decode (data.length + 1) (Decoder.start data)

end Nufw
