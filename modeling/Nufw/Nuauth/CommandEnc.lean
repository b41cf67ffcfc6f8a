import Nufw.Lib.Reader
import Nufw.Nuauth.Connections

/-!
# The encoder of the administration protocol

`command_enc.c`: nuauth answers the commands of its administration client with values, each a
bytecode and its data. An encoder is a buffer that grows: `encoder_grow` makes room, and the
`encoder_write_*` functions then write without a check. Here a write beyond `alloc_size` is a
failure, `none`.

`size_t` has 64 bits. Two of the writes narrow a `size_t` silently: `encoder_write_int32` the number
of items of a tuple, and `encoder_write_bytes` the size of an item, which it takes as an `int`. A
negative `int` makes `memcpy` run over the end of any buffer.

A function that appends is described by the bytes it adds (`Adds`).
-/

namespace Nufw

/-! ### The buffer -/

/-- A `size_t`. -/
def sizeT (n : ℕ) : ℕ := n % 2 ^ 64

/-- `encoder_t`: the bytes written so far, and the size of the buffer. -/
structure Encoder where
  data : Bytes
  allocSize : ℕ
  deriving DecidableEq

namespace Encoder

/-- The `size` of the encoder. -/
def size (e : Encoder) : ℕ := e.data.length

/-- `encoder_new`. -/
def new : Encoder := ⟨[], 0⟩

/-- `encoder_grow`. -/
def grow (size : ℕ) (e : Encoder) : Encoder :=
  let newsize := sizeT (e.size + size)
  if e.allocSize < newsize then
    let newsize := sizeT (newsize * 3) / 2
    { e with allocSize := if newsize < 16 then 16 else newsize }
  else e

/-- Write bytes at the end of the data, which has to be in the buffer. -/
def write (bs : Bytes) (e : Encoder) : Option Encoder :=
  if e.size + bs.length ≤ e.allocSize then some { e with data := e.data ++ bs } else none

/-- `encoder_write_bytecode`. -/
def writeBytecode (bytecode : UInt8) (e : Encoder) : Option Encoder := e.write [bytecode]

/-- `encoder_write_bool`. -/
def writeBool (value : Bool) (e : Encoder) : Option Encoder := e.write [if value then 1 else 0]

/-- `encoder_write_int32`, of an integer that is converted to an `int32_t`. -/
def writeInt32 (value : Int) (e : Encoder) : Option Encoder :=
  e.write (bigEndian32 (UInt32.ofInt value))

/-- `encoder_write_bytes`, of a `size_t` that is converted to an `int`. -/
def writeBytes (size : ℕ) (data : Bytes) (e : Encoder) : Option Encoder :=
  let size := signed32 (size % 2 ^ 32)
  if size < 0 then none else e.write (data.take size.toNat)

/-! ### The values -/

/-- `encoder_add_bytecode`. -/
def addBytecode (bytecode : UInt8) (e : Encoder) : Option Encoder :=
  (e.grow 1).writeBytecode bytecode

/-- `encoder_add_bool`. -/
def addBool (value : Bool) (e : Encoder) : Option Encoder := do
  let e ← (e.grow 2).writeBytecode 0x62
  e.writeBool value

/-- `encoder_add_int32`. -/
def addInt32 (value : Int) (e : Encoder) : Option Encoder := do
  let e ← (e.grow 5).writeBytecode 0x69
  e.writeInt32 value

/-- `encoder_add_timestamp`. -/
def addTimestamp (value : Int) (e : Encoder) : Option Encoder := do
  let e ← (e.grow 5).writeBytecode 0x74
  e.writeInt32 value

/-- `encoder_add_ipv6`. -/
def addIpv6 (ipv6 : In6Addr) (e : Encoder) : Option Encoder := do
  let e ← (e.grow (1 + 16)).writeBytecode 0x70
  e.writeBytes 16 ipv6.toList

/-- `encoder_add_string`. -/
def addString (string : Bytes) (e : Encoder) : Option Encoder := do
  let len := string.length
  let e ← (e.grow (5 + len)).writeBytecode 0x73
  let e ← e.writeInt32 len
  e.writeBytes len string

/-- What the two functions for tuples do: one has the items in an array, the other in a list. -/
def addItems (items : List Encoder) (e : Encoder) : Option Encoder := do
  let count := items.length
  let size := (items.map Encoder.size).sum
  let e ← (e.grow (5 + size)).writeBytecode 0x28
  let e ← e.writeInt32 count
  items.foldlM (fun e item ↦ e.writeBytes item.size item.data) e

/-- `encoder_add_tuple`. -/
def addTuple (items : List Encoder) (e : Encoder) : Option Encoder := e.addItems items

/-- `encoder_add_tuple_from_slist`. -/
def addTupleFromSlist (items : List Encoder) (e : Encoder) : Option Encoder := e.addItems items

/-- `encoder_add_uptime`. -/
def addUptime (start diff : Int) (e : Encoder) : Option Encoder := do
  let e ← e.addBytecode 0x55
  let e ← e.addTimestamp start
  e.addInt32 diff

end Encoder

/-- `encode_answer`. -/
def encodeAnswer (ok : UInt8) (data : Encoder) : Option Encoder := do
  let e ← Encoder.new.addBytecode 0x61
  let e ← e.addInt32 data.size
  let e ← e.addInt32 ok.toNat
  (e.grow data.size).writeBytes data.size data.data

/-! ### The sessions -/

/-- A text that `encoder_add_string` is given: no NUL is in it, and its length is less than 2^31. -/
structure CString where
  bytes : Bytes
  noNul : 0 ∉ bytes
  short : bytes.length < 2 ^ 31

/-- `user_session_t`, as far as it is listed. None of its strings is `NULL`. -/
structure UserEntry where
  protoVersion : Int
  socket : Int
  userName : CString
  addr : In6Addr
  sport : UInt16
  userId : UInt32
  groups : List GroupData
  connectTimestamp : Int
  expire : Int
  sysname : CString
  release : CString
  version : CString
  activated : Bool
  rxPckts : Int
  helloPckts : Int
  spoofedPckts : Int
  errorPckts : Int

/-- `nufw_session_t`, as far as it is listed, with the descriptor of its connection. -/
structure NufwEntry where
  protoVersion : UInt8
  fd : Int
  peername : In6Addr
  connectTimestamp : Int
  usage : Int
  alive : Bool

/-- One group in `encode_user`. Whether groups are names or numbers is a setting. -/
def encodeGroup : GroupData → Option Encoder
  | .name name => Encoder.new.addString name
  | .gid gid => Encoder.new.addInt32 gid.toNat

/-- The part of `encode_user` that encodes the user entry, with the groups. -/
def Encoder.addUserEntry (now : Int) (session : UserEntry) (groups : List Encoder) (e : Encoder) :
    Option Encoder := do
  let e ← e.addBytecode 0x75
  let e ← e.addInt32 session.protoVersion
  let e ← e.addInt32 session.socket
  let e ← e.addString session.userName.bytes
  let e ← e.addIpv6 session.addr
  let e ← e.addInt32 session.sport.toNat
  let e ← e.addInt32 session.userId.toNat
  let e ← e.addTupleFromSlist groups
  let e ← e.addTimestamp session.connectTimestamp
  let e ← e.addInt32 (now - session.connectTimestamp)
  let e ← e.addInt32 session.expire
  let e ← e.addString session.sysname.bytes
  let e ← e.addString session.release.bytes
  let e ← e.addString session.version.bytes
  let e ← e.addBool session.activated
  let e ← e.addInt32 session.rxPckts
  let e ← e.addInt32 session.helloPckts
  let e ← e.addInt32 session.spoofedPckts
  e.addInt32 session.errorPckts

/-- `encode_user`, at some time. The list of the groups is built from its end. -/
def encodeUser (now : Int) (session : UserEntry) : Option Encoder := do
  let groups ← session.groups.mapM encodeGroup
  Encoder.new.addUserEntry now session groups.reverse

/-- `encode_nufw`, at some time. -/
def encodeNufw (now : Int) (session : NufwEntry) : Option Encoder := do
  let e ← Encoder.new.addBytecode 0x77
  let e ← e.addInt32 session.protoVersion.toNat
  let e ← e.addInt32 session.fd
  let e ← e.addIpv6 session.peername
  let e ← e.addTimestamp session.connectTimestamp
  let e ← e.addInt32 (now - session.connectTimestamp)
  let e ← e.addInt32 session.usage
  e.addBool session.alive

/-- The conversion of a `size_t` to 32 bits. -/
theorem ofInt_natCast (n : ℕ) : UInt32.ofInt n = UInt32.ofNat n := by
  refine UInt32.toNat_inj.1 ?_
  simp only [UInt32.ofInt, UInt32.toNat_ofNat']
  omega

/-! ### What is added -/

namespace Encoder

/-- **The function adds the bytes**, if the sizes can be computed with. -/
def Adds (f : Encoder → Option Encoder) (bs : Bytes) : Prop :=
  ∀ e : Encoder, (e.size + bs.length) * 3 < 2 ^ 64 → ∃ e', f e = some e' ∧ e'.data = e.data ++ bs

variable {e : Encoder} {f g : Encoder → Option Encoder} {bs cs : Bytes}

theorem Adds.bind (h : Adds f bs) (h' : Adds g cs) : Adds (fun e ↦ (f e).bind g) (bs ++ cs) := by
  intro e hsize
  rw [List.length_append] at hsize
  obtain ⟨e₁, he₁, hdata₁⟩ := h e (by omega)
  have hsize₁ : e₁.size = e.size + bs.length := by rw [size, hdata₁, List.length_append, size]
  obtain ⟨e₂, he₂, hdata₂⟩ := h' e₁ (by omega)
  refine ⟨e₂, ?_, by rw [hdata₂, hdata₁, List.append_assoc]⟩
  show (f e).bind g = some e₂
  rw [he₁]
  exact he₂

@[simp] theorem data_grow (n : ℕ) (e : Encoder) : (e.grow n).data = e.data := by
  rw [grow]
  dsimp only
  split
  · rfl
  · rfl

@[simp] theorem size_grow (n : ℕ) (e : Encoder) : (e.grow n).size = e.size := by
  rw [size, data_grow, size]

/-- **There is room.** -/
theorem le_allocSize_grow {n : ℕ} (h : (e.size + n) * 3 < 2 ^ 64) :
    e.size + n ≤ (e.grow n).allocSize := by
  have hsize : sizeT (e.size + n) = e.size + n := Nat.mod_eq_of_lt (by omega)
  have htriple : sizeT ((e.size + n) * 3) = (e.size + n) * 3 := Nat.mod_eq_of_lt h
  rw [grow, hsize]
  dsimp only
  split
  · rw [htriple]
    dsimp only
    split <;> omega
  · omega

theorem write_of_le (h : e.size + bs.length ≤ e.allocSize) :
    e.write bs = some { e with data := e.data ++ bs } := if_pos h

theorem writeBytes_of_lt {n : ℕ} (hn : n < 2 ^ 31) (hbs : bs.length = n) (e : Encoder) :
    e.writeBytes n bs = e.write bs := by
  rw [writeBytes, Nat.mod_eq_of_lt (by omega), signed32_of_lt hn]
  rw [if_neg (by omega), Int.toNat_natCast, ← hbs, List.take_length]

/-- Writes into room that has been made. -/
def Fills (f : Encoder → Option Encoder) (bs : Bytes) : Prop :=
  ∀ e : Encoder, e.size + bs.length ≤ e.allocSize → f e = some { e with data := e.data ++ bs }

theorem Fills.bind (h : Fills f bs) (h' : Fills g cs) :
    Fills (fun e ↦ (f e).bind g) (bs ++ cs) := by
  intro e hsize
  rw [List.length_append] at hsize
  show (f e).bind g = _
  rw [h e (by omega), Option.bind_some, h' _ ?_, List.append_assoc]
  show (e.data ++ bs).length + cs.length ≤ e.allocSize
  rw [List.length_append]
  have : e.size = e.data.length := rfl
  omega

theorem Fills.adds {n : ℕ} (h : Fills f bs) (hn : bs.length = n) :
    Adds (fun e ↦ f (e.grow n)) bs := by
  intro e hsize
  rw [hn] at hsize
  refine ⟨_, h _ ?_, by rw [data_grow]⟩
  rw [size_grow, hn]
  exact le_allocSize_grow hsize

theorem fills_write (bs : Bytes) : Fills (write bs) bs := fun _ h ↦ write_of_le h

theorem fills_writeBytecode (bytecode : UInt8) : Fills (writeBytecode bytecode) [bytecode] :=
  fills_write _

theorem fills_writeInt32 (value : Int) :
    Fills (writeInt32 value) (bigEndian32 (UInt32.ofInt value)) := fills_write _

theorem fills_writeBytes {n : ℕ} (hn : n < 2 ^ 31) (hbs : bs.length = n) :
    Fills (writeBytes n bs) bs := by
  intro e h
  rw [writeBytes_of_lt hn hbs]
  exact write_of_le h

theorem adds_addBytecode (bytecode : UInt8) : Adds (addBytecode bytecode) [bytecode] :=
  (fills_writeBytecode bytecode).adds rfl

theorem adds_addBool (value : Bool) : Adds (addBool value) [0x62, if value then 1 else 0] :=
  ((fills_writeBytecode 0x62).bind (fills_write [if value then 1 else 0])).adds rfl

theorem adds_addInt32 (value : Int) :
    Adds (addInt32 value) (0x69 :: bigEndian32 (UInt32.ofInt value)) :=
  ((fills_writeBytecode 0x69).bind (fills_writeInt32 value)).adds rfl

theorem adds_addTimestamp (value : Int) :
    Adds (addTimestamp value) (0x74 :: bigEndian32 (UInt32.ofInt value)) :=
  ((fills_writeBytecode 0x74).bind (fills_writeInt32 value)).adds rfl

theorem adds_addIpv6 (ipv6 : In6Addr) : Adds (addIpv6 ipv6) (0x70 :: ipv6.toList) :=
  ((fills_writeBytecode 0x70).bind (fills_writeBytes (by decide) (by simp))).adds (by simp)

theorem adds_addString (h : bs.length < 2 ^ 31) :
    Adds (addString bs) (0x73 :: bigEndian32 (UInt32.ofInt bs.length) ++ bs) :=
  ((fills_writeBytecode 0x73).bind ((fills_writeInt32 _).bind (fills_writeBytes h rfl))).adds
    (by simp; omega)

/-- The items of a tuple, one after the other. -/
theorem fills_foldlM_writeBytes {items : List Encoder} (h : ∀ item ∈ items, item.size < 2 ^ 31) :
    Fills (fun e ↦ items.foldlM (fun e item ↦ e.writeBytes item.size item.data) e)
      (items.flatMap Encoder.data) := by
  induction items with
  | nil =>
    intro e _
    rw [List.flatMap_nil, List.append_nil]
    rfl
  | cons item items ih =>
    exact (fills_writeBytes (h item List.mem_cons_self) rfl).bind
      (ih fun item' h' ↦ h item' (List.mem_cons_of_mem _ h'))

theorem length_flatMap_data (items : List Encoder) :
    (items.flatMap Encoder.data).length = (items.map Encoder.size).sum :=
  List.length_flatMap

theorem adds_addTupleFromSlist {items : List Encoder} (h : ∀ item ∈ items, item.size < 2 ^ 31) :
    Adds (addTupleFromSlist items)
      (0x28 :: bigEndian32 (UInt32.ofInt items.length) ++ items.flatMap Encoder.data) :=
  ((fills_writeBytecode 0x28).bind ((fills_writeInt32 _).bind (fills_foldlM_writeBytes h))).adds
    (by rw [List.length_append, List.length_append, length_flatMap_data]; simp; omega)

theorem adds_addUptime (start diff : Int) : Adds (addUptime start diff)
    (0x55 :: 0x74 :: bigEndian32 (UInt32.ofInt start) ++
      0x69 :: bigEndian32 (UInt32.ofInt diff)) :=
  (adds_addBytecode 0x55).bind ((adds_addTimestamp start).bind (adds_addInt32 diff))

/-! ### What has been added -/

variable {e' : Encoder} {n : ℕ}

theorem size_of_write (h : e.write bs = some e') : e'.size = e.size + bs.length := by
  rw [write] at h
  split at h
  · cases h
    exact List.length_append
  · cases h

/-- Not all bytes need be written. -/
theorem size_of_writeBytes (hbs : bs.length = n) (h : e.writeBytes n bs = some e') :
    ∃ k, k ≤ n ∧ k < 2 ^ 31 ∧ e'.size = e.size + k := by
  rw [writeBytes] at h
  have hmod : n % 2 ^ 32 < 2 ^ 32 := Nat.mod_lt _ (by decide)
  have hle : n % 2 ^ 32 ≤ n := Nat.mod_le _ _
  split at h
  · cases h
  · rename_i hsign
    have hlt : n % 2 ^ 32 < 2 ^ 31 := by
      by_contra hge
      rw [signed32, if_neg hge] at hsign
      omega
    have hwrite := size_of_write h
    rw [signed32_of_lt hlt, Int.toNat_natCast, List.length_take, hbs, Nat.min_eq_left hle] at hwrite
    exact ⟨_, hle, hlt, hwrite⟩

theorem size_of_foldlM_writeBytes {items : List Encoder}
    (h : items.foldlM (fun e item ↦ e.writeBytes item.size item.data) e = some e') :
    e'.size ≤ e.size + (items.map size).sum ∧
      (e'.size = e.size + (items.map size).sum → ∀ item ∈ items, item.size < 2 ^ 31) := by
  induction items generalizing e with
  | nil =>
    cases h
    exact ⟨Nat.le_refl _, fun _ _ hi ↦ absurd hi List.not_mem_nil⟩
  | cons item items ih =>
    obtain ⟨e₁, hwrite, h⟩ := Option.bind_eq_some_iff.1 h
    obtain ⟨k, hle, hlt, hsize⟩ := size_of_writeBytes (n := item.size) rfl hwrite
    obtain ⟨hle', hshort⟩ := ih h
    rw [List.map_cons, List.sum_cons]
    refine ⟨by omega, fun heq ↦ List.forall_mem_cons.2 ⟨by omega, hshort (by omega)⟩⟩

/-- **A tuple that is complete has no item of 2^31 bytes.** -/
theorem size_of_addTupleFromSlist {items : List Encoder}
    (h : e.addTupleFromSlist items = some e') :
    e'.size ≤ e.size + 5 + (items.map size).sum ∧
      (e'.size = e.size + 5 + (items.map size).sum → ∀ item ∈ items, item.size < 2 ^ 31) := by
  obtain ⟨e₁, hcode, h⟩ := Option.bind_eq_some_iff.1 h
  obtain ⟨e₂, hcount, h⟩ := Option.bind_eq_some_iff.1 h
  have hsize₁ := size_of_write hcode
  have hsize₂ := size_of_write hcount
  rw [size_grow, List.length_singleton] at hsize₁
  rw [length_bigEndian32] at hsize₂
  obtain ⟨hle, hshort⟩ := size_of_foldlM_writeBytes h
  exact ⟨by omega, fun heq ↦ hshort (by omega)⟩

/-- What a new encoder has. -/
theorem Adds.new (h : Adds f bs) (hbs : bs.length * 3 < 2 ^ 64) :
    ∃ e, f new = some e ∧ e.data = bs :=
  h Encoder.new (by simpa [size, Encoder.new] using hbs)

end Encoder

end Nufw
