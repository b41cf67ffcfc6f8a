import Nufw.Nuauth.Command
import Nufw.NuauthCommand.CommandDec

/-!
# The listings of users and firewalls

`users` and `firewalls` answer with a tuple that has a message for each session. A firewall is read
back field by field. So is a user, but for one field: `decode_user` calls both the version of the
client and that of its operating system `version`, so that the client is told the latter twice.

`Denotes bs x` says that the client reads the bytes as the value, wherever they stand.
-/

namespace Nufw

open Reader

/-! ### Bytes of a value -/

/-- The number that `encoder_write_int32` makes of an integer. -/
def int32 (i : Int) : Int := signed32 (UInt32.ofInt i).toNat

theorem int32_of_within {i : Int} (hle : -2 ^ 31 ≤ i) (hlt : i < 2 ^ 31) : int32 i = i := by
  have hmod : ((UInt32.ofInt i).toNat : Int) = i % 2 ^ 32 := by
    rw [UInt32.ofInt, UInt32.toNat_ofNat']
    omega
  rw [int32, signed32]
  split <;> omega

/-- The seconds that `encoder_add_timestamp` makes of a time. -/
def seconds (i : Int) : ℕ := (UInt32.ofInt i).toNat

theorem seconds_of_within {i : Int} (hle : 0 ≤ i) (hlt : i < 2 ^ 32) : seconds i = i.toNat := by
  rw [seconds, UInt32.ofInt, UInt32.toNat_ofNat']
  omega

/-- **The bytes stand for the value**: as many as it is worth, and read as such wherever they
are. -/
structure Denotes (bs : Bytes) (x : PyValue) : Prop where
  length : bs.length = x.size
  reads {fuel : ℕ} (h : x.size ≤ fuel) : Reads (Decoder.decode fuel) bs x

theorem PyValue.size_pos (x : PyValue) : 0 < x.size := by
  cases x <;> rw [PyValue.size] <;> omega

theorem PyValue.size_le_sizes {x : PyValue} {l : List PyValue} (h : x ∈ l) : x.size ≤ sizes l := by
  obtain ⟨l₁, l₂, rfl⟩ := List.append_of_mem h
  rw [sizes_eq, List.map_append, List.map_cons, List.sum_append, List.sum_cons]
  omega

theorem PyValue.length_le_sizes (l : List PyValue) : l.length ≤ sizes l := by
  induction l with
  | nil => exact Nat.le_refl _
  | cons x l ih =>
    have hx := x.size_pos
    rw [sizes, List.length_cons]
    omega

theorem PyValue.sizes_le {l : List PyValue} (h : ∀ x ∈ l, x.size < 2 ^ 31) :
    sizes l ≤ l.length * 2 ^ 31 := by
  induction l with
  | nil => exact Nat.le_refl _
  | cons x l ih =>
    obtain ⟨hx, hl⟩ := List.forall_mem_cons.1 h
    have hle := ih hl
    rw [sizes, List.length_cons]
    omega

/-- What a bytecode is followed by. -/
theorem Denotes.of_dispatch {bytecode : UInt8} {bs : Bytes} {x : PyValue}
    (hlength : bs.length + 1 = x.size)
    (h : ∀ fuel, x.size ≤ fuel + 1 →
      Reads (Decoder.dispatch (Decoder.decode fuel) [bytecode]) bs x) :
    Denotes (bytecode :: bs) x where
  length := hlength
  reads {fuel} hfuel := by
    obtain ⟨fuel, rfl⟩ := Nat.exists_eq_succ_of_ne_zero (n := fuel) (by omega)
    exact Decoder.reads_decode (h fuel hfuel)

theorem denotes_int32 (i : Int) :
    Denotes (0x69 :: bigEndian32 (UInt32.ofInt i)) (.int (int32 i)) :=
  .of_dispatch (by rw [length_bigEndian32]; rfl) fun _ _ ↦
    (Decoder.reads_decodeInt32 _).map PyValue.int

theorem denotes_string {text : Bytes} (h : text.length < 2 ^ 31) :
    Denotes (0x73 :: bigEndian32 (UInt32.ofInt text.length) ++ text) (.str text) := by
  rw [ofInt_natCast, List.cons_append]
  refine .of_dispatch ?_ fun _ _ ↦ (Decoder.reads_decodeString h).map PyValue.str
  rw [List.length_append, length_bigEndian32, PyValue.size]
  omega

theorem denotes_uptime (start diff : Int) :
    Denotes (0x55 :: 0x74 :: bigEndian32 (UInt32.ofInt start) ++
      0x69 :: bigEndian32 (UInt32.ofInt diff)) (.uptime (seconds start) (int32 diff)) := by
  refine .of_dispatch rfl fun _ _ ↦ ?_
  exact (Decoder.reads_readTimestamp _).bind ((Decoder.reads_readInt32 _).bind_pure rfl)

/-! ### Tuples -/

section

variable {α : Type} {encode : α → Option Encoder} {value : α → PyValue} {l : List α}
  {es : List Encoder}

theorem mapM_encode (h : ∀ a ∈ l, ∃ e, encode a = some e ∧ Denotes e.data (value a)) :
    ∃ es, l.mapM encode = some es ∧ List.Forall₂ (fun e a ↦ Denotes e.data (value a)) es l := by
  induction l with
  | nil => exact ⟨[], rfl, .nil⟩
  | cons a l ih =>
    obtain ⟨e, he, hdata⟩ := h a List.mem_cons_self
    obtain ⟨es, hes, hdatas⟩ := ih fun b hb ↦ h b (List.mem_cons_of_mem _ hb)
    refine ⟨e :: es, ?_, .cons hdata hdatas⟩
    rw [List.mapM_cons, he, hes]
    rfl

theorem sum_size_of_forall₂ (h : List.Forall₂ (fun e a ↦ Denotes e.data (value a)) es l) :
    (es.flatMap Encoder.data).length = PyValue.sizes (l.map value) := by
  induction h with
  | nil => rfl
  | cons hdata _ ih =>
    rw [List.flatMap_cons, List.length_append, List.map_cons, PyValue.sizes, ih, hdata.length]

theorem reads_times_of_forall₂ (h : List.Forall₂ (fun e a ↦ Denotes e.data (value a)) es l)
    {fuel : ℕ} (hfuel : PyValue.sizes (l.map value) ≤ fuel) :
    Reads (times l.length (Decoder.decode fuel)) (es.flatMap Encoder.data) (l.map value) := by
  induction h with
  | nil => exact .pure []
  | cons hdata _ ih =>
    rw [List.map_cons, PyValue.sizes] at hfuel
    rw [List.flatMap_cons, List.map_cons]
    exact (hdata.reads (by omega)).bind ((ih (by omega)).bind_pure rfl)

/-- **The items of a tuple are read back.** -/
theorem reads_decodeTuple_of_forall₂ (hl : l.length < 2 ^ 31)
    (h : List.Forall₂ (fun e a ↦ Denotes e.data (value a)) es l) {fuel : ℕ}
    (hfuel : PyValue.sizes (l.map value) ≤ fuel) :
    Reads (Decoder.decodeTuple (Decoder.decode fuel))
      (bigEndian32 (UInt32.ofInt es.length) ++ es.flatMap Encoder.data) (l.map value) := by
  have hlength : (UInt32.ofNat l.length).toNat = l.length :=
    UInt32.toNat_ofNat_of_lt (Nat.lt_trans hl (by decide))
  rw [ofInt_natCast, h.length_eq]
  refine (Decoder.reads_decodeInt32 _).bind ?_
  rw [hlength, signed32_of_lt hl, Int.toNat_natCast]
  exact reads_times_of_forall₂ h hfuel

theorem denotes_tuple (hl : l.length < 2 ^ 31)
    (h : List.Forall₂ (fun e a ↦ Denotes e.data (value a)) es l) :
    Denotes (0x28 :: bigEndian32 (UInt32.ofInt es.length) ++ es.flatMap Encoder.data)
      (.list (l.map value)) := by
  rw [List.cons_append]
  refine .of_dispatch ?_ fun fuel hfuel ↦ ?_
  · rw [List.length_append, length_bigEndian32, sum_size_of_forall₂ h, PyValue.size]
    omega
  · rw [PyValue.size] at hfuel
    exact (reads_decodeTuple_of_forall₂ hl h (by omega)).map PyValue.list

theorem size_of_forall₂ (h : List.Forall₂ (fun e a ↦ Denotes e.data (value a)) es l)
    (hsize : ∀ a ∈ l, (value a).size < 2 ^ 31) : ∀ e ∈ es, e.size < 2 ^ 31 := by
  induction h with
  | nil => exact fun _ he ↦ absurd he List.not_mem_nil
  | cons hdata _ ih =>
    obtain ⟨ha, hl⟩ := List.forall_mem_cons.1 hsize
    refine List.forall_mem_cons.2 ⟨?_, ih hl⟩
    rw [Encoder.size, hdata.length]
    exact ha

/-- **A tuple is read back**, if its items are and none of them is too large. -/
theorem addTuple_denotes (hl : l.length < 2 ^ 31) (hsize : ∀ a ∈ l, (value a).size < 2 ^ 31)
    (h : ∀ a ∈ l, ∃ e, encode a = some e ∧ Denotes e.data (value a)) :
    ∃ e, (l.mapM encode).bind (fun items ↦ Encoder.new.addTupleFromSlist items.reverse) = some e ∧
      Denotes e.data (.list (l.reverse.map value)) := by
  obtain ⟨es, hes, hdatas⟩ := mapM_encode h
  have hrev := List.forall₂_reverse_iff.2 hdatas
  have hshort := size_of_forall₂ hrev fun a ha ↦ hsize a (List.mem_reverse.1 ha)
  have htuple := denotes_tuple (by simpa using hl) hrev
  have hle : PyValue.sizes (l.reverse.map value) ≤ l.length * 2 ^ 31 := by
    have hle := PyValue.sizes_le (l := l.reverse.map value) (by simpa using hsize)
    rwa [List.length_map, List.length_reverse] at hle
  obtain ⟨e, he, hdata⟩ := (Encoder.adds_addTupleFromSlist hshort).new (by
    rw [htuple.length, PyValue.size]
    omega)
  refine ⟨e, ?_, hdata ▸ htuple⟩
  rw [hes, Option.bind_some, he]

end

/-! ### A firewall -/

/-- What the client reads of a firewall. -/
def NufwEntry.toPy (now : Int) (s : NufwEntry) : PyValue :=
  .nufw (int32 s.protoVersion.toNat) (int32 s.fd) (ofBigEndian s.peername.toList)
    (seconds s.connectTimestamp) (int32 (now - s.connectTimestamp)) (int32 s.usage) s.alive

/-- **A firewall is read back.** -/
theorem encodeNufw_denotes (now : Int) (s : NufwEntry) :
    ∃ e, encodeNufw now s = some e ∧ Denotes e.data (s.toPy now) := by
  have hadds := (Encoder.adds_addBytecode 0x77).bind <|
    (Encoder.adds_addInt32 s.protoVersion.toNat).bind <| (Encoder.adds_addInt32 s.fd).bind <|
    (Encoder.adds_addIpv6 s.peername).bind <| (Encoder.adds_addTimestamp s.connectTimestamp).bind <|
    (Encoder.adds_addInt32 (now - s.connectTimestamp)).bind <|
    (Encoder.adds_addInt32 s.usage).bind (Encoder.adds_addBool s.alive)
  obtain ⟨e, he, hdata⟩ := hadds.new (by simp)
  refine ⟨e, he, ?_⟩
  rw [hdata]
  refine .of_dispatch (by simp [NufwEntry.toPy, PyValue.size]) fun fuel _ ↦ ?_
  exact (Decoder.reads_readInt32 _).bind <| (Decoder.reads_readInt32 _).bind <|
    (Decoder.reads_readIPv6 _).bind <| (Decoder.reads_readTimestamp _).bind <|
    (Decoder.reads_readInt32 _).bind <| (Decoder.reads_readInt32 _).bind <|
    (Decoder.reads_readBool _).bind_pure rfl

/-! ### A user -/

/-- What the client reads of a group. -/
def GroupData.toPy : GroupData → PyValue
  | .gid id => .int (int32 id.toNat)
  | .name text => .str text

theorem encodeGroup_denotes {g : GroupData} (h : g.toPy.size < 2 ^ 31) :
    ∃ e, encodeGroup g = some e ∧ Denotes e.data g.toPy := by
  cases g with
  | gid id =>
    obtain ⟨e, he, hdata⟩ := (Encoder.adds_addInt32 id.toNat).new (by simp)
    exact ⟨e, he, hdata ▸ denotes_int32 id.toNat⟩
  | name text =>
    rw [GroupData.toPy, PyValue.size] at h
    have hshort : text.length < 2 ^ 31 := by omega
    obtain ⟨e, he, hdata⟩ := (Encoder.adds_addString hshort).new (by simp; omega)
    exact ⟨e, he, hdata ▸ denotes_string hshort⟩

/-- A `User` for a session, with some version of its client. -/
def UserEntry.toPy (clientVersion : PyValue) (now : Int) (s : UserEntry) : PyValue :=
  .user clientVersion (int32 s.socket) s.userName.bytes (ofBigEndian s.addr.toList)
    (int32 s.sport.toNat) (int32 s.userId.toNat) (s.groups.reverse.map GroupData.toPy)
    (seconds s.connectTimestamp) (int32 (now - s.connectTimestamp))
    (if int32 s.expire < 0 then none else some (int32 s.expire)) s.sysname.bytes s.release.bytes
    (.str s.version.bytes) s.activated (int32 s.rxPckts) (int32 s.errorPckts)
    (int32 s.spoofedPckts) (int32 s.helloPckts)

/-- The `User` that the client makes of a session: the version of its client is that of its
operating system. -/
def UserEntry.read (now : Int) (s : UserEntry) : PyValue := s.toPy (.str s.version.bytes) now

/-- The bytes of `encoder_add_int32`. -/
def int32Bytes (i : Int) : Bytes := 0x69 :: bigEndian32 (UInt32.ofInt i)

/-- The bytes of `encoder_add_string`. -/
def stringBytes (text : Bytes) : Bytes := 0x73 :: bigEndian32 (UInt32.ofInt text.length) ++ text

/-- The fields of a user, behind the bytecode, with the bytes of the groups. -/
def UserEntry.bytes (now : Int) (s : UserEntry) (groups : Bytes) : Bytes :=
  int32Bytes s.protoVersion ++ (int32Bytes s.socket ++ (stringBytes s.userName.bytes ++
    (0x70 :: s.addr.toList ++ (int32Bytes s.sport.toNat ++ (int32Bytes s.userId.toNat ++
    (0x28 :: groups ++ (0x74 :: bigEndian32 (UInt32.ofInt s.connectTimestamp) ++
    (int32Bytes (now - s.connectTimestamp) ++ (int32Bytes s.expire ++
    (stringBytes s.sysname.bytes ++ (stringBytes s.release.bytes ++
    (stringBytes s.version.bytes ++ ([0x62, if s.activated then 1 else 0] ++
    (int32Bytes s.rxPckts ++ (int32Bytes s.helloPckts ++ (int32Bytes s.spoofedPckts ++
    int32Bytes s.errorPckts))))))))))))))))

@[simp] theorem length_int32Bytes (i : Int) : (int32Bytes i).length = 5 := by
  rw [int32Bytes, List.length_cons, length_bigEndian32]

@[simp] theorem length_stringBytes (text : Bytes) :
    (stringBytes text).length = 5 + text.length := by
  rw [stringBytes, List.length_append, List.length_cons, length_bigEndian32]

theorem UserEntry.length_bytes (now : Int) (s : UserEntry) (groups : Bytes) :
    (s.bytes now groups).length = 95 + s.userName.bytes.length + groups.length +
      s.sysname.bytes.length + s.release.bytes.length + s.version.bytes.length := by
  simp only [bytes, List.length_append, List.length_cons, length_int32Bytes, length_stringBytes,
    Vector.length_toList, length_bigEndian32, List.length_nil]
  omega

/-- **The fields of a user are added.** -/
theorem adds_addUserEntry (now : Int) (s : UserEntry) {groups : List Encoder}
    (hshort : ∀ e ∈ groups, e.size < 2 ^ 31) :
    Encoder.Adds (Encoder.addUserEntry now s groups) ([0x75] ++ s.bytes now
      (bigEndian32 (UInt32.ofInt groups.length) ++ groups.flatMap Encoder.data)) :=
  (Encoder.adds_addBytecode 0x75).bind <|
    (Encoder.adds_addInt32 s.protoVersion).bind <| (Encoder.adds_addInt32 s.socket).bind <|
    (Encoder.adds_addString s.userName.short).bind <| (Encoder.adds_addIpv6 s.addr).bind <|
    (Encoder.adds_addInt32 s.sport.toNat).bind <| (Encoder.adds_addInt32 s.userId.toNat).bind <|
    (Encoder.adds_addTupleFromSlist hshort).bind <|
    (Encoder.adds_addTimestamp s.connectTimestamp).bind <|
    (Encoder.adds_addInt32 (now - s.connectTimestamp)).bind <|
    (Encoder.adds_addInt32 s.expire).bind <| (Encoder.adds_addString s.sysname.short).bind <|
    (Encoder.adds_addString s.release.short).bind <|
    (Encoder.adds_addString s.version.short).bind <|
    (Encoder.adds_addBool s.activated).bind <| (Encoder.adds_addInt32 s.rxPckts).bind <|
    (Encoder.adds_addInt32 s.helloPckts).bind <| (Encoder.adds_addInt32 s.spoofedPckts).bind
    (Encoder.adds_addInt32 s.errorPckts)

theorem reads_decodeUser {now : Int} {s : UserEntry} {groups : Bytes} {decode : Decoder PyValue}
    (h : Reads (Decoder.decodeTuple decode) groups (s.groups.reverse.map GroupData.toPy)) :
    Reads (Decoder.decodeUser decode) (s.bytes now groups) (s.read now) := by
  have hstring (text : CString) : Reads Decoder.readString (stringBytes text.bytes) text.bytes := by
    rw [stringBytes, ofInt_natCast]
    exact Decoder.reads_readString text.short
  exact (Decoder.reads_readInt32 _).bind <| (Decoder.reads_readInt32 _).bind <|
    (hstring s.userName).bind <| (Decoder.reads_readIPv6 _).bind <|
    (Decoder.reads_readInt32 _).bind <| (Decoder.reads_readInt32 _).bind <|
    ((Decoder.reads_checkBytecode 0x28).bind h).bind <|
    (Decoder.reads_readTimestamp _).bind <| (Decoder.reads_readInt32 _).bind <|
    (Decoder.reads_readInt32 _).bind <| (hstring s.sysname).bind <|
    (hstring s.release).bind <| ((hstring s.version).map PyValue.str).bind <|
    (Decoder.reads_readBool _).bind <| (Decoder.reads_readInt32 _).bind <|
    (Decoder.reads_readInt32 _).bind <| (Decoder.reads_readInt32 _).bind <|
    (Decoder.reads_readInt32 _).bind_pure rfl

/-- **A user is read back**, but for the version of its client. -/
theorem encodeUser_denotes {now : Int} {s : UserEntry} (hcount : s.groups.length < 2 ^ 31)
    (hgroups : ∀ g ∈ s.groups, g.toPy.size < 2 ^ 31) :
    ∃ e, encodeUser now s = some e ∧ Denotes e.data (s.read now) := by
  obtain ⟨es, hes, hdatas⟩ := mapM_encode fun g hg ↦ encodeGroup_denotes (hgroups g hg)
  have hrev := List.forall₂_reverse_iff.2 hdatas
  have hshort := size_of_forall₂ hrev fun g hg ↦ hgroups g (List.mem_reverse.1 hg)
  have hle : PyValue.sizes (s.groups.reverse.map GroupData.toPy) ≤ s.groups.length * 2 ^ 31 := by
    have hle := PyValue.sizes_le (l := s.groups.reverse.map GroupData.toPy) (by simpa using hgroups)
    rwa [List.length_map, List.length_reverse] at hle
  have hsize : (s.read now).size = 100 + s.userName.bytes.length +
      PyValue.sizes (s.groups.reverse.map GroupData.toPy) + s.sysname.bytes.length +
      s.release.bytes.length + s.version.bytes.length := by
    rw [UserEntry.read, UserEntry.toPy, PyValue.size, PyValue.size]
    omega
  have hlength : (s.bytes now (bigEndian32 (UInt32.ofInt es.reverse.length) ++
      es.reverse.flatMap Encoder.data)).length + 1 = (s.read now).size := by
    rw [UserEntry.length_bytes, List.length_append, length_bigEndian32, sum_size_of_forall₂ hrev,
      hsize]
    omega
  have hfits : (s.read now).size * 3 < 2 ^ 64 := by
    have hname := s.userName.short
    have hsysname := s.sysname.short
    have hrelease := s.release.short
    have hversion := s.version.short
    omega
  obtain ⟨e, he, hdata⟩ := (adds_addUserEntry now s hshort).new (by
    rw [List.singleton_append, List.length_cons, hlength]
    exact hfits)
  refine ⟨e, ?_, ?_⟩
  · rw [encodeUser, hes, Option.bind_eq_bind, Option.bind_some, he]
  · rw [hdata, List.singleton_append]
    exact .of_dispatch hlength fun fuel hfuel ↦ reads_decodeUser
      (reads_decodeTuple_of_forall₂ (by simpa using hcount) hrev (by omega))

/-! ### The listings -/

/-- An integer that 32 bits with a sign hold. -/
def Within31 (i : Int) : Prop := -2 ^ 31 ≤ i ∧ i < 2 ^ 31

/-- A time that 31 bits hold. -/
def Time31 (i : Int) : Prop := 0 ≤ i ∧ i < 2 ^ 31

instance decidableWithin31 (i : Int) : Decidable (Within31 i) := inferInstanceAs (Decidable (_ ∧ _))

instance decidableTime31 (i : Int) : Decidable (Time31 i) := inferInstanceAs (Decidable (_ ∧ _))

theorem Within31.int32 {i : Int} (h : Within31 i) : int32 i = i := int32_of_within h.1 h.2

theorem Time31.seconds {i : Int} (h : Time31 i) : seconds i = i.toNat :=
  seconds_of_within h.1 (Int.lt_trans h.2 (by decide))

theorem Time31.sub {i j : Int} (hi : Time31 i) (hj : Time31 j) : Within31 (i - j) := by
  obtain ⟨hi, hi'⟩ := hi
  obtain ⟨hj, hj'⟩ := hj
  exact ⟨by omega, by omega⟩

/-- The integers of a firewall are below 2^31. -/
structure NufwEntry.InRange (s : NufwEntry) : Prop where
  fd : Within31 s.fd
  connectTimestamp : Time31 s.connectTimestamp
  usage : Within31 s.usage

/-- A firewall, each value in its own field. -/
def NufwEntry.listed (now : Int) (s : NufwEntry) : PyValue :=
  .nufw s.protoVersion.toNat s.fd (ofBigEndian s.peername.toList) s.connectTimestamp.toNat
    (now - s.connectTimestamp) s.usage s.alive

/-- The number of a group is below 2^31, and the bytes of its name too. -/
def GroupData.InRange : GroupData → Prop
  | .gid id => id.toNat < 2 ^ 31
  | .name text => 5 + text.length < 2 ^ 31

/-- A group. -/
def GroupData.listed : GroupData → PyValue
  | .gid id => .int id.toNat
  | .name text => .str text

/-- The integers of a user are below 2^31, and so is the number of its groups. -/
structure UserEntry.InRange (s : UserEntry) : Prop where
  protoVersion : Within31 s.protoVersion
  socket : Within31 s.socket
  userId : s.userId.toNat < 2 ^ 31
  groups : ∀ g ∈ s.groups, g.InRange
  count : s.groups.length < 2 ^ 31
  connectTimestamp : Time31 s.connectTimestamp
  expire : Within31 s.expire
  rxPckts : Within31 s.rxPckts
  helloPckts : Within31 s.helloPckts
  spoofedPckts : Within31 s.spoofedPckts
  errorPckts : Within31 s.errorPckts

/-- A user, each value in its own field. The version of the client and the groups are given. -/
def UserEntry.listed (clientVersion : PyValue) (groups : List PyValue) (now : Int) (s : UserEntry) :
    PyValue :=
  .user clientVersion s.socket s.userName.bytes (ofBigEndian s.addr.toList) s.sport.toNat
    s.userId.toNat groups s.connectTimestamp.toNat (now - s.connectTimestamp)
    (if s.expire < 0 then none else some s.expire) s.sysname.bytes s.release.bytes
    (.str s.version.bytes) s.activated s.rxPckts s.errorPckts s.spoofedPckts s.helloPckts

/-- **The users are listed**: `users` gives a tuple in which the client finds them all. -/
def UsersListed (now : Int) (users : List UserEntry) : Prop :=
  ∃ e xs, commandUsers now users Encoder.new = some e ∧
    pyDecode e.data = .ok (.list xs, (Decoder.start e.data).advance e.size) ∧
    List.Forall₂ (fun x s ↦ ∃ groups, groups.Perm (s.groups.map GroupData.listed) ∧
      x = UserEntry.listed (.int s.protoVersion) groups now s) xs users.reverse

/-- **The firewalls are listed.** -/
def ServersListed (now : Int) (servers : List NufwEntry) : Prop :=
  ∃ e, commandServers now servers Encoder.new = some e ∧
    pyDecode e.data = .ok (.list (servers.reverse.map (NufwEntry.listed now)),
      (Decoder.start e.data).advance e.size)

theorem NufwEntry.toPy_of_inRange {now : Int} (hnow : Time31 now) {s : NufwEntry} (h : s.InRange) :
    s.toPy now = s.listed now := by
  have hversion : Within31 s.protoVersion.toNat :=
    ⟨by omega, by have := s.protoVersion.toNat_lt; omega⟩
  rw [toPy, listed, hversion.int32, h.fd.int32, h.connectTimestamp.seconds,
    (hnow.sub h.connectTimestamp).int32, h.usage.int32]

theorem GroupData.toPy_of_inRange {g : GroupData} (h : g.InRange) :
    g.toPy = g.listed ∧ g.toPy.size < 2 ^ 31 := by
  cases g with
  | gid id =>
    have hid : Within31 id.toNat := ⟨by omega, by rw [InRange] at h; omega⟩
    rw [toPy, listed, hid.int32, PyValue.size]
    exact ⟨rfl, by decide⟩
  | name text => exact ⟨rfl, h⟩

theorem UserEntry.read_of_inRange {now : Int} (hnow : Time31 now) {s : UserEntry} (h : s.InRange) :
    s.read now =
      s.listed (.str s.version.bytes) (s.groups.reverse.map GroupData.listed) now := by
  have hsport : Within31 s.sport.toNat := ⟨by omega, by have := s.sport.toNat_lt; omega⟩
  have hid : Within31 s.userId.toNat := ⟨by omega, by have := h.userId; omega⟩
  have hgroups : s.groups.reverse.map GroupData.toPy = s.groups.reverse.map GroupData.listed :=
    List.map_congr_left fun g hg ↦
      (GroupData.toPy_of_inRange (h.groups g (List.mem_reverse.1 hg))).1
  rw [read, toPy, listed, h.socket.int32, hsport.int32, hid.int32, hgroups,
    h.connectTimestamp.seconds, (hnow.sub h.connectTimestamp).int32, h.expire.int32,
    h.rxPckts.int32, h.errorPckts.int32, h.spoofedPckts.int32, h.helloPckts.int32]

/-- Bytes that stand for a value are decoded to it. -/
theorem Denotes.pyDecode {bs : Bytes} {x : PyValue} (h : Denotes bs x) :
    pyDecode bs = .ok (x, (Decoder.start bs).advance bs.length) := by
  have hlength := h.length
  have hhas := Cursor.has_start bs []
  rw [List.append_nil] at hhas
  exact h.reads (by omega) _ hhas

theorem commandServers_denotes {servers : List NufwEntry} (h : servers.length < 2 ^ 31)
    (now : Int) :
    ∃ e, commandServers now servers Encoder.new = some e ∧
      Denotes e.data (.list (servers.reverse.map (NufwEntry.toPy now))) :=
  addTuple_denotes h (fun s _ ↦ by rw [NufwEntry.toPy, PyValue.size]; decide)
    fun s _ ↦ encodeNufw_denotes now s

theorem serversListed_iff {now : Int} (hnow : Time31 now) {servers : List NufwEntry}
    (h : ∀ s ∈ servers, s.InRange) : ServersListed now servers ↔ servers.length < 2 ^ 31 := by
  constructor
  · rintro ⟨e, -, hdecode⟩
    obtain ⟨-, -, hdecoded⟩ := Decoder.spends_decode _ _ _ _ hdecode
    cases hdecoded with
    | list hlength _ => simpa using hlength
    | other h => exact absurd rfl (h _)
  · intro hlength
    obtain ⟨e, he, hdenotes⟩ := commandServers_denotes hlength now
    refine ⟨e, he, ?_⟩
    have hmap :
        servers.reverse.map (NufwEntry.toPy now) = servers.reverse.map (NufwEntry.listed now) :=
      List.map_congr_left fun s hs ↦ NufwEntry.toPy_of_inRange hnow (h s (List.mem_reverse.1 hs))
    rw [hdenotes.pyDecode, hmap]
    rfl

/-- What a user is worth bounds its groups. -/
theorem UserEntry.sizes_le_size_read (now : Int) (s : UserEntry) :
    PyValue.sizes (s.groups.reverse.map GroupData.toPy) ≤ (s.read now).size := by
  rw [read, toPy, PyValue.size]
  omega

theorem commandUsers_denotes {now : Int} {users : List UserEntry} (h : users.length < 2 ^ 31)
    (hsize : ∀ s ∈ users, (s.read now).size < 2 ^ 31) :
    ∃ e, commandUsers now users Encoder.new = some e ∧
      Denotes e.data (.list (users.reverse.map (UserEntry.read now))) := by
  refine addTuple_denotes h hsize fun s hs ↦ encodeUser_denotes ?_ fun g hg ↦ ?_
  · have hcount := PyValue.length_le_sizes (s.groups.reverse.map GroupData.toPy)
    have hread := hsize s hs
    have hle := s.sizes_le_size_read now
    rw [List.length_map, List.length_reverse] at hcount
    omega
  · have hmem : g.toPy ∈ s.groups.reverse.map GroupData.toPy :=
      List.mem_map_of_mem (List.mem_reverse.2 hg)
    have hgroup := PyValue.size_le_sizes hmem
    have hread := hsize s hs
    have hle := s.sizes_le_size_read now
    omega

/-- **No user is listed as it is.** -/
theorem usersListed_iff (now : Int) (users : List UserEntry) :
    UsersListed now users ↔ users = [] := by
  constructor
  · rintro ⟨e, xs, -, hdecode, hxs⟩
    obtain ⟨-, -, hdecoded⟩ := Decoder.spends_decode _ _ _ _ hdecode
    cases hdecoded with
    | other h => exact absurd rfl (h _)
    | list _ hitems =>
      rcases hrev : users.reverse with _ | ⟨s, l⟩
      · exact List.reverse_eq_nil_iff.1 hrev
      · rw [hrev] at hxs
        obtain _ | ⟨⟨groups, -, rfl⟩, -⟩ := hxs
        -- the version of the client of a decoded user is a text
        cases hitems _ List.mem_cons_self with
        | other _ hversion =>
          obtain ⟨text, htext⟩ := hversion _ rfl
          cases htext
  · rintro rfl
    have hshort : ∀ s ∈ ([] : List UserEntry), (s.read now).size < 2 ^ 31 := by simp
    obtain ⟨e, he, hdenotes⟩ := commandUsers_denotes (by decide) hshort
    exact ⟨e, [], he, hdenotes.pyDecode, .nil⟩

/-- **Firewalls survive the protocol, users do not.** With integers below 2^31, the firewalls are
all listed, each value in its own field, if and only if there are fewer than 2^31; the users only if
there are none. Of a user the client gets every field right but one: it takes the version of the
operating system for that of the client. -/
theorem listings_read_iff {now : Int} (hnow : Time31 now) (users : List UserEntry)
    {servers : List NufwEntry} (hservers : ∀ s ∈ servers, s.InRange) :
    (UsersListed now users ↔ users = []) ∧
    (ServersListed now servers ↔ servers.length < 2 ^ 31) ∧
    ∀ s ∈ users, s.InRange → ∃ e groups, encodeUser now s = some e ∧
      groups.Perm (s.groups.map GroupData.listed) ∧
      pyDecode e.data = .ok (s.listed (.str s.version.bytes) groups now,
        (Decoder.start e.data).advance e.size) := by
  refine ⟨usersListed_iff now users, serversListed_iff hnow hservers, fun s _ hs ↦ ?_⟩
  obtain ⟨e, he, hdenotes⟩ := encodeUser_denotes hs.count fun g hg ↦
    (GroupData.toPy_of_inRange (hs.groups g hg)).2
  refine ⟨e, s.groups.reverse.map GroupData.listed, he, (List.reverse_perm _).map _, ?_⟩
  rw [hdenotes.pyDecode, UserEntry.read_of_inRange hnow hs]
  rfl

/-- A firewall that has been connected for a minute. -/
def gatewayEntry : NufwEntry where
  protoVersion := 5
  fd := 12
  peername := serverAddr
  connectTimestamp := 1000
  usage := 1
  alive := true

/-- It is listed. -/
theorem gateway_listed : ServersListed 1060 [gatewayEntry] := by
  have h : ∀ s ∈ [gatewayEntry], s.InRange := by
    intro s hs
    obtain rfl := List.mem_singleton.1 hs
    exact ⟨by decide, by decide, by decide⟩
  exact ((listings_read_iff (by decide) [] h).2.1).2 (by decide)

/-- A user of a client of the fifth version of the protocol. -/
def aliceEntry : UserEntry where
  protoVersion := 5
  socket := 14
  userName := ⟨ascii "alice", by decide, by decide⟩
  addr := clientAddr
  sport := 4129
  userId := 1042
  groups := [.gid 100, .gid 513]
  connectTimestamp := 1000
  expire := -1
  sysname := ⟨ascii "Linux", by decide, by decide⟩
  release := ⟨ascii "2.6.24", by decide, by decide⟩
  version := ⟨ascii "SMP", by decide, by decide⟩
  activated := true
  rxPckts := 7
  helloPckts := 3
  spoofedPckts := 0
  errorPckts := 0

/-- **The client of a user has the version of its operating system**: the listing of one user is
wrong. -/
theorem alice_not_listed : aliceEntry.InRange ∧ ¬UsersListed 1060 [aliceEntry] := by
  constructor
  · refine ⟨by decide, by decide, by decide, ?_, by decide, by decide, by decide, by decide,
      by decide, by decide, by decide⟩
    intro g hg
    obtain rfl | hg := List.mem_cons.1 hg
    · exact (by decide : (100 : UInt32).toNat < 2 ^ 31)
    · obtain rfl := List.mem_singleton.1 hg
      exact (by decide : (513 : UInt32).toNat < 2 ^ 31)
  · intro h
    cases (usersListed_iff _ _).1 h

end Nufw
