import Nufw.Nubase.Strings
import Nufw.Nuauth.Connections

/-!
# Packets of the users

`user_authsrv.c`, with `treat_user_request` of `tls_user.c`: the bytes a client sends become
connections that wait for the request of a gateway, or answer a hello.

The parser works in place. It rewrites the lengths it meets from network order to the order of the
host, and since nothing makes a field longer than its header, the next field can start inside the
one before: the memory is therefore carried from one field to the next. A field of length zero is
read again for ever, so the loops have a number of turns and give `none` when it does not suffice.
An empty list is the `NULL` of the source.

The bytes come from `nussl_read`, which gives at most what is asked for. Base 64 and character
sets are decoded by libraries, and messages of the extended protocol go to the modules; these are
the fields of `UserEnv`.
-/

namespace Nufw

/-! ### Sessions and buffers -/

/-- `user_session_t`, as far as packets are concerned. -/
structure UserSession where
  addr : In6Addr
  userName : Option Bytes
  userId : UInt32
  groups : List GroupData
  sysname : Option Bytes
  release : Option Bytes
  version : Option Bytes
  protoVersion : ℕ
  authQuality : Int
  lastRequest : Int
  rxPckts : ℕ
  errorPckts : ℕ
  spoofedPckts : ℕ
  helloPckts : ℕ

/-- `struct tls_buffer_read`. -/
structure TlsBufferRead where
  ipAddr : In6Addr
  userName : Option Bytes
  userId : UInt32
  groups : List GroupData
  osSysname : Option Bytes
  osRelease : Option Bytes
  osVersion : Option Bytes
  buffer : Memory
  bufferLen : ℕ
  protoVersion : ℕ
  authQuality : Int

/-- What the parser takes from outside. -/
structure UserEnv where
  order : ByteOrder
  /-- `sasl_decode64`, and nothing when it does not return `SASL_OK`. -/
  saslDecode64 : Bytes → Option Bytes
  /-- `g_locale_from_utf8`. -/
  localeFromUtf8 : Bytes → Option Bytes
  /-- `process_ext_message` returns `SASL_OK`; nothing when no extension is registered. -/
  processExtMessage : Option (Memory → ℕ → Bool)

/-- `PROTO_VERSION_V20`. -/
def protoVersionV20 : ℕ := 3
/-- `PROTO_VERSION_V22`. -/
def protoVersionV22 : ℕ := 4
/-- `PROTO_VERSION_V22_1`. -/
def protoVersionV22_1 : ℕ := 5
/-- `PROTO_VERSION_V24`. -/
def protoVersionV24 : ℕ := 6

/-- `USER_REQUEST`. -/
def userRequestType : UInt8 := 3
/-- `USER_HELLO`. -/
def userHelloType : UInt8 := 5
/-- `EXTENDED_PROTO`. -/
def extendedProtoType : UInt8 := 9

/-- `IPV4_FIELD`. -/
def ipv4Field : UInt8 := 1
/-- `IPV6_FIELD`. -/
def ipv6Field : UInt8 := 2
/-- `APP_FIELD`. -/
def appField : UInt8 := 3
/-- `HELLO_FIELD`. -/
def helloField : UInt8 := 6
/-- `HASH_FIELD`. -/
def hashField : UInt8 := 9

/-- `CLASSIC_NUFW_PACKET_SIZE`. -/
def classicNufwPacketSize : ℕ := 1400
/-- `MAX_NUFW_PACKET_SIZE`. -/
def maxNufwPacketSize : ℕ := 1800

/-- `INVALID_ENC_NAME`. -/
def invalidEncName : Bytes := [73, 78, 86, 65, 76, 73, 68, 32, 78, 65, 77, 69]

/-- `string_escape`. -/
def stringEscape (conf : Params) (env : UserEnv) (orig : Bytes) : Bytes :=
  if conf.usesUtf8 then (env.localeFromUtf8 orig).getD invalidEncName else orig

/-- `duplicate_str_list`, which turns the list around. -/
def duplicateStrList (l : List GroupData) : List GroupData := l.reverse

/-- The copy of a list of groups. -/
def copyGroups (conf : Params) (groups : List GroupData) : List GroupData :=
  if conf.useGroupsName then duplicateStrList groups else groups

/-! ### Fields -/

/-- `user_process_field_hello`. -/
def userProcessFieldHello (env : UserEnv) (connection : Connection) (field : Memory) :
    Connection :=
  { connection with packetId := [⟨field.host32 env.order 4, none⟩] }

/-- `user_process_field_ipv6`. -/
def userProcessFieldIpv6 (connection : Connection) (field : Memory) : Option Connection :=
  let tracking := { connection.tracking with
    saddr := field.bytes 4 16
    daddr := field.bytes 20 16
    protocol := field 36 }
  if tracking.protocol = ipprotoTcp ∨ tracking.protocol = ipprotoUdp then
    some { connection with tracking := { tracking with
      source := field.be16 40
      dest := field.be16 42
      type := 0
      code := 0 } }
  else if tracking.protocol = ipprotoIcmp ∨ tracking.protocol = ipprotoIcmpv6 then
    some { connection with tracking := { tracking with
      source := 0
      dest := 0
      type := (field.be16 40).toUInt8
      code := (field.be16 42).toUInt8 } }
  else none

/-- `user_process_field_ipv4`, which does not know ICMPv6. -/
def userProcessFieldIpv4 (connection : Connection) (field : Memory) : Option Connection :=
  let tracking := { connection.tracking with
    saddr := uint32ToIpv6 (field.bytes 4 4)
    daddr := uint32ToIpv6 (field.bytes 8 4)
    protocol := field 12 }
  if tracking.protocol = ipprotoTcp ∨ tracking.protocol = ipprotoUdp then
    some { connection with tracking := { tracking with
      source := field.be16 16
      dest := field.be16 18
      type := 0
      code := 0 } }
  else if tracking.protocol = ipprotoIcmp then
    some { connection with tracking := { tracking with
      source := 0
      dest := 0
      type := (field.be16 16).toUInt8
      code := (field.be16 18).toUInt8 } }
  else none

/-- The length of a field without its header, as an `unsigned int`. -/
def contentLength (env : UserEnv) (field : Memory) : ℕ :=
  ((field.host16 env.order 2).toNat + 2 ^ 32 - 4) % 2 ^ 32

/-- `user_process_field_app`. -/
def userProcessFieldApp (conf : Params) (env : UserEnv) (connection : Connection)
    (fieldBufferLen : ℕ) (field : Memory) : Option Connection :=
  let len := contentLength env field
  if fieldBufferLen < (field.host16 env.order 2).toNat then none
  else if len > 512 ∨ len = 0 then some { connection with appName := none }
  else
    match env.saslDecode64 (field.bytes 4 len).toList with
    | none => none
    | some decAppname =>
      some { connection with appName := some (stringEscape conf env (cString decAppname)) }

/-- `user_process_field_hash`, which never fails. -/
def userProcessFieldHash (env : UserEnv) (connection : Connection) (fieldBufferLen : ℕ)
    (field : Memory) : Connection :=
  let len := contentLength env field
  if fieldBufferLen < (field.host16 env.order 2).toNat then { connection with appSig := none }
  else if len > 256 ∨ len = 0 then { connection with appSig := none }
  else { connection with appSig := some (cString (field.bytes 4 len).toList) }

/-- The switch of `user_process_field` over the type of the field, whose length is already in the
order of the host. -/
def userProcessFieldType (conf : Params) (env : UserEnv) (connection : Connection)
    (authBufferLen : Int) (field : Memory) : Option Connection :=
  let length := (field.host16 env.order 2).toNat
  if field 0 = ipv6Field then
    if authBufferLen < 44 then none else userProcessFieldIpv6 connection field
  else if field 0 = ipv4Field then
    if authBufferLen < 20 then none
    else if connection.protoVersion = protoVersionV20 then userProcessFieldIpv4 connection field
    else if connection.protoVersion = protoVersionV22 ∨
        connection.protoVersion = protoVersionV24 then none
    else some connection
  else if field 0 = appField then
    if authBufferLen < 4 then none else userProcessFieldApp conf env connection length field
  else if field 0 = hashField then
    if authBufferLen < 4 then none else some (userProcessFieldHash env connection length field)
  else if field 0 = helloField then
    if authBufferLen < 8 then none else some (userProcessFieldHello env connection field)
  else none

/-- `user_process_field`, on the field at offset `o`: its length, the memory and the connection,
or nothing for a negative return. -/
def userProcessField (conf : Params) (env : UserEnv) (connection : Connection)
    (authBufferLen : Int) (m : Memory) (o : ℕ) : Option (ℕ × Memory × Connection) :=
  let m := m.swap16 env.order (o + 2)
  let field := m.drop o
  let length := (field.host16 env.order 2).toNat
  if authBufferLen < length then none
  else (userProcessFieldType conf env connection authBufferLen field).map fun c ↦ (length, m, c)

/-- The loop of `user_request` over the fields of one request. The outer `none` is a loop that has
not ended within `fuel` turns, the inner one an error. -/
def userFields (conf : Params) (env : UserEnv) :
    ℕ → Memory → ℕ → Int → Connection → Option (Option (Memory × Connection))
  | 0, _, _, _, _ => none
  | fuel + 1, m, o, authBufferLen, connection =>
    if authBufferLen ≤ 0 then some (some (m, connection))
    else if authBufferLen < 4 then some none
    else
      match userProcessField conf env connection authBufferLen m o with
      | none => some none
      | some (fieldLength, m, connection) =>
        userFields conf env fuel m (o + fieldLength) (authBufferLen - fieldLength) connection

/-! ### Requests -/

/-- The connection `user_request` allocates. -/
def newUserConnection (data : TlsBufferRead) : Connection :=
  { Connection.zero with
    expire := -1
    protoVersion := data.protoVersion
    authQuality := data.authQuality
    decision := .nodecide }

/-- The end of one request: the sanity check, and what comes from the session. -/
def userRequestEnd (conf : Params) (data : TlsBufferRead) (now : Int) (connection : Connection) :
    Option Connection :=
  if (ipv6Equal connection.tracking.saddr in6addrAny ∨ connection.appName = none) ∧
      connection.packetId = [] then none
  else
    let userGroups := copyGroups conf data.groups
    if userGroups = [] then none
    else some { connection with
      username := connection.username.or data.userName
      userId := data.userId
      userGroups := userGroups
      osSysname := data.osSysname
      osRelease := data.osRelease
      osVersion := data.osVersion
      protoVersion := data.protoVersion
      state := .userpckt
      aclGroups := []
      timestamp := now }

/-- The loop of `user_request` over the requests of a message. -/
def userRequestLoop (conf : Params) (env : UserEnv) (data : TlsBufferRead) (clock : ℕ → Int) :
    ℕ → Memory → ℕ → Int → List Connection → Option (List Connection)
  | 0, _, _, _, _ => none
  | fuel + 1, m, start, bufferLen, connElts =>
    if bufferLen ≤ 0 then some connElts
    else if bufferLen < 4 then some []
    else
      let m := m.swap16 env.order (start + 2)
      let packetLength := (m.host16 env.order (start + 2)).toNat
      if packetLength = 0 ∨ bufferLen < packetLength then some []
      else
        match userFields conf env fuel m (start + 4) (packetLength - 4)
          (newUserConnection data) with
        | none => none
        | some none => some []
        | some (some (m, connection)) =>
          match userRequestEnd conf data (clock start) connection with
          | none => some []
          | some connection =>
            let packetLength := (m.host16 env.order (start + 2)).toNat
            userRequestLoop conf env data clock fuel m (start + packetLength)
              (bufferLen - packetLength) (connection :: connElts)

/-- `user_request`. -/
def userRequest (conf : Params) (env : UserEnv) (clock : ℕ → Int) (fuel : ℕ)
    (data : TlsBufferRead) : Option (List Connection) :=
  userRequestLoop conf env data clock fuel data.buffer 4 (data.bufferLen - 4) []

/-- `check_protocol_version` for `CLIENT_PROTO`. -/
def checkClientProtocolVersion (version : ℕ) : Bool :=
  version = protoVersionV20 ∨ version = protoVersionV22 ∨ version = protoVersionV22_1 ∨
    version = protoVersionV24

/-- `treat_extended_proto`. -/
def treatExtendedProto (env : UserEnv) (data : TlsBufferRead) : NuError :=
  if data.bufferLen < 4 then .error
  else if data.bufferLen < (data.buffer.host16 env.order 2).toNat then .error
  else
    match env.processExtMessage with
    | none => .continue
    | some process =>
      if process (data.buffer.drop 4) (data.bufferLen - 4) then .continue else .error

/-- `userpckt_decode`. -/
def userpcktDecode (conf : Params) (env : UserEnv) (clock : ℕ → Int) (fuel : ℕ)
    (data : TlsBufferRead) : Option (NuError × List Connection) :=
  if data.bufferLen < 4 then some (.error, [])
  else if ¬checkClientProtocolVersion (data.buffer 0 % 16).toNat then some (.error, [])
  else
    let data := { data with buffer := data.buffer.swap16 env.order 2 }
    if (data.buffer.host16 env.order 2).toNat > maxNufwPacketSize then some (.error, [])
    else if data.buffer 0 / 16 = userRequestType then
      (userRequest conf env clock fuel data).map fun conns ↦ (.ok, conns)
    else if data.buffer 0 / 16 = extendedProtoType then some (treatExtendedProto env data, [])
    else some (.error, [])

/-! ### What a packet of a user looks like -/

/-- A connection whose fields are being read: nothing but the four things that fields can give has
been touched, and the tracking is either untouched or the one of a supported protocol. -/
structure Filling (data : TlsBufferRead) (c : Connection) : Prop where
  frame : c = { newUserConnection data with
    packetId := c.packetId
    tracking := c.tracking
    appName := c.appName
    appSig := c.appSig }
  tracking : c.tracking = Tracking.zero ∨ c.tracking.Canonical

/-- A connection as `user_request` leaves it. -/
structure Announced (conf : Params) (data : TlsBufferRead) (c : Connection) : Prop where
  frame : c = { newUserConnection data with
    packetId := c.packetId
    tracking := c.tracking
    appName := c.appName
    appSig := c.appSig
    timestamp := c.timestamp
    username := data.userName
    userId := data.userId
    userGroups := copyGroups conf data.groups
    osSysname := data.osSysname
    osRelease := data.osRelease
    osVersion := data.osVersion
    state := .userpckt }
  tracking : c.tracking = Tracking.zero ∨ c.tracking.Canonical
  /-- Only a packet of the hello mode goes without a source address. -/
  saddr : c.packetId = [] → c.tracking.saddr ≠ in6addrAny

section

variable {conf : Params} {env : UserEnv} {data : TlsBufferRead} {c c' : Connection}

theorem Filling.padding (h : Filling data c) : c.tracking.padding = 0 := by
  rcases h.tracking with ht | ht
  · rw [ht]
    rfl
  · exact ht.padding_eq

/-- A new tracking keeps the frame. -/
theorem Filling.withTracking (h : Filling data c) {t : Tracking} (ht : t.Canonical) :
    Filling data { c with tracking := t } := by
  refine ⟨?_, Or.inr ht⟩
  conv_lhs => rw [h.frame]

theorem Filling.ipv6 (h : Filling data c) {field : Memory}
    (hc : userProcessFieldIpv6 c field = some c') : Filling data c' := by
  rw [userProcessFieldIpv6] at hc
  dsimp only at hc
  split_ifs at hc with hports hicmp
  · rw [← Option.some.inj hc]
    exact h.withTracking (Tracking.canonical_ports
      (t := { c.tracking with
        saddr := field.bytes 4 16, daddr := field.bytes 20 16, protocol := field 36 })
      h.padding hports _ _)
  · rw [← Option.some.inj hc]
    exact h.withTracking (Tracking.canonical_typeCode
      (t := { c.tracking with
        saddr := field.bytes 4 16, daddr := field.bytes 20 16, protocol := field 36 })
      h.padding hicmp _ _)

theorem Filling.ipv4 (h : Filling data c) {field : Memory}
    (hc : userProcessFieldIpv4 c field = some c') : Filling data c' := by
  rw [userProcessFieldIpv4] at hc
  dsimp only at hc
  split_ifs at hc with hports hicmp
  · rw [← Option.some.inj hc]
    exact h.withTracking (Tracking.canonical_ports
      (t := { c.tracking with
        saddr := uint32ToIpv6 (field.bytes 4 4)
        daddr := uint32ToIpv6 (field.bytes 8 4)
        protocol := field 12 })
      h.padding hports _ _)
  · rw [← Option.some.inj hc]
    exact h.withTracking (Tracking.canonical_typeCode
      (t := { c.tracking with
        saddr := uint32ToIpv6 (field.bytes 4 4)
        daddr := uint32ToIpv6 (field.bytes 8 4)
        protocol := field 12 })
      h.padding (Or.inl hicmp) _ _)

theorem Filling.withAppName (h : Filling data c) (appName : Option Bytes) :
    Filling data { c with appName := appName } := by
  refine ⟨?_, h.tracking⟩
  conv_lhs => rw [h.frame]

theorem Filling.withAppSig (h : Filling data c) (appSig : Option Bytes) :
    Filling data { c with appSig := appSig } := by
  refine ⟨?_, h.tracking⟩
  conv_lhs => rw [h.frame]

theorem Filling.hello (h : Filling data c) (field : Memory) :
    Filling data (userProcessFieldHello env c field) := by
  refine ⟨?_, h.tracking⟩
  conv_lhs => rw [h.frame]
  rfl

theorem Filling.app (h : Filling data c) {fieldBufferLen : ℕ} {field : Memory}
    (hc : userProcessFieldApp conf env c fieldBufferLen field = some c') : Filling data c' := by
  unfold userProcessFieldApp at hc
  dsimp only at hc
  split_ifs at hc
  · rw [← Option.some.inj hc]
    exact h.withAppName _
  · split at hc
    · cases hc
    · rw [← Option.some.inj hc]
      exact h.withAppName _

theorem Filling.hash (h : Filling data c) (fieldBufferLen : ℕ) (field : Memory) :
    Filling data (userProcessFieldHash env c fieldBufferLen field) := by
  unfold userProcessFieldHash
  dsimp only
  split_ifs
  · exact h.withAppSig _
  · exact h.withAppSig _
  · exact h.withAppSig _

/-- **One field** touches nothing but what fields can give. -/
theorem Filling.step (h : Filling data c) {authBufferLen : Int} {field : Memory}
    (hc : userProcessFieldType conf env c authBufferLen field = some c') : Filling data c' := by
  unfold userProcessFieldType at hc
  dsimp only at hc
  split_ifs at hc
  · exact h.ipv6 hc
  · exact h.ipv4 hc
  · rw [← Option.some.inj hc]
    exact h
  · exact h.app hc
  · rw [← Option.some.inj hc]
    exact h.hash _ _
  · rw [← Option.some.inj hc]
    exact h.hello _

/-- **All the fields** of a request. -/
theorem Filling.fields (h : Filling data c) {fuel : ℕ} {m m' : Memory} {o : ℕ}
    {authBufferLen : Int}
    (hc : userFields conf env fuel m o authBufferLen c = some (some (m', c'))) :
    Filling data c' := by
  induction fuel generalizing m o authBufferLen c with
  | zero => cases hc
  | succ fuel ih =>
    rw [userFields] at hc
    split_ifs at hc
    · obtain ⟨-, rfl⟩ := Prod.mk.inj (Option.some.inj (Option.some.inj hc))
      exact h
    · cases hc
    · split at hc
      · cases hc
      · next hfield =>
        refine ih ?_ hc
        unfold userProcessField at hfield
        dsimp only at hfield
        split_ifs at hfield
        obtain ⟨c'', hc'', heq⟩ := Option.map_eq_some_iff.1 hfield
        obtain ⟨-, -, rfl⟩ : _ ∧ _ ∧ c'' = _ := by simpa using heq
        exact h.step hc''

theorem Filling.new (data : TlsBufferRead) : Filling data (newUserConnection data) :=
  ⟨rfl, Or.inl rfl⟩

/-- The end of a request. -/
theorem Filling.announced (h : Filling data c) {now : Int}
    (hc : userRequestEnd conf data now c = some c') : Announced conf data c' := by
  rw [userRequestEnd] at hc
  dsimp only at hc
  split_ifs at hc with hsane hgroups
  obtain rfl := Option.some.inj hc
  refine ⟨?_, h.tracking, fun hid hany ↦ hsane ⟨Or.inl ?_, hid⟩⟩
  · conv_lhs => rw [h.frame]
    rfl
  · exact ipv6Equal_iff.2 hany

theorem userRequestLoop_announced {clock : ℕ → Int} {fuel : ℕ} {m : Memory} {start : ℕ}
    {bufferLen : Int} {connElts conns : List Connection}
    (helts : ∀ c ∈ connElts, Announced conf data c)
    (h : userRequestLoop conf env data clock fuel m start bufferLen connElts = some conns) :
    ∀ c ∈ conns, Announced conf data c := by
  have hnil : some [] = some conns → ∀ c ∈ conns, Announced conf data c := by
    intro h c hc
    rw [← Option.some.inj h] at hc
    cases hc
  induction fuel generalizing m start bufferLen connElts with
  | zero => cases h
  | succ fuel ih =>
    rw [userRequestLoop] at h
    dsimp only at h
    split_ifs at h
    · exact Option.some.inj h ▸ helts
    · exact hnil h
    · exact hnil h
    · split at h
      · cases h
      · exact hnil h
      · next hfields =>
        split at h
        · exact hnil h
        · next hend =>
          refine ih ?_ h
          rw [List.forall_mem_cons]
          exact ⟨((Filling.new data).fields hfields).announced hend, helts⟩

/-- **Every connection of `user_request`** has what the fields can give, and everything else from
the session. -/
theorem userRequest_announced {clock : ℕ → Int} {fuel : ℕ} {conns : List Connection}
    (h : userRequest conf env clock fuel data = some conns) :
    ∀ c ∈ conns, Announced conf data c := by
  refine userRequestLoop_announced (fun c hc ↦ ?_) h
  cases hc

end

/-! ### Reading and checking -/

/-- The result of `nussl_read`. -/
inductive Read where
  /-- A negative return; `again` when the error is "Resource temporarily unavailable". -/
  | failure (again : Bool)
  /-- The bytes that have been read, none at the end of the connection. -/
  | data (bytes : Bytes)

/-- The loop that reads the rest of a message, for the passes that are left. -/
def readBody (reads : ℕ → Read) (headerLength : ℕ) : ℕ → ℕ → Memory → ℕ → Option Memory
  | 0, _, _, _ => none
  | passes + 1, k, buffer, offset =>
    match reads k with
    | .failure _ => none
    | .data bytes =>
      let bytes := bytes.take (headerLength - offset)
      if bytes.length = headerLength - offset then some (buffer.write offset bytes)
      else if bytes = [] then none
      else readBody reads headerLength passes (k + 1) (buffer.write offset bytes)
        (offset + bytes.length)

/-- The `tls_buffer_read` of a message received on the session. -/
def UserSession.bufferRead (session : UserSession) (conf : Params) (buffer : Memory)
    (bufferLen : ℕ) : TlsBufferRead where
  ipAddr := session.addr
  userName := session.userName
  userId := session.userId
  groups := copyGroups conf session.groups
  osSysname := session.sysname
  osRelease := session.release
  osVersion := session.version
  buffer := buffer
  bufferLen := bufferLen
  protoVersion := session.protoVersion
  authQuality := session.authQuality

/-- `treat_user_request` once the whole message has been read. -/
def treatUserMessage (conf : Params) (now : Int) (session : UserSession) (buffer : Memory)
    (bufferLen : ℕ) : UserSession × NuError × Option TlsBufferRead :=
  let session := { session with lastRequest := now }
  if buffer 0 / 16 = userHelloType then
    ({ session with helloPckts := session.helloPckts + 1 }, .continue, none)
  else if buffer 1 = 0 then
    (session, .continue, some (session.bufferRead conf buffer bufferLen))
  else (session, .ok, none)

/-- `treat_user_request`, for a session that exists. What lies behind the buffer is in `heap`. -/
def treatUserRequest (conf : Params) (now : Int) (reads : ℕ → Read) (heap : Memory)
    (session : UserSession) : UserSession × NuError × Option TlsBufferRead :=
  match reads 0 with
  | .failure again => (session, if again then .continue else .error, none)
  | .data bytes =>
    let bytes := bytes.take 4
    if bytes.length ≠ 4 then (session, .error, none)
    else
      let buffer := Memory.write (fun i ↦ if i < classicNufwPacketSize then 0 else heap i) 0 bytes
      let session := { session with rxPckts := session.rxPckts + 1 }
      let headerLength := (buffer.be16 2).toNat
      if headerLength ≥ maxNufwPacketSize then (session, .error, none)
      else if headerLength > 4 then
        match readBody reads headerLength 3 1 buffer 4 with
        | none => (session, .error, none)
        | some buffer => treatUserMessage conf now session buffer headerLength
      else treatUserMessage conf now session buffer 4

/-- What `user_check_and_decide` does: its return value, the session with its counters, and the
connections pushed to the two queues. -/
structure UserChecked where
  ret : NuError
  session : UserSession
  connectionsQueue : List Connection
  localidAuthQueue : List Connection

/-- An error, counted. -/
def UserChecked.error (session : UserSession) : UserChecked :=
  ⟨.error, { session with errorPckts := session.errorPckts + 1 }, [], []⟩

/-- One turn of the loop of `user_check_and_decide`. -/
def UserChecked.push (conf : Params) (ipAddr : In6Addr) (r : UserChecked) (connElt : Connection) :
    UserChecked :=
  if connElt.packetId ≠ [] then
    -- a packet of the hello mode: the source address is the one of the client
    { r with localidAuthQueue := r.localidAuthQueue ++
        [{ connElt with tracking := { connElt.tracking with saddr := ipAddr } }] }
  else if conf.userCheckIpEquality ∧ ¬ipv6Equal ipAddr connElt.tracking.saddr then
    { r with session := { r.session with spoofedPckts := r.session.spoofedPckts + 1 } }
  else { r with connectionsQueue := r.connectionsQueue ++ [connElt] }

/-- `user_check_and_decide`. -/
def userCheckAndDecide (conf : Params) (env : UserEnv) (clock : ℕ → Int) (fuel : ℕ)
    (now : Int) (reads : ℕ → Read) (heap : Memory) (session : UserSession) : Option UserChecked :=
  match treatUserRequest conf now reads heap session with
  | (session, .ok, _) => some ⟨.error, session, [], []⟩
  | (session, .continue, none) => some ⟨.continue, session, [], []⟩
  | (session, .continue, some data) =>
    (userpcktDecode conf env clock fuel data).map fun
      | (.continue, _) => ⟨.ok, session, [], []⟩
      | (.error, _) => UserChecked.error session
      | (_, []) => UserChecked.error session
      | (_, connElts) => connElts.foldl (UserChecked.push conf data.ipAddr) ⟨.ok, session, [], []⟩
  | (session, _, _) => some (UserChecked.error session)

/-- The announcement of a TCP connection from 192.168.0.2 to port 22 of 192.168.0.3 by the
application `abc`. -/
def synUserMessage : Bytes :=
  [0x36, 0, 0, 60, 0, 0, 0, 56] ++
    [2, 0, 0, 44] ++ clientAddr.toList ++
    serverAddr.toList ++ [6, 0, 0, 0, 0x9c, 0x40, 0, 22] ++
    [3, 0, 0, 8, 89, 87, 74, 106]

/-- The environment of the user parser, for one application name. -/
def UserEnv.sample : UserEnv where
  order := .little
  saslDecode64 bs := if bs = [89, 87, 74, 106] then some [97, 98, 99] else none
  localeFromUtf8 := some
  processExtMessage := none

/-- A session of that address. -/
def UserSession.sample : UserSession where
  addr := clientAddr
  userName := some [98, 111, 98]
  userId := 7
  groups := [.gid 100]
  sysname := none
  release := none
  version := none
  protoVersion := protoVersionV24
  authQuality := 3
  lastRequest := 0
  rxPckts := 0
  errorPckts := 0
  spoofedPckts := 0
  helloPckts := 0

end Nufw
