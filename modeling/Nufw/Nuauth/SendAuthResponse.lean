import Nufw.Nuauth.NufwServers

/-!
# Answering a gateway

The end of `take_decision.c`: the message `send_auth_response` builds for one packet identifier, in
the protocol the connection was announced in, and its effect on the session it is sent on.

The message is built in a buffer on the stack. The structure of the oldest protocol ends with two
bytes of padding that are never written, so the bytes on the wire depend on what the stack held:
`stack` gives it. `order` is the byte order of the host, in which the flow label of a rejection
over IPv6 is written.
-/

namespace Nufw

/-- `PROTO_VERSION_NUFW_V20`. -/
def protoVersionNufwV20 : ℕ := 3
/-- `PROTO_VERSION_NUFW_V22_2`. -/
def protoVersionNufwV22_2 : ℕ := 5
/-- `PROTO_VERSION_NUFW_V24`. -/
def protoVersionNufwV24 : ℕ := 6

/-- The protocols `send_auth_response` can answer in. -/
def KnownVersion (v : ℕ) : Prop :=
  v = protoVersionNufwV20 ∨ v = protoVersionNufwV22_2 ∨ v = protoVersionNufwV24

instance : DecidablePred KnownVersion := fun v ↦
  inferInstanceAs (Decidable (v = protoVersionNufwV20 ∨ v = protoVersionNufwV22_2 ∨
    v = protoVersionNufwV24))

/-- `AUTH_ANSWER`. -/
def authAnswer : UInt8 := 2

/-- What the machine gives to the program. -/
structure Host where
  order : ByteOrder
  /-- What the buffer on the stack holds before it is written. -/
  stack : Memory

/-- The two bytes of `htons`. -/
def htons (x : UInt16) : Bytes := [(x >>> 8).toUInt8, x.toUInt8]

/-- The four bytes of `htonl`. -/
def htonl (x : UInt32) : Bytes :=
  [(x >>> 24).toUInt8, (x >>> 16).toUInt8, (x >>> 8).toUInt8, x.toUInt8]

@[simp] theorem length_htons (x : UInt16) : (htons x).length = 2 := rfl

@[simp] theorem length_htonl (x : UInt32) : (htonl x).length = 4 := rfl

/-- The byte of a `decision_t`. -/
def Decision.toByte : Decision → UInt8
  | .drop => 0
  | .accept => 1
  | .nodecide => 2
  | .reject => 3

/-- `IPHDR_REJECT_LENGTH`. -/
def iphdrRejectLength : ℕ := 20
/-- `IP6HDR_REJECT_LENGTH`. -/
def ip6hdrRejectLength : ℕ := 40

/-- The stored bytes of the packet that are quoted in a rejection. -/
def Connection.storedPayload (element : Connection) : Bytes :=
  element.payload.toList.take element.payloadLen

/-- `add_icmp_reject_data`: an IPv4 header, then the stored bytes. The version field is
`AF_INET`. -/
def addIcmpRejectData (element : Connection) : Bytes :=
  [0x25, 0] ++ htons (UInt16.ofNat (iphdrRejectLength + element.payloadLen)) ++ [0, 0, 0, 0] ++
    [64, element.tracking.protocol, 0, 0] ++ element.tracking.saddr.toList.drop 12 ++
    element.tracking.daddr.toList.drop 12 ++ element.storedPayload

/-- `add_icmpv6_reject_data`: an IPv6 header, then the stored bytes. -/
def addIcmpv6RejectData (order : ByteOrder) (element : Connection) : Bytes :=
  (match order with
    | .little => [0, 0, 0, 0x60]
    | .big => [0x60, 0, 0, 0]) ++
    htons (UInt16.ofNat (ip6hdrRejectLength + element.payloadLen)) ++
    [element.tracking.protocol, 64] ++ element.tracking.saddr.toList ++
    element.tracking.daddr.toList ++ element.storedPayload

/-- A rejection is sent over ICMPv6 unless both addresses are IPv4 ones. -/
def useIcmp6 (element : Connection) : Bool :=
  !isIpv4 element.tracking.saddr || !isIpv4 element.tracking.daddr

/-- The size of the rejection data announced in the message, and the data. -/
def rejectData (host : Host) (icmp6 : Bool) (element : Connection) : UInt16 × Bytes :=
  if element.decision = .reject then
    if icmp6 then
      (UInt16.ofNat (ip6hdrRejectLength + element.payloadLen),
        addIcmpv6RejectData host.order element)
    else (UInt16.ofNat (iphdrRejectLength + element.payloadLen), addIcmpRejectData element)
  else (0, [])

/-- The message of `send_auth_response`, none for an unknown protocol. -/
def authResponse (host : Host) (element : Connection) (packetId : UInt32) : Option Bytes :=
  if element.nufwVersion = protoVersionNufwV20 then
    let (size, data) := rejectData host false element
    some ([UInt8.ofNat protoVersionNufwV20, authAnswer] ++ htons element.mark.toUInt16 ++
      [element.decision.toByte, 1, 0, 0] ++ htonl packetId ++ htons size ++
      [host.stack 14, host.stack 15] ++ data)
  else if element.nufwVersion = protoVersionNufwV22_2 then
    let (size, data) := rejectData host (useIcmp6 element) element
    some ([UInt8.ofNat protoVersionNufwV22_2, authAnswer, element.decision.toByte, 1] ++
      htonl packetId ++ htonl element.mark ++ htons size ++ [0, 0] ++ data)
  else if element.nufwVersion = protoVersionNufwV24 then
    let (size, data) := rejectData host (useIcmp6 element) element
    some ([UInt8.ofNat protoVersionNufwV24, authAnswer, element.decision.toByte, 1] ++
      htonl packetId ++ htonl element.mark ++ htonl (UInt32.ofInt element.expire) ++
      htons size ++ [0, 0] ++ data)
  else none

/-- One answer given by `send_auth_response`. -/
structure Answer where
  packetId : PacketId
  session : Option SessionId
  version : ℕ
  message : Bytes
  deriving DecidableEq

/-- The answer is for the session of the connection, in the protocol of the connection. -/
def Answer.For (a : Answer) (c : Connection) : Prop :=
  a.session = c.tls ∧ a.version = c.nufwVersion ∧
    a.message.head? = some (UInt8.ofNat c.nufwVersion)

/-- `send_auth_response`: the message is handed to the session, which loses one user whether it
takes it or turns out to be dead. -/
def sendAuthResponse (host : Host) (h : Sessions) (element : Connection) (packetId : PacketId) :
    Sessions × List Answer :=
  match authResponse host element packetId.id with
  | none => (h, [])
  | some message =>
    let answer : Answer := ⟨packetId, element.tls, element.nufwVersion, message⟩
    match nufwSessionSend h element.tls with
    | .ok => (releaseNufwSession h element.tls, [answer])
    | _ => (declareDeadNufwSession h element.tls, [answer])

/-- `g_slist_foreach (packet_id, send_auth_response, element)`. -/
def sendAuthResponses (host : Host) (element : Connection) :
    List PacketId → Sessions → Sessions × List Answer
  | [], h => (h, [])
  | p :: ps, h =>
    let (h, sent) := sendAuthResponse host h element p
    let (h, rest) := sendAuthResponses host element ps h
    (h, sent ++ rest)

theorem authResponse_isSome (host : Host) {element : Connection}
    (h : KnownVersion element.nufwVersion) (packetId : UInt32) :
    (authResponse host element packetId).isSome := by
  rw [authResponse]
  rcases h with h | h | h <;> rw [h]
  · rfl
  · rfl
  · rfl

/-- With a known protocol, every identifier gets its answer. -/
theorem map_packetId_sendAuthResponses {host : Host} {element : Connection}
    (hv : KnownVersion element.nufwVersion) (ps : List PacketId) (h : Sessions) :
    (sendAuthResponses host element ps h).2.map Answer.packetId = ps := by
  induction ps generalizing h with
  | nil => rfl
  | cons p ps ih =>
    obtain ⟨message, hmessage⟩ := Option.isSome_iff_exists.1
      (authResponse_isSome host hv p.id)
    rw [sendAuthResponses, sendAuthResponse, hmessage]
    dsimp only
    split <;> simp [ih]

/-- A message starts with its protocol. -/
theorem head?_authResponse {host : Host} {element : Connection} {packetId : UInt32}
    {message : Bytes} (h : authResponse host element packetId = some message) :
    message.head? = some (UInt8.ofNat element.nufwVersion) := by
  rw [authResponse] at h
  split_ifs at h with h₁ h₂ h₃
  · rw [h₁, ← Option.some.inj h]
    rfl
  · rw [h₂, ← Option.some.inj h]
    rfl
  · rw [h₃, ← Option.some.inj h]
    rfl

/-- Every answer is for the connection. -/
theorem mem_sendAuthResponses {host : Host} {element : Connection} {ps : List PacketId}
    {h : Sessions} {a : Answer} (ha : a ∈ (sendAuthResponses host element ps h).2) :
    a.For element := by
  induction ps generalizing h with
  | nil => cases ha
  | cons p ps ih =>
    rw [sendAuthResponses, sendAuthResponse] at ha
    cases hm : authResponse host element p.id with
    | none =>
      rw [hm] at ha
      exact ih (h := h) (by simpa using ha)
    | some message =>
      rw [hm] at ha
      dsimp only at ha
      have hcase : a = ⟨p, element.tls, element.nufwVersion, message⟩ ∨
          ∃ h', a ∈ (sendAuthResponses host element ps h').2 := by
        split at ha
        · exact (List.mem_append.1 ha).imp List.mem_singleton.1 fun h' ↦ ⟨_, h'⟩
        · exact (List.mem_append.1 ha).imp List.mem_singleton.1 fun h' ↦ ⟨_, h'⟩
      rcases hcase with rfl | ⟨h', ha'⟩
      · exact ⟨rfl, rfl, head?_authResponse hm⟩
      · exact ih ha'

end Nufw
