import Nufw.Nuauth.SendAuthResponse

/-!
# Requests of the gateways

`pckt_authsrv.c` and `pckt_authsrv_v3.c`: a message of a gateway becomes a connection waiting for
its user.

The functions of the source allocate one connection, free it on the way out when something is
wrong, and give it to their caller through `*conn`. `NewConnection` keeps the three things apart:
whether `*conn` has been made to point to the connection, how many times it has been freed, and
the value returned. The clock, the bytes of the message and the question whether the clients of an
address are to be asked for a hello (`localid_authenticated_protocol`, which looks into the tables
of clients) are parameters.
-/

namespace Nufw

/-! ### Messages -/

/-- `AUTH_REQUEST`. -/
def authRequest : UInt8 := 1
/-- `AUTH_CONTROL`. -/
def authControl : UInt8 := 4

/-- What a function does with the connection it allocates. -/
structure NewConnection where
  ret : NuError
  /-- The connection at the end of the call, if one has been allocated. -/
  connection : Option Connection
  /-- `*conn` points to it. -/
  returned : Bool
  /-- How many times `free_connection` has run on it. -/
  freed : ℕ

/-- The caller gets a connection it can use. -/
def NewConnection.Produces (r : NewConnection) (c : Connection) : Prop :=
  r.ret = .ok ∧ r.connection = some c ∧ r.returned = true ∧ r.freed = 0

/-- The error return before anything is allocated. -/
def NewConnection.error : NewConnection := ⟨.error, none, false, 0⟩

/-! ### The datagram -/

/-- The case of TCP in `parse_dgram`: the tracking, or the value returned once the connection has
been freed. -/
def parseTcp (tracking : Tracking) (dgram : Memory) (dgramSize : ℕ) (msgType : UInt8) :
    Except NuError Tracking :=
  match getTcpHeaders tracking dgram dgramSize with
  | (tracking, .open) => .ok tracking
  | (tracking, .close) => if msgType = authControl then .error .noReturn else .ok tracking
  | (tracking, .established) => if msgType = authControl then .error .noReturn else .ok tracking
  | _ => .error .noReturn

/-- The switch of `parse_dgram` over the transport protocol. -/
def parseTransport (connection : Connection) (dgram : Memory) (dgramSize : ℕ) (msgType : UInt8) :
    Except NuError Tracking :=
  let tracking := connection.tracking
  if tracking.protocol = ipprotoTcp then parseTcp tracking dgram dgramSize msgType
  else if tracking.protocol = ipprotoUdp then
    (getUdpHeaders tracking dgram dgramSize).elim (.error .ok) .ok
  else if tracking.protocol = ipprotoIcmp then
    (getIcmpHeaders tracking dgram dgramSize).elim (.error .ok) .ok
  else if tracking.protocol = ipprotoIcmpv6 then
    (getIcmpv6Headers tracking dgram dgramSize).elim (.error .ok) .ok
  else if connection.state ≠ .hellomode then .error .error
  else .ok tracking

/-- `parse_dgram`, with at most `fuel` turns of the loop over IPv6 extension headers. -/
def parseDgram (fuel : ℕ) (conf : Params) (localid : Tracking → Bool) (connection : Connection)
    (dgram : Memory) (dgramSize : ℕ) (msgType : UInt8) : Option NewConnection :=
  (getIpHeaders fuel connection.tracking dgram dgramSize).map fun (tracking, ipHdrSize) ↦
    let connection := { connection with tracking := tracking }
    if ipHdrSize = 0 then ⟨.error, some connection, false, 1⟩
    else
      let hello := conf.helloAuthentication && localid tracking
      let connection := if hello then
          { connection with state := .hellomode, authQuality := authqHello }
        else { connection with state := .authreq }
      -- the size is an `unsigned int`, and nothing bounds the header by the datagram
      let size := (dgramSize + 2 ^ 32 - ipHdrSize % 2 ^ 32) % 2 ^ 32
      match parseTransport connection (dgram.drop ipHdrSize) size msgType with
      | .error ret => ⟨ret, some connection, hello, 1⟩
      | .ok tracking =>
        -- `tot_len`, which is the flow label of an IPv6 datagram
        let payloadLen := min storedPayloadSize (dgram.be16 2).toNat
        ⟨.continue, some { connection with
          tracking := tracking
          payloadLen := payloadLen
          payload := copyPayload connection.payload (dgram.bytes 0 128) payloadLen }, hello, 0⟩

/-! ### The message -/

/-- `GET_IFACE_FROM_MSG`: a name that starts with a star is not known. -/
def getIfaceFromMsg (name msg : Vector UInt8 16) : Vector UInt8 16 :=
  if msg.get 0 ≠ 42 then msg else name

/-- `parse_v4_fields`. -/
def parseV4Fields (msg : Memory) (conn : Connection) : Connection :=
  { conn with
    mark := msg.be32 12
    ifaceNfo :=
      { indev := getIfaceFromMsg conn.ifaceNfo.indev (msg.bytes 16 16)
        physindev := getIfaceFromMsg conn.ifaceNfo.physindev (msg.bytes 32 16)
        outdev := getIfaceFromMsg conn.ifaceNfo.outdev (msg.bytes 48 16)
        physoutdev := getIfaceFromMsg conn.ifaceNfo.physoutdev (msg.bytes 64 16) } }

/-- The connection the two versions of `authpckt_new_connection` allocate. -/
def newConnection (now : Int) (msg : Memory) (nufwVersion : ℕ) : Connection :=
  { Connection.zero with
    decision := .nodecide
    expire := -1
    packetId := [⟨msg.be32 4, none⟩]
    timestamp := if msg.be32 8 = 0 then now else (msg.be32 8).toNat
    nufwVersion := nufwVersion }

/-- `sizeof (nuv4_nufw_to_nuauth_auth_message_t)`. -/
def nuv4AuthMessageSize : ℕ := 80

/-- `sizeof (nuv3_nufw_to_nuauth_auth_message_t)`. -/
def nuv3AuthMessageSize : ℕ := 12

/-- `authpckt_new_connection`. -/
def authpcktNewConnection (fuel : ℕ) (conf : Params) (localid : Tracking → Bool) (now : Int)
    (dgram : Memory) (dgramSize : ℕ) : Option NewConnection :=
  if dgramSize < nuv4AuthMessageSize then some NewConnection.error
  else
    (parseDgram fuel conf localid (newConnection now dgram (dgram 0).toNat)
      (dgram.drop nuv4AuthMessageSize) (dgramSize - nuv4AuthMessageSize) (dgram 1)).map fun r ↦
      if r.ret ≠ .continue then r
      else ⟨.ok, r.connection.map (parseV4Fields dgram), true, r.freed⟩

/-- `authpckt_new_connection_v3`. -/
def authpcktNewConnectionV3 (fuel : ℕ) (conf : Params) (localid : Tracking → Bool) (now : Int)
    (dgram : Memory) (dgramSize : ℕ) : Option NewConnection :=
  if dgramSize < nuv3AuthMessageSize then some NewConnection.error
  else
    (parseDgram fuel conf localid (newConnection now dgram protoVersionNufwV20)
      (dgram.drop nuv3AuthMessageSize) (dgramSize - nuv3AuthMessageSize) (dgram 1)).map fun r ↦
      if r.ret ≠ .continue then r else ⟨.ok, r.connection, true, r.freed⟩

/-- What `authpckt_decode` leaves: besides the connection, how far `*pdgram` has moved and what is
left of the message. -/
structure Decoded where
  new : NewConnection
  advance : ℕ
  dgramSize : ℕ

/-- `authpckt_decode`. -/
def authpcktDecode (fuel : ℕ) (conf : Params) (localid : Tracking → Bool) (now : Int)
    (dgram : Memory) (dgramSize : ℕ) : Option Decoded :=
  let failure : Option Decoded := some ⟨NewConnection.error, 0, dgramSize⟩
  let decoded (r : NewConnection) : Decoded :=
    let msgLength := (dgram.be16 2).toNat
    if r.ret = .error then ⟨r, 0, dgramSize⟩
    else if msgLength < dgramSize then ⟨r, msgLength, dgramSize - msgLength⟩
    else ⟨r, 0, 0⟩
  if (dgram 0).toNat = protoVersionNufwV22_2 ∨ (dgram 0).toNat = protoVersionNufwV24 then
    if dgram 1 = authRequest ∨ dgram 1 = authControl then
      (authpcktNewConnection fuel conf localid now dgram dgramSize).map decoded
    else failure
  else if (dgram 0).toNat = protoVersionNufwV20 then
    if dgram 1 = authRequest ∨ dgram 1 = authControl then
      (authpcktNewConnectionV3 fuel conf localid now dgram dgramSize).map decoded
    else failure
  else failure

/-! ### What a request looks like -/

/-- A request as the parser leaves it when it waits for its user. -/
structure Requested (c : Connection) : Prop where
  undecided : Undecided c
  packetId : ∃ p, c.packetId = [p]
  canonical : c.tracking.Canonical
  /-- The payload is zero beyond its length. -/
  payload : copyPayload (Vector.replicate 128 0) c.payload c.payloadLen = c.payload

theorem get_copyPayload (dst src : Vector UInt8 128) (n : ℕ) (i : Fin 128) :
    (copyPayload dst src n).get i = if (i : ℕ) < n then src.get i else dst.get i :=
  Vector.getElem_ofFn i.isLt

/-- Copying the same bytes twice over the same buffer. -/
theorem copyPayload_copyPayload (dst src : Vector UInt8 128) (n : ℕ) :
    copyPayload dst (copyPayload dst src n) n = copyPayload dst src n := by
  have hget : ∀ i : Fin 128, (if (i : ℕ) < n then (copyPayload dst src n).get i else dst.get i) =
      if (i : ℕ) < n then src.get i else dst.get i := by
    intro i
    rw [get_copyPayload]
    split_ifs <;> rfl
  exact congrArg Vector.ofFn (funext hget)

theorem getIpHeaders_eq {fuel : ℕ} {t t' : Tracking} {dgram : Memory} {dgramSize ipHdrSize : ℕ}
    (h : getIpHeaders fuel t dgram dgramSize = some (t', ipHdrSize)) :
    ∃ saddr daddr protocol,
      t' = { t with saddr := saddr, daddr := daddr, protocol := protocol } := by
  rw [getIpHeaders] at h
  split_ifs at h
  · obtain ⟨rfl, -⟩ := Prod.mk.inj (Option.some.inj h)
    exact ⟨_, _, _, rfl⟩
  · obtain ⟨rfl, -⟩ := Prod.mk.inj (Option.some.inj h)
    exact ⟨_, _, _, rfl⟩
  · obtain ⟨rfl, -⟩ := Prod.mk.inj (Option.some.inj h)
    exact ⟨_, _, _, rfl⟩
  · obtain ⟨r, -, hr⟩ := Option.map_eq_some_iff.1 h
    obtain ⟨rfl, -⟩ := Prod.mk.inj hr
    exact ⟨_, _, _, rfl⟩
  · obtain ⟨rfl, -⟩ := Prod.mk.inj (Option.some.inj h)
    exact ⟨_, _, _, rfl⟩

theorem getTcpHeaders_eq {t t' : Tracking} {dgram : Memory} {dgramSize : ℕ} {state : TcpState}
    (h : getTcpHeaders t dgram dgramSize = (t', state)) (hstate : state ≠ .unknow) :
    t' = { t with source := dgram.be16 0, dest := dgram.be16 2, type := 0, code := 0 } := by
  rw [getTcpHeaders] at h
  dsimp only at h
  split_ifs at h <;> obtain ⟨rfl, rfl⟩ := Prod.mk.inj h
  · exact absurd rfl hstate
  · rfl
  · rfl
  · rfl
  · exact absurd rfl hstate

theorem parseTcp_eq {t t' : Tracking} {dgram : Memory} {dgramSize : ℕ} {msgType : UInt8}
    (h : parseTcp t dgram dgramSize msgType = .ok t') :
    t' = { t with source := dgram.be16 0, dest := dgram.be16 2, type := 0, code := 0 } := by
  rw [parseTcp] at h
  split at h
  · next htcp =>
    obtain rfl := Except.ok.inj h
    exact getTcpHeaders_eq htcp (by simp)
  · next htcp =>
    split_ifs at h
    obtain rfl := Except.ok.inj h
    exact getTcpHeaders_eq htcp (by simp)
  · next htcp =>
    split_ifs at h
    obtain rfl := Except.ok.inj h
    exact getTcpHeaders_eq htcp (by simp)
  · cases h

/-- The transport headers make a tracking canonical, but for the protocols that only the hello mode
lets through. -/
theorem parseTransport_cases {connection : Connection} {dgram : Memory} {dgramSize : ℕ}
    {msgType : UInt8} {t : Tracking} (hpadding : connection.tracking.padding = 0)
    (h : parseTransport connection dgram dgramSize msgType = .ok t) :
    t.Canonical ∨ connection.state = .hellomode ∧
      ¬(t.protocol = ipprotoTcp ∨ t.protocol = ipprotoUdp ∨ t.protocol = ipprotoIcmp ∨
        t.protocol = ipprotoIcmpv6) := by
  unfold parseTransport at h
  dsimp only at h
  split_ifs at h with htcp hudp hicmp hicmpv6 hhello
  · rw [parseTcp_eq h]
    exact Or.inl (Tracking.canonical_ports hpadding (Or.inl htcp) _ _)
  · rw [getUdpHeaders] at h
    split_ifs at h
    · cases h
    · rw [← Except.ok.inj h]
      exact Or.inl (Tracking.canonical_ports hpadding (Or.inr hudp) _ _)
  · rw [getIcmpHeaders] at h
    split_ifs at h
    · cases h
    · rw [← Except.ok.inj h]
      exact Or.inl (Tracking.canonical_typeCode hpadding (Or.inl hicmp) _ _)
  · unfold getIcmpv6Headers getIcmpHeaders at h
    split_ifs at h
    · cases h
    · rw [← Except.ok.inj h]
      exact Or.inl (Tracking.canonical_typeCode hpadding (Or.inr hicmpv6) _ _)
  · rw [← Except.ok.inj h]
    refine Or.inr ⟨not_not.1 hhello, ?_⟩
    rintro (hp | hp | hp | hp)
    · exact htcp hp
    · exact hudp hp
    · exact hicmp hp
    · exact hicmpv6 hp

/-- Outside the hello mode, the transport headers make a tracking canonical. -/
theorem parseTransport_canonical {connection : Connection} {dgram : Memory} {dgramSize : ℕ}
    {msgType : UInt8} {t : Tracking} (hpadding : connection.tracking.padding = 0)
    (hstate : connection.state ≠ .hellomode)
    (h : parseTransport connection dgram dgramSize msgType = .ok t) : t.Canonical :=
  (parseTransport_cases hpadding h).resolve_right fun hhello ↦ hstate hhello.1

/-- The flags of a TCP header that `get_tcp_headers` makes a state of: `FIN`, `SYN` and `RST`. -/
def HasState (flags : UInt8) : Prop := flags &&& 1 ≠ 0 ∨ flags &&& 2 ≠ 0 ∨ flags &&& 4 ≠ 0

instance (flags : UInt8) : Decidable (HasState flags) := inferInstanceAs (Decidable (_ ∨ _ ∨ _))

/-- A TCP header that `parse_dgram` takes: it is complete and tells a state, which is the opening of
a connection in a control message. -/
def TcpTaken (size : ℕ) (header : Memory) (msgType : UInt8) : Prop :=
  20 ≤ size ∧ HasState (header 13) ∧
    (msgType = authControl → ¬(header 13 &&& 1 ≠ 0 ∨ header 13 &&& 4 ≠ 0) ∧ ¬header 13 &&& 16 ≠ 0)

/-- **What `parse_dgram` makes of a TCP header.** -/
theorem parseTcp_ok_iff {t : Tracking} {header : Memory} {size : ℕ} {msgType : UInt8} :
    (∃ t', parseTcp t header size msgType = .ok t') ↔ TcpTaken size header msgType := by
  unfold parseTcp getTcpHeaders TcpTaken HasState
  dsimp only
  by_cases hsize : size < 20
  · rw [if_pos hsize]
    exact iff_of_false (fun h ↦ nomatch h) fun h ↦ absurd h.1 (by omega)
  rw [if_neg hsize]
  have hsize' : 20 ≤ size := by omega
  by_cases hclose : header 13 &&& 1 ≠ 0 ∨ header 13 &&& 4 ≠ 0
  · rw [if_pos hclose]
    dsimp only
    split_ifs with htype
    · exact iff_of_false (fun h ↦ nomatch h) fun h ↦ (h.2.2 htype).1 hclose
    · exact iff_of_true ⟨_, rfl⟩ ⟨hsize', hclose.elim Or.inl fun h ↦ Or.inr (Or.inr h),
        fun h ↦ absurd h htype⟩
  rw [if_neg hclose]
  by_cases hsyn : header 13 &&& 2 ≠ 0
  · rw [if_pos hsyn]
    by_cases hack : header 13 &&& 16 ≠ 0
    · rw [if_pos hack]
      dsimp only
      split_ifs with htype
      · exact iff_of_false (fun h ↦ nomatch h) fun h ↦ (h.2.2 htype).2 hack
      · exact iff_of_true ⟨_, rfl⟩ ⟨hsize', Or.inr (Or.inl hsyn), fun h ↦ absurd h htype⟩
    · rw [if_neg hack]
      exact iff_of_true ⟨_, rfl⟩ ⟨hsize', Or.inr (Or.inl hsyn), fun _ ↦ ⟨hclose, hack⟩⟩
  · rw [if_neg hsyn]
    refine iff_of_false (fun h ↦ nomatch h) ?_
    rintro ⟨-, h | h | h, -⟩
    · exact hclose (Or.inl h)
    · exact hsyn h
    · exact hclose (Or.inr h)

/-- A TCP header that is not taken is not answered. -/
theorem parseTcp_error {t : Tracking} {header : Memory} {size : ℕ} {msgType : UInt8} {ret : NuError}
    (h : parseTcp t header size msgType = .error ret) : ret = .noReturn := by
  rw [parseTcp] at h
  split at h
  · cases h
  · split_ifs at h
    exact (Except.error.inj h).symm
  · split_ifs at h
    exact (Except.error.inj h).symm
  · exact (Except.error.inj h).symm

/-- The transport header of one of the four protocols, TCP apart, needs eight bytes; another
protocol is for the hello mode. -/
theorem parseTransport_ok_iff {connection : Connection} {header : Memory} {size : ℕ}
    {msgType : UInt8} :
    (∃ t, parseTransport connection header size msgType = .ok t) ↔
      if connection.tracking.protocol = ipprotoTcp then TcpTaken size header msgType
      else if connection.tracking.Supported then 8 ≤ size
      else connection.state = .hellomode := by
  have helim : ∀ t : Tracking, (∃ t', (if size < 8 then none else some t : Option Tracking).elim
      (.error .ok) .ok = (.ok t' : Except NuError Tracking)) ↔ 8 ≤ size := by
    intro t
    split_ifs with hsize
    · exact iff_of_false (fun h ↦ nomatch h) (by omega)
    · exact iff_of_true ⟨t, rfl⟩ (by omega)
  rw [parseTransport]
  by_cases htcp : connection.tracking.protocol = ipprotoTcp
  · rw [if_pos htcp, if_pos htcp, parseTcp_ok_iff]
  rw [if_neg htcp, if_neg htcp]
  by_cases hudp : connection.tracking.protocol = ipprotoUdp
  · have hsupported : connection.tracking.Supported := Or.inr (Or.inl hudp)
    rw [if_pos hudp, if_pos hsupported, getUdpHeaders, helim]
  rw [if_neg hudp]
  by_cases hicmp : connection.tracking.protocol = ipprotoIcmp
  · have hsupported : connection.tracking.Supported := Or.inr (Or.inr (Or.inl hicmp))
    rw [if_pos hicmp, if_pos hsupported, getIcmpHeaders, helim]
  rw [if_neg hicmp]
  by_cases hicmpv6 : connection.tracking.protocol = ipprotoIcmpv6
  · have hsupported : connection.tracking.Supported := Or.inr (Or.inr (Or.inr hicmpv6))
    rw [if_pos hicmpv6, if_pos hsupported, getIcmpv6Headers, getIcmpHeaders, helim]
  rw [if_neg hicmpv6, if_neg (Tracking.not_supported htcp hudp hicmp hicmpv6)]
  by_cases hstate : connection.state = .hellomode
  · rw [if_neg (not_not.2 hstate)]
    exact iff_of_true ⟨_, rfl⟩ hstate
  · rw [if_pos hstate]
    exact iff_of_false (fun h ↦ nomatch h) hstate

/-- What is returned when the switch fails. -/
theorem parseTransport_error {connection : Connection} {header : Memory} {size : ℕ}
    {msgType : UInt8} {ret : NuError}
    (h : parseTransport connection header size msgType = .error ret) :
    ret = if connection.tracking.protocol = ipprotoTcp then .noReturn
      else if connection.tracking.Supported then .ok else .error := by
  have helim : ∀ o : Option Tracking, o.elim (.error .ok) .ok =
      (.error ret : Except NuError Tracking) → ret = .ok := by
    intro o ho
    cases o with
    | none => exact (Except.error.inj ho).symm
    | some t => cases ho
  rw [parseTransport] at h
  split_ifs at h with htcp hudp hicmp hicmpv6 hstate
  · rw [if_pos htcp]
    exact parseTcp_error h
  · have hsupported : connection.tracking.Supported := Or.inr (Or.inl hudp)
    rw [if_neg htcp, if_pos hsupported]
    exact helim _ h
  · have hsupported : connection.tracking.Supported := Or.inr (Or.inr (Or.inl hicmp))
    rw [if_neg htcp, if_pos hsupported]
    exact helim _ h
  · have hsupported : connection.tracking.Supported := Or.inr (Or.inr (Or.inr hicmpv6))
    rw [if_neg htcp, if_pos hsupported]
    exact helim _ h
  · rw [if_neg htcp, if_neg (Tracking.not_supported htcp hudp hicmp hicmpv6)]
    exact (Except.error.inj h).symm

/-- When the switch fails, `parse_dgram` does not go on. -/
theorem parseTransport_ne_continue {connection : Connection} {dgram : Memory} {dgramSize : ℕ}
    {msgType : UInt8} : parseTransport connection dgram dgramSize msgType ≠ .error .continue := by
  intro h
  have hret := parseTransport_error h
  split_ifs at hret

/-- The size that `parse_dgram` computes for what follows the IP headers, an `unsigned int`. -/
def transportRoom (size offset : ℕ) : ℕ := (size + 2 ^ 32 - offset % 2 ^ 32) % 2 ^ 32

/-- It is what is left of the datagram, when the headers are within it. -/
theorem transportRoom_eq {size offset : ℕ} (hoffset : offset ≤ size) (hsize : size < 2 ^ 32) :
    transportRoom size offset = size - offset := by
  rw [transportRoom, Nat.mod_eq_of_lt (Nat.lt_of_le_of_lt hoffset hsize)]
  omega

/-- **What `parse_dgram` does**, in terms of the two parsers it calls. -/
theorem parseDgram_cases {fuel : ℕ} {conf : Params} {localid : Tracking → Bool}
    {connection : Connection} {dgram : Memory} {size : ℕ} {msgType : UInt8} {r : NewConnection}
    (h : parseDgram fuel conf localid connection dgram size msgType = some r) :
    ∃ t offset, getIpHeaders fuel connection.tracking dgram size = some (t, offset) ∧
      (offset = 0 ∧ (∃ c, r = ⟨.error, some c, false, 1⟩) ∨
        offset ≠ 0 ∧ ∃ c : Connection, c.tracking = t ∧
          (c.state = .hellomode ↔ (conf.helloAuthentication && localid t) = true) ∧
          ((∃ ret, parseTransport c (dgram.drop offset) (transportRoom size offset) msgType =
              .error ret ∧ r = ⟨ret, some c, conf.helloAuthentication && localid t, 1⟩) ∨
            ∃ t' c', parseTransport c (dgram.drop offset) (transportRoom size offset) msgType =
              .ok t' ∧ c'.packetId = connection.packetId ∧
              r = ⟨.continue, some c', conf.helloAuthentication && localid t, 0⟩)) := by
  obtain ⟨⟨t, offset⟩, hip, hr⟩ := Option.map_eq_some_iff.1 h
  refine ⟨t, offset, hip, ?_⟩
  dsimp only at hr
  by_cases hzero : offset = 0
  · rw [if_pos hzero] at hr
    exact Or.inl ⟨hzero, _, hr.symm⟩
  rw [if_neg hzero] at hr
  -- the state of the connection tells whether the address is asked for a hello
  generalize hc : (if (conf.helloAuthentication && localid t) = true then
      { connection with tracking := t, state := .hellomode, authQuality := authqHello }
    else { connection with tracking := t, state := .authreq } : Connection) = c at hr
  have htracking : c.tracking = t := by
    rw [← hc]
    split_ifs <;> rfl
  have hstate : c.state = .hellomode ↔ (conf.helloAuthentication && localid t) = true := by
    rw [← hc]
    split_ifs with hhello
    · exact iff_of_true rfl hhello
    · exact iff_of_false (by simp) hhello
  have hpacketId : c.packetId = connection.packetId := by
    rw [← hc]
    split_ifs <;> rfl
  refine Or.inr ⟨hzero, c, htracking, hstate, ?_⟩
  split at hr
  · next ret hret => exact Or.inl ⟨ret, hret, hr.symm⟩
  · next t' ht' => exact Or.inr ⟨t', _, ht', by exact hpacketId, hr.symm⟩

/-- The transport header is taken: a TCP header that is complete and tells a state, eight bytes for
the other three protocols, or a protocol for the hello mode. -/
def TransportTaken (conf : Params) (localid : Tracking → Bool) (t : Tracking) (size : ℕ)
    (header : Memory) (msgType : UInt8) : Prop :=
  if t.protocol = ipprotoTcp then TcpTaken size header msgType
  else if t.Supported then 8 ≤ size
  else (conf.helloAuthentication && localid t) = true

/-- **`parse_dgram` goes on** when the IP headers are found and the transport header is taken. -/
theorem parseDgram_goesOn_iff {fuel size : ℕ} {conf : Params} {localid : Tracking → Bool}
    {connection : Connection} {dgram : Memory} {msgType : UInt8} :
    (∃ r, parseDgram fuel conf localid connection dgram size msgType = some r ∧
        r.ret = .continue) ↔
      ∃ t offset, getIpHeaders fuel connection.tracking dgram size = some (t, offset) ∧
        offset ≠ 0 ∧
        TransportTaken conf localid t (transportRoom size offset) (dgram.drop offset) msgType := by
  -- the switch, for the connection that has been filled so far
  have htaken : ∀ {c : Connection} {header : Memory} {size : ℕ}, (c.state = .hellomode ↔
      (conf.helloAuthentication && localid c.tracking) = true) →
      ((∃ t, parseTransport c header size msgType = .ok t) ↔
        TransportTaken conf localid c.tracking size header msgType) := by
    intro c header size hstate
    rw [parseTransport_ok_iff, hstate]
    rfl
  constructor
  · rintro ⟨r, hr, hret⟩
    obtain ⟨t, offset, hip, ⟨-, c, rfl⟩ | ⟨hne, c, rfl, hstate, hcase⟩⟩ := parseDgram_cases hr
    · cases hret
    obtain ⟨ret, htransport, rfl⟩ | ⟨t', c', htransport, -, rfl⟩ := hcase
    · obtain rfl : ret = .continue := hret
      exact absurd htransport parseTransport_ne_continue
    · exact ⟨_, offset, hip, hne, (htaken hstate).1 ⟨t', htransport⟩⟩
  · rintro ⟨t, offset, hip, hne, haccepted⟩
    have hsome : ∃ r, parseDgram fuel conf localid connection dgram size msgType = some r := by
      rw [parseDgram, hip]
      exact ⟨_, rfl⟩
    obtain ⟨r, hr⟩ := hsome
    refine ⟨r, hr, ?_⟩
    obtain ⟨t', offset', hip', hcase⟩ := parseDgram_cases hr
    obtain ⟨rfl, rfl⟩ := Prod.mk.inj (Option.some.inj (hip.symm.trans hip'))
    obtain ⟨hzero, -⟩ | ⟨-, c, rfl, hstate, hcase⟩ := hcase
    · exact absurd hzero hne
    obtain ⟨ret, htransport, -⟩ | ⟨t', c', -, -, rfl⟩ := hcase
    · obtain ⟨t', ht'⟩ := (htaken hstate).2 haccepted
      rw [ht'] at htransport
      cases htransport
    · rfl

/-- **A connection that leaves `parse_dgram` to wait for its user.** -/
theorem parseDgram_requested {fuel : ℕ} {conf : Params} {localid : Tracking → Bool} {now : Int}
    {msg dgram : Memory} {nufwVersion dgramSize : ℕ} {msgType : UInt8} {r : NewConnection}
    {c : Connection}
    (h : parseDgram fuel conf localid (newConnection now msg nufwVersion) dgram dgramSize msgType =
      some r)
    (hret : r.ret = .continue) (hc : r.connection = some c) (hstate : c.state = .authreq) :
    Requested c ∧ c.nufwVersion = nufwVersion := by
  obtain ⟨⟨t, ipHdrSize⟩, hip, hr⟩ := Option.map_eq_some_iff.1 h
  obtain ⟨saddr, daddr, protocol, ht⟩ := getIpHeaders_eq hip
  have hpadding : t.padding = 0 := by rw [ht]; rfl
  dsimp only at hr
  split_ifs at hr with hsize hhello
  · rw [← hr] at hret
    cases hret
  · -- the hello mode is another state
    split at hr
    · rw [← hr] at hc
      rw [← Option.some.inj hc] at hstate
      cases hstate
    · rw [← hr] at hc
      rw [← Option.some.inj hc] at hstate
      cases hstate
  · split at hr
    · next ret hret' =>
      rw [← hr] at hret
      obtain rfl : ret = .continue := hret
      exact absurd hret' parseTransport_ne_continue
    · next t' ht' =>
      rw [← hr] at hc
      rw [← Option.some.inj hc]
      refine ⟨⟨⟨rfl, rfl, rfl, rfl, rfl⟩, ⟨_, rfl⟩, ?_, copyPayload_copyPayload _ _ _⟩, rfl⟩
      exact parseTransport_canonical hpadding (by simp) ht'

/-- A connection that does not go on has been freed. -/
theorem parseDgram_freed {fuel : ℕ} {conf : Params} {localid : Tracking → Bool}
    {connection : Connection} {dgram : Memory} {dgramSize : ℕ} {msgType : UInt8}
    {r : NewConnection}
    (h : parseDgram fuel conf localid connection dgram dgramSize msgType = some r)
    (hret : r.ret ≠ .continue) : r.freed = 1 := by
  obtain ⟨t, offset, -, ⟨-, c, rfl⟩ | ⟨-, c, -, -, ⟨ret, -, rfl⟩ | ⟨t', c', -, -, rfl⟩⟩⟩ :=
    parseDgram_cases h
  · rfl
  · rfl
  · exact absurd rfl hret

@[simp] theorem parseV4Fields_state (msg : Memory) (c : Connection) :
    (parseV4Fields msg c).state = c.state := by
  simp only [parseV4Fields]

@[simp] theorem parseV4Fields_nufwVersion (msg : Memory) (c : Connection) :
    (parseV4Fields msg c).nufwVersion = c.nufwVersion := by
  simp only [parseV4Fields]

@[simp] theorem parseV4Fields_tracking (msg : Memory) (c : Connection) :
    (parseV4Fields msg c).tracking = c.tracking := by
  simp only [parseV4Fields]

@[simp] theorem parseV4Fields_packetId (msg : Memory) (c : Connection) :
    (parseV4Fields msg c).packetId = c.packetId := by
  simp only [parseV4Fields]

@[simp] theorem parseV4Fields_timestamp (msg : Memory) (c : Connection) :
    (parseV4Fields msg c).timestamp = c.timestamp := by
  simp only [parseV4Fields]

@[simp] theorem parseV4Fields_mark (msg : Memory) (c : Connection) :
    (parseV4Fields msg c).mark = msg.be32 12 := by
  simp only [parseV4Fields]

theorem Requested.parseV4Fields {c : Connection} (h : Requested c) (msg : Memory) :
    Requested (parseV4Fields msg c) := by
  obtain ⟨⟨haclGroups, hdecision, hlogPrefix, hflags, hexpire⟩, hpacketId, hcanonical,
    hpayload⟩ := h
  rw [Nufw.parseV4Fields]
  exact ⟨⟨haclGroups, hdecision, hlogPrefix, hflags, hexpire⟩, hpacketId, hcanonical, hpayload⟩

/-- A function that is called on the connection of a datagram, when there is one to go on with. -/
theorem produces_requested {fuel : ℕ} {conf : Params} {localid : Tracking → Bool} {now : Int}
    {msg dgram : Memory} {nufwVersion dgramSize : ℕ} {msgType : UInt8} {r : NewConnection}
    {c : Connection} {f : Connection → Connection} (hfstate : ∀ c, (f c).state = c.state)
    (hf : ∀ c, Requested c → Requested (f c) ∧ (f c).nufwVersion = c.nufwVersion)
    (h : (parseDgram fuel conf localid (newConnection now msg nufwVersion) dgram dgramSize
      msgType).map (fun r ↦ if r.ret ≠ .continue then r
        else ⟨.ok, r.connection.map f, true, r.freed⟩) = some r)
    (hc : r.Produces c) (hstate : c.state = .authreq) :
    Requested c ∧ c.nufwVersion = nufwVersion := by
  obtain ⟨-, hconnection, -, hfreed⟩ := hc
  obtain ⟨r', hr', hr⟩ := Option.map_eq_some_iff.1 h
  by_cases hcontinue : r'.ret = .continue
  · rw [if_neg (not_not.2 hcontinue)] at hr
    rw [← hr] at hconnection
    obtain ⟨c', hc', rfl⟩ := Option.map_eq_some_iff.1 hconnection
    rw [hfstate] at hstate
    obtain ⟨hrequested, hversion⟩ := parseDgram_requested hr' hcontinue hc' hstate
    exact ⟨(hf c' hrequested).1, (hf c' hrequested).2.trans hversion⟩
  · rw [if_pos hcontinue] at hr
    rw [hr] at hr' hcontinue
    rw [parseDgram_freed hr' hcontinue] at hfreed
    cases hfreed

theorem not_produces_error {c : Connection} : ¬NewConnection.error.Produces c := fun h ↦
  absurd h.1 (by decide)

/-- **What `authpckt_new_connection` gives to its caller**, outside the hello mode. -/
theorem authpcktNewConnection_requested {fuel : ℕ} {conf : Params} {localid : Tracking → Bool}
    {now : Int} {dgram : Memory} {dgramSize : ℕ} {r : NewConnection} {c : Connection}
    (h : authpcktNewConnection fuel conf localid now dgram dgramSize = some r)
    (hc : r.Produces c) (hstate : c.state = .authreq) :
    Requested c ∧ c.nufwVersion = (dgram 0).toNat := by
  rw [authpcktNewConnection] at h
  split_ifs at h with hsize
  · exact absurd (Option.some.inj h ▸ hc) not_produces_error
  · exact produces_requested (parseV4Fields_state dgram)
      (fun c hc ↦ ⟨hc.parseV4Fields dgram, parseV4Fields_nufwVersion dgram c⟩) h hc hstate

/-- A gateway of the 2.0 series sends no supplementary fields. -/
theorem returns_eq_map_id : (fun r : NewConnection ↦ if r.ret ≠ .continue then r
    else ⟨.ok, r.connection, true, r.freed⟩) =
      fun r ↦ if r.ret ≠ .continue then r else ⟨.ok, r.connection.map id, true, r.freed⟩ := by
  simp

/-- The same for a gateway of the 2.0 series. -/
theorem authpcktNewConnectionV3_requested {fuel : ℕ} {conf : Params} {localid : Tracking → Bool}
    {now : Int} {dgram : Memory} {dgramSize : ℕ} {r : NewConnection} {c : Connection}
    (h : authpcktNewConnectionV3 fuel conf localid now dgram dgramSize = some r)
    (hc : r.Produces c) (hstate : c.state = .authreq) :
    Requested c ∧ c.nufwVersion = protoVersionNufwV20 := by
  rw [authpcktNewConnectionV3] at h
  split_ifs at h with hsize
  · exact absurd (Option.some.inj h ▸ hc) not_produces_error
  · rw [returns_eq_map_id] at h
    exact produces_requested (fun _ ↦ rfl) (fun c hc ↦ ⟨hc, rfl⟩) h hc hstate

/-- The connection of `authpckt_decode` is the one of the function it calls for the version, if the
message is one it knows. -/
theorem authpcktDecode_cases {fuel : ℕ} {conf : Params} {localid : Tracking → Bool} {now : Int}
    {dgram : Memory} {dgramSize : ℕ} {d : Decoded}
    (h : authpcktDecode fuel conf localid now dgram dgramSize = some d) :
    d.new = NewConnection.error ∧
        ¬(KnownVersion (dgram 0).toNat ∧ (dgram 1 = authRequest ∨ dgram 1 = authControl)) ∨
      ((dgram 0).toNat = protoVersionNufwV22_2 ∨ (dgram 0).toNat = protoVersionNufwV24) ∧
        (dgram 1 = authRequest ∨ dgram 1 = authControl) ∧
        authpcktNewConnection fuel conf localid now dgram dgramSize = some d.new ∨
      (dgram 0).toNat = protoVersionNufwV20 ∧ (dgram 1 = authRequest ∨ dgram 1 = authControl) ∧
        authpcktNewConnectionV3 fuel conf localid now dgram dgramSize = some d.new := by
  have hdecoded : ∀ {x : Option NewConnection}, x.map (fun r ↦
      if r.ret = .error then Decoded.mk r 0 dgramSize
      else if (dgram.be16 2).toNat < dgramSize then
        ⟨r, (dgram.be16 2).toNat, dgramSize - (dgram.be16 2).toNat⟩
      else ⟨r, 0, 0⟩) = some d → x = some d.new := by
    intro x hx
    obtain ⟨r, rfl, hd⟩ := Option.map_eq_some_iff.1 hx
    rw [← hd]
    split_ifs <;> rfl
  have hfailure : some (Decoded.mk NewConnection.error 0 dgramSize) = some d →
      d.new = NewConnection.error := fun hd ↦ by rw [← Option.some.inj hd]
  rw [authpcktDecode] at h
  split at h
  · next hversion =>
    split at h
    · next htype => exact Or.inr (Or.inl ⟨hversion, htype, hdecoded h⟩)
    · next htype => exact Or.inl ⟨hfailure h, fun hknown ↦ htype hknown.2⟩
  · next hversion =>
    split at h
    · next hv3 =>
      split at h
      · next htype => exact Or.inr (Or.inr ⟨hv3, htype, hdecoded h⟩)
      · next htype => exact Or.inl ⟨hfailure h, fun hknown ↦ htype hknown.2⟩
    · next hv3 =>
      exact Or.inl ⟨hfailure h, fun hknown ↦ hknown.1.elim hv3 hversion⟩

/-- What `treat_nufw_request` does with the connection before it goes to a queue. -/
def Connection.ofSession (c : Connection) (session : SessionId) : Connection :=
  { c with
    socket := 0
    tls := some session
    packetId := c.packetId.map fun p ↦ { p with origin := some session } }

theorem Requested.ofSession {c : Connection} (h : Requested c) (session : SessionId) :
    Requested (c.ofSession session) := by
  obtain ⟨⟨haclGroups, hdecision, hlogPrefix, hflags, hexpire⟩, ⟨p, hp⟩, hcanonical, hpayload⟩ := h
  rw [Connection.ofSession]
  exact ⟨⟨haclGroups, hdecision, hlogPrefix, hflags, hexpire⟩, ⟨_, by rw [hp]; rfl⟩, hcanonical,
    hpayload⟩

end Nufw
