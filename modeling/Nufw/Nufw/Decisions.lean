import Nufw.Nufw.Framing

/-!
# What an answer does

A gateway that reads the answer to one of its packets does what the server has decided on the
connection: `Connection.verdict` is the verdict it sets and `Connection.unreach` the ICMP message
it sends, both said in terms of the connection and not of the message. `authProcessAnswer_response`
says that `auth_process_answer` does just that with the bytes of `send_auth_response`, and
`authsrv_response` that `authsrv` does, when its reads do not cut the message.

The mark is handed to the kernel as it stands in the message, in network order. The date is compared
with `-1` after `ntohl`, as an unsigned number: a date of 32 bits is `-1` in the message when it is
`-1` on the server.
-/

namespace Nufw

/-! ### The packets that wait -/

/-- The loop finds the packet when it waits among those that are left. -/
theorem isSome_psearchLoop (params : GatewayParams) (now : Int) (packetId : UInt32)
    (previous current : List PacketIdl) (calls : List NfqCall)
    (hprevious : ∀ e ∈ previous, e.id ≠ packetId) :
    (psearchLoop params now packetId previous current calls).1.isSome = true ↔
      ∃ e ∈ current, e.id = packetId := by
  induction previous, current, calls using psearchLoop.induct params now packetId with
  | case1 previous calls => simp [psearchLoop]
  | case2 previous calls e next hid =>
    rw [psearchLoop, if_pos hid]
    exact iff_of_true rfl ⟨e, List.mem_cons_self, hid⟩
  | case3 previous calls e next hid hold ih =>
    rw [psearchLoop, if_neg hid, if_pos hold, ih (by simp)]
    -- the packets that have been passed are not the one
    constructor
    · rintro ⟨a, ha, haid⟩
      obtain ha | ha := List.mem_append.1 ha
      · exact absurd haid (hprevious a ha)
      · exact ⟨a, List.mem_cons_of_mem e ha, haid⟩
    · rintro ⟨a, ha, haid⟩
      obtain rfl | ha := List.mem_cons.1 ha
      · exact absurd haid hid
      · exact ⟨a, List.mem_append_right previous ha, haid⟩
  | case4 previous calls e next hid hold ih =>
    have hpassed : ∀ a ∈ previous ++ [e], a.id ≠ packetId := by
      intro a ha
      obtain ha | ha := List.mem_append.1 ha
      · exact hprevious a ha
      · exact List.mem_singleton.1 ha ▸ hid
    rw [psearchLoop, if_neg hid, if_neg hold, ih hpassed]
    simp [hid]

/-- `psearch_and_destroy` finds the packets that wait. -/
theorem isSome_psearchAndDestroy (params : GatewayParams) (now : Int) (packetId : UInt32)
    (packetsList : List PacketIdl) :
    (psearchAndDestroy params now packetId packetsList).1.isSome = true ↔
      ∃ e ∈ packetsList, e.id = packetId :=
  isSome_psearchLoop params now packetId [] packetsList [] (by simp)

/-! ### Verdicts -/

/-- The verdict of a gateway on a packet of the connection. -/
def Connection.verdict (env : GatewayEnv) (element : Connection) (packetId : UInt32) : NfqCall :=
  match element.decision with
  | .accept =>
    if env.params.setMark then
      if env.params.haveNfqMarkExptime ∧ element.expire ≠ -1 then
        .setVerdictMarkExptime packetId .accept (env.host.order.htonl element.mark)
          (UInt32.ofInt element.expire)
      else .setVerdictMark packetId .accept (env.host.order.htonl element.mark)
    else .setVerdict packetId .accept
  | .drop => .setVerdict packetId .drop
  | .nodecide => .setVerdict packetId .drop
  | .reject => .setVerdict packetId .drop

/-- A date of 32 bits. -/
def Expire32 (expire : Int) : Prop := -2 ^ 31 ≤ expire ∧ expire < 2 ^ 31

/-- A date of 32 bits is read back as a signed number. -/
theorem Expire32.toInt_ofInt {expire : Int} (h : Expire32 expire) :
    (UInt32.ofInt expire).toInt32.toInt = expire := by
  obtain ⟨hlo, hhi⟩ := h
  have hnonneg : 0 ≤ expire % 2 ^ 32 := Int.emod_nonneg _ (by decide)
  rw [UInt32.ofInt, UInt32.toInt32_ofNat', Int32.toInt_ofNat', Int.toNat_of_nonneg hnonneg]
  have hsize : ((Int32.size : ℕ) : Int) = 2 ^ 32 := rfl
  simp only [Int.bmod, hsize]
  omega

/-- There is no date in the message when there is none on the server. -/
theorem Expire32.eq_neg_one_iff {expire : Int} (h : Expire32 expire) :
    UInt32.ofInt expire = 0xffffffff ↔ expire = -1 := by
  constructor
  · intro heq
    have hint := h.toInt_ofInt
    rw [heq] at hint
    exact hint.symm
  · rintro rfl
    rfl

/-- The verdict on an accepted packet is the one of its connection. -/
theorem acceptCall_eq (env : GatewayEnv) {host : Host} {element : Connection} {packetId : UInt32}
    {m : Memory} (h : IsAnswer host element packetId m) (hexpire : Expire32 element.expire)
    (hdecision : element.decision = .accept) :
    acceptCall env packetId m = element.verdict env packetId := by
  have hdate : m.be32 12 ≠ 0xffffffff ↔ element.expire ≠ -1 := by
    rw [h.expiration, ne_eq, hexpire.eq_neg_one_iff]
  rw [acceptCall, Connection.verdict, hdecision]
  simp only [hdate, h.mark.host32_eq env.host.order]
  simp only [h.expiration]

/-! ### Rejections -/

/-- The ICMP message for an IPv4 packet, which quotes what follows the IP header. -/
def icmpv4Message (env : GatewayEnv) (quoted : Bytes) : Bytes :=
  let buffer := env.host.stack.write 0 ([3, 3, 0, 0, 0, 0, 0, 0] ++ quoted)
  [3, 3] ++
    hostBytes16 env.host.order (icmpCksum env.host.order buffer (icmphdrSize + quoted.length)) ++
    [0, 0, 0, 0] ++ quoted

/-- The ICMP message for an IPv6 packet, which quotes the whole packet. -/
def icmpv6Message (packet : Bytes) : Bytes := [1, 0, 0, 0, 0, 0, 0, 0] ++ packet

/-- The IPv4 address in an address with the prefix `::ffff:`. -/
def ipv4Of (a : In6Addr) : Vector UInt8 4 := Vector.ofFn fun i ↦ a[12 + i.val]

theorem toList_ipv4Of (a : In6Addr) : (ipv4Of a).toList = a.toList.drop 12 := by
  refine List.ext_getElem (by simp) fun i hi hi' ↦ ?_
  simp [ipv4Of]

/-- What `send_icmp_unreach` is given for a connection over IPv4, and what it does with it. -/
structure UnreachIpv4 (env : GatewayEnv) (element : Connection) (data : Memory) (size : ℕ) :
    Prop where
  size_eq : size = iphdrRejectLength + element.payloadLen
  /-- The IPv4 function is chosen. -/
  chosen : sendIcmpUnreach env.host.order env.params.rawSock6 env.host.stack data size =
    sendIcmpIpv4Unreach env.host.order env.host.stack data size
  /-- The address of the source stands where the function looks for it. -/
  source : data.bytes 12 4 = ipv4Of element.tracking.saddr
  dest : data.bytes 16 4 = ipv4Of element.tracking.daddr
  /-- Both checks of the length pass. -/
  sent : sendIcmpIpv4Unreach env.host.order env.host.stack data size =
    .sent (.ipv4 (ipv4Of element.tracking.saddr) (icmpv4Message env element.storedPayload))

/-- What `send_icmp_unreach` is given for any other connection, and what it does with it. -/
structure UnreachIpv6 (env : GatewayEnv) (host : Host) (element : Connection) (data : Memory)
    (size : ℕ) : Prop where
  size_eq : size = ip6hdrRejectLength + element.payloadLen
  /-- The IPv6 function is chosen. -/
  chosen : sendIcmpUnreach env.host.order env.params.rawSock6 env.host.stack data size =
    sendIcmpIpv6Unreach env.params.rawSock6 data size
  source : data.bytes 8 16 = element.tracking.saddr
  dest : data.bytes 24 16 = element.tracking.daddr
  /-- The check of the length passes; the message is sent if there is a socket for it. -/
  sent : sendIcmpIpv6Unreach env.params.rawSock6 data size =
    if env.params.rawSock6 = true then
      .sent (.ipv6 element.tracking.saddr
        (icmpv6Message (addIcmpv6RejectData host.order element)))
    else .skipped

/-- A rejection over IPv4. -/
theorem unreachIpv4 (env : GatewayEnv) {element : Connection} {data : Memory}
    (hpayload : element.payloadLen ≤ storedPayloadSize)
    (h : data.Holds 0 (addIcmpRejectData element)) :
    UnreachIpv4 env element data (iphdrRejectLength + element.payloadLen) := by
  have hstored : storedPayloadSize = 128 := rfl
  have hheader : iphdrRejectLength = 20 := rfl
  have hicmp : icmphdrSize = 8 := rfl
  have hlength := length_storedPayload hpayload
  rw [addIcmpRejectData, ← toList_ipv4Of, ← toList_ipv4Of] at h
  simp only [Memory.holds_append, List.length_append, List.length_cons, List.length_nil,
    Vector.length_toList] at h
  obtain ⟨⟨⟨⟨⟨⟨⟨hversion, -⟩, -⟩, -⟩, -⟩, hsaddr⟩, hdaddr⟩, hquoted⟩ := h
  have hquote : (data.bytes 20 element.payloadLen).toList = element.storedPayload :=
    Memory.Holds.toList_bytes hquoted hlength
  have hsource : data.bytes 12 4 = ipv4Of element.tracking.saddr := Memory.Holds.bytes_eq hsaddr
  refine ⟨rfl, ?_, hsource, Memory.Holds.bytes_eq hdaddr, ?_⟩
  · rw [sendIcmpUnreach, hversion]
    rfl
  · have hsize : iphdrRejectLength + element.payloadLen - 20 = element.payloadLen := by omega
    have htotal : icmphdrSize + (iphdrRejectLength + element.payloadLen) - 20 =
        icmphdrSize + element.storedPayload.length := by omega
    rw [sendIcmpIpv4Unreach, if_neg (by omega), if_neg (by omega)]
    dsimp only
    rw [hsize, hquote, htotal, hsource]
    rfl

/-- A rejection over IPv6. -/
theorem unreachIpv6 (env : GatewayEnv) (host : Host) {element : Connection} {data : Memory}
    (hpayload : element.payloadLen ≤ storedPayloadSize)
    (h : data.Holds 0 (addIcmpv6RejectData host.order element)) :
    UnreachIpv6 env host element data (ip6hdrRejectLength + element.payloadLen) := by
  have hstored : storedPayloadSize = 128 := rfl
  have hheader : ip6hdrRejectLength = 40 := rfl
  have hicmp : icmphdrSize = 8 := rfl
  have hpacket := Memory.Holds.toList_bytes h (length_addIcmpv6RejectData host.order hpayload)
  -- the first byte of the header is `0x60` or `0`
  have hfields : data 0 / 16 ≠ afInet ∧ data.Holds 8 element.tracking.saddr.toList ∧
      data.Holds 24 element.tracking.daddr.toList := by
    cases horder : host.order with
    | little =>
      simp only [horder, addIcmpv6RejectData, Memory.holds_append, List.length_append,
        List.length_cons, List.length_nil, Vector.length_toList] at h
      obtain ⟨⟨⟨⟨⟨hversion, -⟩, -⟩, hsaddr⟩, hdaddr⟩, -⟩ := h
      exact ⟨by rw [hversion.1]; decide, hsaddr, hdaddr⟩
    | big =>
      simp only [horder, addIcmpv6RejectData, Memory.holds_append, List.length_append,
        List.length_cons, List.length_nil, Vector.length_toList] at h
      obtain ⟨⟨⟨⟨⟨hversion, -⟩, -⟩, hsaddr⟩, hdaddr⟩, -⟩ := h
      exact ⟨by rw [hversion.1]; decide, hsaddr, hdaddr⟩
  obtain ⟨hnibble, hsaddr, hdaddr⟩ := hfields
  have hsource : data.bytes 8 16 = element.tracking.saddr := Memory.Holds.bytes_eq hsaddr
  refine ⟨rfl, ?_, hsource, Memory.Holds.bytes_eq hdaddr, ?_⟩
  · rw [sendIcmpUnreach, if_neg hnibble]
  · rw [sendIcmpIpv6Unreach, if_neg (by omega), hsource, hpacket]
    cases env.params.rawSock6 <;> rfl

/-- The ICMP message that a gateway sends for a connection, if any. -/
def Connection.unreach (env : GatewayEnv) (host : Host) (element : Connection) :
    List IcmpOutcome :=
  if element.decision ≠ .reject then []
  else if useIcmp6 element = false then
    [.sent (.ipv4 (ipv4Of element.tracking.saddr) (icmpv4Message env element.storedPayload))]
  else if env.params.rawSock6 = true then
    [.sent (.ipv6 element.tracking.saddr (icmpv6Message (addIcmpv6RejectData host.order element)))]
  else [.skipped]

/-! ### Answers -/

/-- **What a gateway is to do with the answer for a packet**: set the verdict of the connection and
send its ICMP message, provided that the packet waits. -/
def Gateway.answered (env : GatewayEnv) (now : Int) (host : Host) (element : Connection)
    (packetId : UInt32) (g : Gateway) : Gateway :=
  let found := psearchAndDestroy env.params now packetId g.packetsList
  if found.1.isSome = true then
    { packetsList := found.2.1
      calls := g.calls ++ found.2.2 ++ [element.verdict env packetId]
      icmp := g.icmp ++ element.unreach env host }
  else { g with packetsList := found.2.1, calls := g.calls ++ found.2.2 }

/-- The packet of an answer waits. -/
def Gateway.Waits (g : Gateway) (packetId : UInt32) : Prop := ∃ e ∈ g.packetsList, e.id = packetId

instance (g : Gateway) (packetId : UInt32) : Decidable (g.Waits packetId) :=
  inferInstanceAs (Decidable (∃ e ∈ g.packetsList, e.id = packetId))

theorem Decision.toByte_inj {d d' : Decision} : d.toByte = d'.toByte ↔ d = d' := by
  cases d <;> cases d' <;> decide

/-- A rejection is sent over ICMP when both addresses are IPv4 ones. -/
theorem useIcmp6_eq_false {element : Connection} :
    useIcmp6 element = false ↔
      isIpv4 element.tracking.saddr = true ∧ isIpv4 element.tracking.daddr = true := by
  simp [useIcmp6]

/-- The payload of a rejection over IPv4. -/
theorem IsAnswer.unreachIpv4 (env : GatewayEnv) {host : Host} {element : Connection}
    {packetId : UInt32} {m : Memory} (h : IsAnswer host element packetId m)
    (hpayload : element.payloadLen ≤ storedPayloadSize) (hdecision : element.decision = .reject)
    (h6 : useIcmp6 element = false) :
    UnreachIpv4 env element (m.drop nuv5DecisionResponseSize) (m.be16 16).toNat := by
  have hdata := h.payload
  rw [rejectData, if_pos hdecision, h6] at hdata
  have hsize : (rejectData host (useIcmp6 element) element).2.length =
      iphdrRejectLength + element.payloadLen := by
    rw [rejectData, if_pos hdecision, h6]
    exact length_addIcmpRejectData hpayload
  rw [h.payloadLen, hsize]
  exact Nufw.unreachIpv4 env hpayload hdata

/-- The payload of another rejection. -/
theorem IsAnswer.unreachIpv6 (env : GatewayEnv) {host : Host} {element : Connection}
    {packetId : UInt32} {m : Memory} (h : IsAnswer host element packetId m)
    (hpayload : element.payloadLen ≤ storedPayloadSize) (hdecision : element.decision = .reject)
    (h6 : useIcmp6 element = true) :
    UnreachIpv6 env host element (m.drop nuv5DecisionResponseSize) (m.be16 16).toNat := by
  have hdata := h.payload
  rw [rejectData, if_pos hdecision, h6] at hdata
  have hsize : (rejectData host (useIcmp6 element) element).2.length =
      ip6hdrRejectLength + element.payloadLen := by
    rw [rejectData, if_pos hdecision, h6]
    exact length_addIcmpv6RejectData host.order hpayload
  rw [h.payloadLen, hsize]
  exact Nufw.unreachIpv6 env host hpayload hdata

/-- What `send_icmp_unreach` does with the payload of a rejection. -/
theorem sendIcmpUnreach_eq (env : GatewayEnv) {host : Host} {element : Connection}
    {packetId : UInt32} {m : Memory} (h : IsAnswer host element packetId m)
    (hpayload : element.payloadLen ≤ storedPayloadSize) (hdecision : element.decision = .reject) :
    [sendIcmpUnreach env.host.order env.params.rawSock6 env.host.stack
      (m.drop nuv5DecisionResponseSize) (m.be16 16).toNat] = element.unreach env host := by
  rw [Connection.unreach, if_neg (not_not.2 hdecision)]
  cases h6 : useIcmp6 element with
  | false =>
    have hunreach := h.unreachIpv4 env hpayload hdecision h6
    rw [if_pos rfl, hunreach.chosen, hunreach.sent]
  | true =>
    have hunreach := h.unreachIpv6 env hpayload hdecision h6
    rw [if_neg (by decide), hunreach.chosen, hunreach.sent]
    split <;> rfl

/-- **`auth_process_answer` does what the server has decided**, and returns the size of the message
when the packet waits. -/
theorem authProcessAnswer_response (env : GatewayEnv) (now : Int) (g : Gateway) {host : Host}
    {element : Connection} {packetId : UInt32} {message : Bytes} {m : Memory}
    (hversion : element.nufwVersion = protoVersionNufwV24)
    (hpayload : element.payloadLen ≤ storedPayloadSize) (hexpire : Expire32 element.expire)
    (hmessage : authResponse host element packetId = some message) (hm : m.Holds 0 message) :
    authProcessAnswer env now g m message.length =
      (if g.Waits packetId then some message.length else none,
        g.answered env now host element packetId) := by
  have h := isAnswer hversion hpayload hmessage hm
  have hlength := length_authResponse hversion hmessage
  have hsize : (m.be16 16).toNat + nuv5DecisionResponseSize = message.length := by
    rw [h.payloadLen, hlength, Nat.add_comm]
  have h16 : nuv4DecisionResponseSize ≤ message.length := by
    rw [hlength]
    exact Nat.le_add_right_of_le (by decide)
  have hfound := isSome_psearchAndDestroy env.params now packetId g.packetsList
  rw [authProcessAnswer, if_neg (by omega)]
  dsimp only
  rw [if_neg (by omega), h.packetId, Gateway.answered]
  generalize psearchAndDestroy env.params now packetId g.packetsList = found at hfound ⊢
  obtain ⟨mark, packetsList, dropped⟩ := found
  cases mark with
  | none =>
    have hwaits : ¬g.Waits packetId := fun hw ↦ absurd (hfound.2 hw) Bool.false_ne_true
    rw [if_neg hwaits]
    rfl
  | some mark =>
    have hwaits : g.Waits packetId := hfound.1 rfl
    dsimp only
    rw [if_pos hwaits, if_pos (Option.isSome_some), h.decision, hsize]
    cases hdecision : element.decision with
    | accept =>
      rw [if_pos rfl, acceptCall_eq env h hexpire hdecision, Connection.unreach,
        if_pos (by rw [hdecision]; decide), List.append_nil]
    | reject =>
      rw [if_neg (by decide), if_pos rfl, ← sendIcmpUnreach_eq env h hpayload hdecision,
        Connection.verdict, hdecision]
    | drop =>
      rw [if_neg (by decide), if_neg (by decide), Connection.unreach,
        if_pos (by rw [hdecision]; decide), List.append_nil, Connection.verdict, hdecision]
    | nodecide =>
      rw [if_neg (by decide), if_neg (by decide), Connection.unreach,
        if_pos (by rw [hdecision]; decide), List.append_nil, Connection.verdict, hdecision]

/-- **`authsrv` does what the server has decided**, when its reads do not cut the message. -/
theorem authsrv_response (env : GatewayEnv) (now : Int) {host : Host} {element : Connection}
    {packetId : UInt32} {message rest : Bytes} {reads : ℕ → ReadResult} {s : AnswerSession}
    {passes : ℕ} (hversion : element.nufwVersion = protoVersionNufwV24)
    (hpayload : element.payloadLen ≤ storedPayloadSize) (hexpire : Expire32 element.expire)
    (hmessage : authResponse host element packetId = some message) (hsession : s.session = true)
    (hstream : s.stream = message ++ rest) (hheader : HeaderWithin reads 0 0 passes)
    (hannounced : announcedPayload s.stream = 0 ∨
      ∃ n, reads passes = .data n ∧ announcedPayload s.stream ≤ n + 1) :
    authsrv env now reads s =
      (.ok, { s with
        stream := rest
        gateway := s.gateway.answered env now host element packetId
        processed := s.processed ++ [message] }) := by
  have h : AnswerMessage message := ⟨host, element, packetId, hversion, hpayload, hmessage⟩
  obtain ⟨m, hm, hcall⟩ := authsrv_message env now h hsession hstream hheader hannounced
  rw [hcall, authPacketToDecision_eq env now s.gateway h hm,
    authProcessAnswer_response env now s.gateway hversion hpayload hexpire hmessage hm]

/-- **What a gateway reads in an answer.** -/
structure ReadsBack (env : GatewayEnv) (host : Host) (element : Connection) (packetId : UInt32)
    (m : Memory) : Prop where
  packetId : m.be32 4 = packetId
  decision : ∀ d : Decision, m 2 = d.toByte ↔ element.decision = d
  /-- The mark handed to the kernel has the bytes of network order. -/
  mark : env.host.order.bytes32 (m.host32 env.host.order 8) = bigEndian32 element.mark
  expiration : (m.be32 12).toInt32.toInt = element.expire
  /-- `ntohl (answer->expiration) != -1` says whether there is a date. -/
  unlimited : m.be32 12 = 0xffffffff ↔ element.expire = -1
  payload : ((m.drop nuv5DecisionResponseSize).bytes 0 (m.be16 16).toNat).toList =
    (rejectData host (useIcmp6 element) element).2
  ipv4 : element.decision = .reject → isIpv4 element.tracking.saddr = true →
    isIpv4 element.tracking.daddr = true →
    UnreachIpv4 env element (m.drop nuv5DecisionResponseSize) (m.be16 16).toNat
  ipv6 : element.decision = .reject →
    ¬(isIpv4 element.tracking.saddr = true ∧ isIpv4 element.tracking.daddr = true) →
    UnreachIpv6 env host element (m.drop nuv5DecisionResponseSize) (m.be16 16).toNat

theorem IsAnswer.readsBack (env : GatewayEnv) {host : Host} {element : Connection}
    {packetId : UInt32} {m : Memory} (h : IsAnswer host element packetId m)
    (hpayload : element.payloadLen ≤ storedPayloadSize) (hexpire : Expire32 element.expire) :
    ReadsBack env host element packetId m where
  packetId := h.packetId
  decision d := by rw [h.decision, Decision.toByte_inj]
  mark := by rw [h.mark.host32_eq, Memory.bytes32_htonl]
  expiration := by rw [h.expiration, hexpire.toInt_ofInt]
  unlimited := by rw [h.expiration, hexpire.eq_neg_one_iff]
  payload := h.payload.toList_bytes h.payloadLen.symm
  ipv4 hdecision hsaddr hdaddr :=
    h.unreachIpv4 env hpayload hdecision (useIcmp6_eq_false.2 ⟨hsaddr, hdaddr⟩)
  ipv6 hdecision haddr := by
    refine h.unreachIpv6 env hpayload hdecision ((Bool.not_eq_false _).mp fun h6 ↦ ?_)
    exact haddr (useIcmp6_eq_false.1 h6)

/-- The three protocols that `send_auth_response` knows. -/
def answerVersions : List ℕ := [protoVersionNufwV20, protoVersionNufwV22_2, protoVersionNufwV24]

theorem exists_authResponse (host : Host) {element : Connection} (packetId : UInt32)
    (h : element.nufwVersion ∈ answerVersions) :
    ∃ message, authResponse host element packetId = some message := by
  rw [authResponse]
  split_ifs with h20 h22 h24
  · exact ⟨_, rfl⟩
  · exact ⟨_, rfl⟩
  · exact ⟨_, rfl⟩
  · simp [answerVersions, h20, h22, h24] at h

/-- **The answer comes back.** In each of the three protocols the message fits in the buffer it is
built in. In the current one, a gateway finds in the message what the server has put there,
`auth_process_answer` returns the size of the message when the packet waits, and both it and
`authsrv` do what the server has decided. -/
theorem answer_roundTrip (host : Host) {element : Connection} (packetId : UInt32)
    (hpayload : element.payloadLen ≤ storedPayloadSize) :
    (element.nufwVersion ∈ answerVersions → ∃ message,
      authResponse host element packetId = some message ∧ message.length ≤ responseBufferSize) ∧
    (element.nufwVersion = protoVersionNufwV24 → Expire32 element.expire → ∃ message,
      authResponse host element packetId = some message ∧
      ∀ (env : GatewayEnv) (now : Int),
        (∀ (m : Memory) (g : Gateway), m.Holds 0 message →
          ReadsBack env host element packetId m ∧
          authProcessAnswer env now g m message.length =
            (if g.Waits packetId then some message.length else none,
              g.answered env now host element packetId)) ∧
        (∀ (s : AnswerSession) (reads : ℕ → ReadResult) (rest : Bytes) (passes : ℕ),
          s.session = true → s.stream = message ++ rest → HeaderWithin reads 0 0 passes →
          (announcedPayload s.stream = 0 ∨
            ∃ n, reads passes = .data n ∧ announcedPayload s.stream ≤ n + 1) →
          authsrv env now reads s =
            (.ok, { s with
              stream := rest
              gateway := s.gateway.answered env now host element packetId
              processed := s.processed ++ [message] }))) := by
  constructor
  · intro hversion
    obtain ⟨message, hmessage⟩ := exists_authResponse host packetId hversion
    exact ⟨message, hmessage, length_authResponse_le hpayload hmessage⟩
  · intro hversion hexpire
    have hmessage := authResponse_v24 host packetId hversion
    refine ⟨_, hmessage, fun env now ↦ ⟨fun m g hm ↦ ⟨?_, ?_⟩, ?_⟩⟩
    · exact (isAnswer hversion hpayload hmessage hm).readsBack env hpayload hexpire
    · exact authProcessAnswer_response env now g hversion hpayload hexpire hmessage hm
    · intro s reads rest passes hsession hstream hheader hannounced
      exact authsrv_response env now hversion hpayload hexpire hmessage hsession hstream hheader
        hannounced

/-- A rejected connection from `192.168.0.2` to `192.168.0.3`. -/
def Connection.rejectedIpv4 : Connection :=
  { Connection.rejected with
    tracking := { Tracking.zero with
      protocol := ipprotoUdp
      saddr := #v[0, 0, 0, 0, 0, 0, 0, 0, 0, 0, 0xff, 0xff, 192, 168, 0, 2]
      daddr := #v[0, 0, 0, 0, 0, 0, 0, 0, 0, 0, 0xff, 0xff, 192, 168, 0, 3] }
    mark := 5
    expire := -1
    payloadLen := 8 }

/-- A gateway where packet `7` waits. -/
def Gateway.one : Gateway := ⟨[⟨7, 0, 0⟩], [], []⟩

/-- Its message has 48 bytes, and is read back by a gateway where the packet waits. -/
theorem rejectedIpv4_roundTrip :
    ∃ message, authResponse GatewayEnv.little.host Connection.rejectedIpv4 7 = some message ∧
      message.length = 48 ∧
      ReadsBack GatewayEnv.little GatewayEnv.little.host Connection.rejectedIpv4 7
        (Memory.ofBytes message) ∧
      authProcessAnswer GatewayEnv.little 0 Gateway.one (Memory.ofBytes message) message.length =
        (some 48, Gateway.one.answered GatewayEnv.little 0 GatewayEnv.little.host
          Connection.rejectedIpv4 7) := by
  obtain ⟨message, hmessage, hread⟩ := (answer_roundTrip GatewayEnv.little.host 7
    (show Connection.rejectedIpv4.payloadLen ≤ storedPayloadSize by decide)).2 rfl
    ⟨by decide, by decide⟩
  have hlength : message.length = 48 := by
    have hsome : ((authResponse GatewayEnv.little.host Connection.rejectedIpv4 7).getD []).length =
        48 := by decide +kernel
    rwa [hmessage, Option.getD_some] at hsome
  obtain ⟨hback, hprocess⟩ := (hread GatewayEnv.little 0).1 (Memory.ofBytes message) Gateway.one
    (Memory.holds_ofBytes message)
  rw [hlength, if_pos (by decide)] at hprocess
  exact ⟨message, hmessage, hlength, hback, by rw [hlength]; exact hprocess⟩

end Nufw
