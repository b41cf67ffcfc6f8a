import Nufw.Nufw.Packetsrv
import Nufw.Nuauth.Halves

/-!
# Requests on the wire

The message that a gateway builds for a queued packet, as the authentication server reads it. The
server sees the first 432 bytes of the packet, behind a header of 80 bytes; what lies behind the
message in its buffer is not known.

Every field comes back as it was but the mark, which `auth_request_send` stores in the order of the
host and `parse_v4_fields` reads in network order.
-/

namespace Nufw

/-! ### Parsing a copy of a datagram -/

section Copies

variable {dgram copy : Memory} {size : ℕ}

theorem nextExtHeader_copy {protocol : UInt8} {offset : ℕ} (hcopy : ∀ i < size, copy i = dgram i)
    (hoffset : offset + 1 < size) :
    nextExtHeader copy protocol offset = nextExtHeader dgram protocol offset := by
  rw [nextExtHeader, nextExtHeader, hcopy _ (by omega), hcopy _ hoffset]

theorem nextExtHeader_le {protocol protocol' : UInt8} {offset offset' : ℕ}
    (h : nextExtHeader dgram protocol offset = some (protocol', offset')) : offset ≤ offset' := by
  rw [nextExtHeader] at h
  split_ifs at h
  · obtain ⟨-, rfl⟩ := Prod.mk.inj (Option.some.inj h)
    omega
  · obtain ⟨-, rfl⟩ := Prod.mk.inj (Option.some.inj h)
    omega

/-- The loop over extension headers goes forward. -/
theorem skipExtHeaders_le {fuel : ℕ} {protocol protocol' : UInt8} {offset offset' : ℕ}
    (h : skipExtHeaders dgram fuel protocol offset = some (protocol', offset')) :
    offset ≤ offset' := by
  induction fuel generalizing protocol offset with
  | zero => cases h
  | succ fuel ih =>
    rw [skipExtHeaders] at h
    split at h
    · next hnext => exact Nat.le_trans (nextExtHeader_le hnext) (ih h)
    · obtain ⟨-, rfl⟩ := Prod.mk.inj (Option.some.inj h)
      exact Nat.le_refl _

/-- It reads nothing beyond the first two bytes behind the last header it skips. -/
theorem skipExtHeaders_copy {fuel : ℕ} {protocol protocol' : UInt8} {offset offset' : ℕ}
    (hcopy : ∀ i < size, copy i = dgram i) (hoffset : offset' + 1 < size)
    (h : skipExtHeaders dgram fuel protocol offset = some (protocol', offset')) :
    skipExtHeaders copy fuel protocol offset = some (protocol', offset') := by
  induction fuel generalizing protocol offset with
  | zero => cases h
  | succ fuel ih =>
    have hle := skipExtHeaders_le h
    rw [skipExtHeaders, nextExtHeader_copy hcopy (by omega)]
    rw [skipExtHeaders] at h
    split at h
    · exact ih h
    · exact h

/-- **The IP headers of a copy** are those of the datagram, when the copy goes beyond them. -/
theorem getIpHeaders_copy {fuel dgramSize offset : ℕ} {t₀ t : Tracking}
    (hcopy : ∀ i < size, copy i = dgram i) (hsize : 20 ≤ size) (hoffset : offset + 1 < size)
    (hne : offset ≠ 0) (h : getIpHeaders fuel t₀ dgram dgramSize = some (t, offset)) :
    getIpHeaders fuel t₀ copy size = some (t, offset) := by
  have hzero : copy 0 = dgram 0 := hcopy 0 (by omega)
  rw [getIpHeaders] at h ⊢
  rw [if_neg (by omega), hzero]
  split_ifs at h with hshort hv4 hv6 hshort6
  · exact absurd (Prod.mk.inj (Option.some.inj h)).2.symm hne
  · rw [if_pos hv4, Memory.bytes_congr hcopy (by omega), Memory.bytes_congr hcopy (by omega),
      hcopy 9 (by omega), h]
  · exact absurd (Prod.mk.inj (Option.some.inj h)).2.symm hne
  · obtain ⟨⟨protocol, offset'⟩, hskip, hr⟩ := Option.map_eq_some_iff.1 h
    obtain ⟨-, rfl⟩ := Prod.mk.inj hr
    have hle := skipExtHeaders_le hskip
    rw [if_neg hv4, if_pos hv6, if_neg (by omega), hcopy 6 (by omega),
      skipExtHeaders_copy hcopy hoffset hskip, Memory.bytes_congr hcopy (by omega),
      Memory.bytes_congr hcopy (by omega)]
    exact congrArg some hr
  · exact absurd (Prod.mk.inj (Option.some.inj h)).2.symm hne

theorem getTcpHeaders_copy (t : Tracking) (hcopy : ∀ i < size, copy i = dgram i) :
    getTcpHeaders t copy size = getTcpHeaders t dgram size := by
  rw [getTcpHeaders, getTcpHeaders]
  split_ifs with hsize
  · rfl
  · rw [Memory.be16_congr hcopy (by omega), Memory.be16_congr hcopy (by omega), hcopy 13 (by omega)]

theorem getUdpHeaders_copy (t : Tracking) (hcopy : ∀ i < size, copy i = dgram i) :
    getUdpHeaders t copy size = getUdpHeaders t dgram size := by
  rw [getUdpHeaders, getUdpHeaders]
  split_ifs with hsize
  · rfl
  · rw [Memory.be16_congr hcopy (by omega), Memory.be16_congr hcopy (by omega)]

theorem getIcmpHeaders_copy (t : Tracking) (hcopy : ∀ i < size, copy i = dgram i) :
    getIcmpHeaders t copy size = getIcmpHeaders t dgram size := by
  rw [getIcmpHeaders, getIcmpHeaders]
  split_ifs with hsize
  · rfl
  · rw [hcopy 0 (by omega), hcopy 1 (by omega)]

/-- The transport header of a copy. -/
theorem parseTransport_copy (connection : Connection) (msgType : UInt8)
    (hcopy : ∀ i < size, copy i = dgram i) :
    parseTransport connection copy size msgType = parseTransport connection dgram size msgType := by
  unfold parseTransport parseTcp getIcmpv6Headers
  dsimp only
  rw [getTcpHeaders_copy _ hcopy, getUdpHeaders_copy _ hcopy, getIcmpHeaders_copy _ hcopy]

end Copies

/-! ### Parsing a request -/

/-- A TCP header of a request is taken when its flags tell a state. -/
theorem parseTcp_request {t : Tracking} {dgram : Memory} {size : ℕ} (hsize : 20 ≤ size) :
    (∃ t', parseTcp t dgram size authRequest = .ok t') ↔ HasState (dgram 13) := by
  rw [parseTcp_ok_iff, TcpTaken, and_iff_right hsize]
  exact and_iff_left fun h ↦ absurd h (by decide)

/-- The transport header of a request for one of the four protocols. -/
theorem parseTransport_request {connection : Connection} {dgram : Memory} {size : ℕ}
    (hsupported : connection.tracking.Supported)
    (hsize : transportSize connection.tracking.protocol ≤ size)
    (hflags : connection.tracking.protocol = ipprotoTcp → HasState (dgram 13)) :
    parseTransport connection dgram size authRequest =
      .ok (connection.tracking.withNumbers (headerNumbers connection.tracking.protocol dgram)) := by
  rw [transportSize] at hsize
  unfold parseTransport
  dsimp only
  split_ifs at hsize ⊢ with htcp hudp hicmp hicmpv6 hhello
  · have hports : HasPorts connection.tracking.protocol := Or.inl htcp
    obtain ⟨t, ht⟩ := (parseTcp_request hsize).2 (hflags htcp)
    rw [ht, parseTcp_eq ht, Tracking.withNumbers, headerNumbers, if_pos hports, if_pos hports]
  · have hports : HasPorts connection.tracking.protocol := Or.inr hudp
    rw [getUdpHeaders, if_neg (by omega), Tracking.withNumbers, headerNumbers, if_pos hports,
      if_pos hports]
    rfl
  · rw [getIcmpHeaders, if_neg (by omega), Tracking.withNumbers, headerNumbers,
      if_neg (not_hasPorts (Or.inl hicmp)), if_neg (not_hasPorts (Or.inl hicmp))]
    simp
  · rw [getIcmpv6Headers, getIcmpHeaders, if_neg (by omega), Tracking.withNumbers, headerNumbers,
      if_neg (not_hasPorts (Or.inr hicmpv6)), if_neg (not_hasPorts (Or.inr hicmpv6))]
    simp
  · rcases hsupported with h | h | h | h
    · exact absurd h htcp
    · exact absurd h hudp
    · exact absurd h hicmp
    · exact absurd h hicmpv6
  · rcases hsupported with h | h | h | h
    · exact absurd h htcp
    · exact absurd h hudp
    · exact absurd h hicmp
    · exact absurd h hicmpv6

/-- The size left behind the IP headers, when they are within the datagram. -/
theorem size_sub_offset {size offset : ℕ} (hoffset : offset ≤ size) (hsize : size < 2 ^ 32) :
    (size + 2 ^ 32 - offset % 2 ^ 32) % 2 ^ 32 = size - offset :=
  transportRoom_eq hoffset hsize

/-- `parse_dgram` goes on when both headers are taken, and keeps what it does not parse. -/
theorem parseDgram_continue {fuel size offset : ℕ} (conf : Params) (localid : Tracking → Bool)
    {connection : Connection} {dgram : Memory} {msgType : UInt8} {t t' : Tracking}
    (hip : getIpHeaders fuel connection.tracking dgram size = some (t, offset))
    (hne : offset ≠ 0) (hoffset : offset ≤ size) (hsize : size < 2 ^ 32)
    (htransport : ∀ c : Connection, c.tracking = t →
      parseTransport c (dgram.drop offset) (size - offset) msgType = .ok t') :
    ∃ c : Connection, parseDgram fuel conf localid connection dgram size msgType =
        some ⟨.continue, some c, conf.helloAuthentication && localid t, 0⟩ ∧
      c.tracking = t' ∧ c.packetId = connection.packetId ∧ c.timestamp = connection.timestamp := by
  rw [parseDgram, hip, Option.map_some]
  dsimp only
  rw [if_neg hne, size_sub_offset hoffset hsize]
  split_ifs
  · rw [htransport _ rfl]
    exact ⟨_, rfl, rfl, rfl, rfl⟩
  · rw [htransport _ rfl]
    exact ⟨_, rfl, rfl, rfl, rfl⟩

/-! ### The message -/

theorem sentLength_le (payloadLen : ℕ) :
    sentLength payloadLen ≤ payloadLen ∧ sentLength payloadLen ≤ 432 := by
  rw [sentLength]
  split_ifs with h <;> simp only [requestBufferSize, nuv4AuthMessageSize] at h ⊢ <;> omega

/-- What is sent of a payload is the whole of it, or 432 bytes. -/
theorem le_sentLength {n payloadLen : ℕ} (h : n ≤ payloadLen) (hn : n ≤ 432) :
    n ≤ sentLength payloadLen := by
  rw [sentLength]
  split_ifs with h' <;> simp only [requestBufferSize, nuv4AuthMessageSize] at h' ⊢ <;> omega

/-- A memory that starts with the message of a packet, field by field. -/
structure IsRequest (order : ByteOrder) (type : UInt8) (pckt : QueuedPckt) (m : Memory) :
    Prop where
  version : m 0 = UInt8.ofNat protoVersionNufwV24
  type : m 1 = type
  length : (m.be16 2).toNat = nuv4AuthMessageSize + sentLength pckt.payloadLen
  packetId : m.be32 4 = pckt.packetId
  timestamp : m.be32 8 = UInt32.ofInt pckt.timestamp
  mark : m.Holds 12 (order.bytes32 pckt.mark)
  indev : m.bytes 16 16 = pckt.indev
  physindev : m.bytes 32 16 = pckt.physindev
  outdev : m.bytes 48 16 = pckt.outdev
  physoutdev : m.bytes 64 16 = pckt.physoutdev
  payload : ∀ i < sentLength pckt.payloadLen, m.drop nuv4AuthMessageSize i = pckt.payload i

theorem length_authRequestMessage {order : ByteOrder} {type : UInt8} {pckt : QueuedPckt}
    {message : Bytes} (h : authRequestMessage order type pckt = some message) :
    message.length = nuv4AuthMessageSize + sentLength pckt.payloadLen := by
  rw [authRequestMessage] at h
  split_ifs at h
  rw [← Option.some.inj h]
  simp [nuv4AuthMessageSize]
  omega

theorem isRequest {order : ByteOrder} {type : UInt8} {pckt : QueuedPckt} {message : Bytes}
    {m : Memory} (h : authRequestMessage order type pckt = some message) (hm : m.Holds 0 message) :
    IsRequest order type pckt m := by
  have hlength := (sentLength_le pckt.payloadLen).2
  rw [authRequestMessage] at h
  split_ifs at h
  rw [← Option.some.inj h] at hm
  simp only [Memory.holds_append, List.length_append, length_htons, length_htonl,
    ByteOrder.length_bytes32, Vector.length_toList, List.length_cons, List.length_nil] at hm
  obtain ⟨⟨⟨⟨⟨⟨⟨⟨⟨⟨hversion, htype, -⟩, hlen⟩, hid⟩, htimestamp⟩, hmark⟩, hindev⟩, hphysindev⟩,
    houtdev⟩, hphysoutdev⟩, hpayload⟩ := hm
  refine ⟨hversion, htype, ?_, Memory.Holds.be32_eq hid, Memory.Holds.be32_eq htimestamp, hmark,
    Memory.Holds.bytes_eq hindev, Memory.Holds.bytes_eq hphysindev, Memory.Holds.bytes_eq houtdev,
    Memory.Holds.bytes_eq hphysoutdev, fun i hi ↦ hpayload.apply_eq hi⟩
  have hlen' := Memory.Holds.be16_eq hlen
  rw [hlen', UInt16.toNat_ofNat']
  exact Nat.mod_eq_of_lt (by simp only [nuv4AuthMessageSize]; omega)

/-! ### The round trip -/

/-- The packet opens a connection over IPv4: a TCP `SYN`, or UDP. Its headers are complete, the
kernel has given it a date and its four interfaces. -/
structure QueuedPckt.Opens (pckt : QueuedPckt) : Prop where
  version : pckt.payload 0 / 16 = 4
  ihl : 5 ≤ (pckt.payload 0 % 16).toNat
  transport :
    pckt.payload 9 = ipprotoTcp ∧ pckt.payload (4 * (pckt.payload 0 % 16).toNat + 13) &&& 2 ≠ 0 ∨
      pckt.payload 9 = ipprotoUdp
  complete :
    4 * (pckt.payload 0 % 16).toNat + transportSize (pckt.payload 9) ≤ pckt.payloadLen
  timestamp : 0 < pckt.timestamp ∧ pckt.timestamp < 2 ^ 32
  ifaces : pckt.indev.get 0 ≠ 42 ∧ pckt.physindev.get 0 ≠ 42 ∧ pckt.outdev.get 0 ≠ 42 ∧
    pckt.physoutdev.get 0 ≠ 42

/-- The request for the packet is decoded, from any memory that starts with it, into a connection
with the same identifier, date, mark and interfaces and with the tracking of the packet, and nothing
is left of the message. -/
def RoundTrips (order : ByteOrder) (fuel : ℕ) (conf : Params) (localid : Tracking → Bool)
    (now : Int) (pckt : QueuedPckt) : Prop :=
  ∃ message, authRequestMessage order authRequest pckt = some message ∧
    ∀ m : Memory, m.Holds 0 message → ∃ d c,
      authpcktDecode fuel conf localid now m message.length = some d ∧ d.new.Produces c ∧
      c.packetId = [⟨pckt.packetId, none⟩] ∧ c.timestamp = pckt.timestamp ∧ c.mark = pckt.mark ∧
      c.ifaceNfo = ⟨pckt.indev, pckt.physindev, pckt.outdev, pckt.physoutdev⟩ ∧
      getHeaders fuel Tracking.zero pckt.payload pckt.payloadLen = some c.tracking ∧
      d.dgramSize = 0

/-- A name of an interface is taken from the message unless it starts with a star. -/
theorem getIfaceFromMsg_of_ne {name msg : Vector UInt8 16} (h : msg.get 0 ≠ 42) :
    getIfaceFromMsg name msg = msg := by
  rw [getIfaceFromMsg, if_pos h]

theorem transportSize_le (protocol : UInt8) : transportSize protocol ≤ 20 := by
  rw [transportSize]
  split_ifs <;> omega

theorem le_transportSize (protocol : UInt8) : 8 ≤ transportSize protocol := by
  rw [transportSize]
  split_ifs <;> omega

theorem toNat_ofInt {x : Int} (h : 0 < x ∧ x < 2 ^ 32) : ((UInt32.ofInt x).toNat : Int) = x := by
  obtain ⟨n, rfl⟩ := Int.eq_ofNat_of_zero_le (Int.le_of_lt h.1)
  have hn : n < 2 ^ 32 := by omega
  simp [UInt32.ofInt]
  omega

/-- The tracking of a packet whose two headers are known. -/
theorem getHeaders_withNumbers {fuel size offset : ℕ} {dgram : Memory} {t₀ t : Tracking}
    (hip : getIpHeaders fuel t₀ dgram size = some (t, offset)) (hne : offset ≠ 0)
    (hsupported : t.Supported) (hsize : offset + transportSize t.protocol ≤ size) :
    getHeaders fuel t₀ dgram size =
      some (t.withNumbers (headerNumbers t.protocol (dgram.drop offset))) := by
  obtain ⟨t', ht'⟩ := Option.isSome_iff_exists.1 (getHeaders_isSome hip hne hsupported hsize)
  obtain ⟨t₁, offset', hip', -, rfl⟩ := getHeaders_eq ht'
  obtain ⟨rfl, rfl⟩ := Prod.mk.inj (Option.some.inj (hip.symm.trans hip'))
  exact ht'

/-- **A copy of a packet of one of the four protocols is parsed as the packet.** The copy contains
both headers; a TCP header tells a state. -/
theorem parseDgram_copy {fuel size dgramSize offset : ℕ} {dgram copy : Memory} {t : Tracking}
    (conf : Params) (localid : Tracking → Bool) {connection : Connection}
    (hcopy : ∀ i < size, copy i = dgram i) (hsize : 20 ≤ size ∧ size < 2 ^ 32)
    (hip : getIpHeaders fuel connection.tracking dgram dgramSize = some (t, offset))
    (hne : offset ≠ 0) (hsupported : t.Supported)
    (hoffset : offset + transportSize t.protocol ≤ size) (hle : size ≤ dgramSize)
    (hflags : t.protocol = ipprotoTcp → HasState (dgram (offset + 13))) :
    ∃ c : Connection, parseDgram fuel conf localid connection copy size authRequest =
        some ⟨.continue, some c, conf.helloAuthentication && localid t, 0⟩ ∧
      getHeaders fuel connection.tracking dgram dgramSize = some c.tracking ∧
      c.packetId = connection.packetId ∧ c.timestamp = connection.timestamp := by
  have htsize := le_transportSize t.protocol
  have hip' := getIpHeaders_copy hcopy hsize.1 (by omega) hne hip
  have hcopy' : ∀ i < size - offset, copy.drop offset i = dgram.drop offset i := fun i hi ↦
    hcopy (offset + i) (by omega)
  have htransport : ∀ c : Connection, c.tracking = t →
      parseTransport c (copy.drop offset) (size - offset) authRequest =
        .ok (t.withNumbers (headerNumbers t.protocol (dgram.drop offset))) := by
    rintro c rfl
    rw [parseTransport_copy c authRequest hcopy']
    exact parseTransport_request hsupported (by omega) hflags
  obtain ⟨c, hc, htracking, hpacketId, htimestamp⟩ :=
    parseDgram_continue conf localid hip' hne (by omega) hsize.2 htransport
  refine ⟨c, hc, ?_, hpacketId, htimestamp⟩
  rw [htracking]
  exact getHeaders_withNumbers hip hne hsupported (Nat.le_trans hoffset hle)

/-- **What is decoded of a request.** -/
theorem authpcktDecode_request {order : ByteOrder} {pckt : QueuedPckt} {m : Memory} (fuel : ℕ)
    (conf : Params) (localid : Tracking → Bool) (now : Int) (h : pckt.Opens)
    (hm : IsRequest order authRequest pckt m) :
    ∃ d c, authpcktDecode fuel conf localid now m
        (nuv4AuthMessageSize + sentLength pckt.payloadLen) = some d ∧ d.new.Produces c ∧
      c.packetId = [⟨pckt.packetId, none⟩] ∧ c.timestamp = pckt.timestamp ∧
      c.mark = m.be32 12 ∧
      c.ifaceNfo = ⟨pckt.indev, pckt.physindev, pckt.outdev, pckt.physoutdev⟩ ∧
      getHeaders fuel Tracking.zero pckt.payload pckt.payloadLen = some c.tracking ∧
      d.dgramSize = 0 := by
  -- the headers of the packet are in the part that is sent
  obtain ⟨hversion, hihl, htransport, hcomplete, htimestamp, hin, hphysin, hout, hphysout⟩ := h
  have hmod : (pckt.payload 0 % 16).toNat < 16 := by
    simp only [UInt8.toNat_mod]
    exact Nat.mod_lt _ (by decide)
  have htsize := transportSize_le (pckt.payload 9)
  have hsent : 4 * (pckt.payload 0 % 16).toNat + transportSize (pckt.payload 9) ≤
      sentLength pckt.payloadLen := le_sentLength hcomplete (by omega)
  have hle := sentLength_le pckt.payloadLen
  have hip := getIpHeaders_ipv4 (newConnection now m (m 0).toNat).tracking fuel hversion
    (show 20 ≤ pckt.payloadLen by omega)
  have hflags : pckt.payload 9 = ipprotoTcp →
      HasState (pckt.payload (4 * (pckt.payload 0 % 16).toNat + 13)) := by
    intro htcp
    have hudp : pckt.payload 9 ≠ ipprotoUdp := by rw [htcp]; decide
    exact Or.inr (Or.inl (htransport.resolve_right hudp).2)
  obtain ⟨c, hparse, hheaders, hpacketId, hdate⟩ := parseDgram_copy conf localid hm.payload
    (by omega) hip (by omega) (htransport.imp And.left Or.inl) hsent hle.1 hflags
  -- the other fields are read in the header of the message
  have hnew : authpcktNewConnection fuel conf localid now m
      (nuv4AuthMessageSize + sentLength pckt.payloadLen) =
        some ⟨.ok, some (parseV4Fields m c), true, 0⟩ := by
    rw [authpcktNewConnection, if_neg (by omega), Nat.add_sub_cancel_left, hm.type, hparse]
    rfl
  have hdecode : authpcktDecode fuel conf localid now m
      (nuv4AuthMessageSize + sentLength pckt.payloadLen) =
        some ⟨⟨.ok, some (parseV4Fields m c), true, 0⟩, 0, 0⟩ := by
    rw [authpcktDecode, if_pos (Or.inr (by rw [hm.version]; rfl)), if_pos (Or.inl hm.type), hnew,
      Option.map_some, hm.length]
    dsimp only
    rw [if_neg (by decide), if_neg (Nat.lt_irrefl _)]
  refine ⟨_, parseV4Fields m c, hdecode, ⟨rfl, rfl, rfl, rfl⟩, ?_, ?_, parseV4Fields_mark m c, ?_,
    ?_, rfl⟩
  · rw [parseV4Fields_packetId, hpacketId, ← hm.packetId]
    rfl
  · have hne : m.be32 8 ≠ 0 := by
      intro hzero
      have hdate' := toNat_ofInt htimestamp
      rw [← hm.timestamp, hzero] at hdate'
      exact absurd hdate' (by simp; omega)
    rw [parseV4Fields_timestamp, hdate, newConnection]
    dsimp only
    rw [if_neg hne, hm.timestamp, toNat_ofInt htimestamp]
  · simp only [parseV4Fields]
    rw [hm.indev, hm.physindev, hm.outdev, hm.physoutdev, getIfaceFromMsg_of_ne hin,
      getIfaceFromMsg_of_ne hphysin, getIfaceFromMsg_of_ne hout, getIfaceFromMsg_of_ne hphysout]
  · rw [parseV4Fields_tracking]
    exact hheaders

/-- **The round trip of a request.** For every packet that opens a connection, a request comes back
as it was exactly when the gateway is big-endian or the four bytes of the mark are the same both
ways. -/
theorem roundTrips_iff (order : ByteOrder) (fuel : ℕ) (conf : Params) (localid : Tracking → Bool)
    (now : Int) {pckt : QueuedPckt} (h : pckt.Opens) :
    RoundTrips order fuel conf localid now pckt ↔
      order = .big ∨ (bigEndian32 pckt.mark).reverse = bigEndian32 pckt.mark := by
  have hmessage : ∃ message, authRequestMessage order authRequest pckt = some message := by
    rw [authRequestMessage, if_neg (fun hne ↦ hne.1 h.version)]
    exact ⟨_, rfl⟩
  obtain ⟨message, hmessage⟩ := hmessage
  constructor
  · rintro ⟨message', hmessage', hdecode⟩
    obtain rfl := Option.some.inj (hmessage.symm.trans hmessage')
    have hm := isRequest hmessage (Memory.holds_ofBytes message)
    obtain ⟨d, c, hd, hc, -, -, hmark, -⟩ := hdecode _ (Memory.holds_ofBytes message)
    obtain ⟨d', c', hd', hc', -, -, hmark', -⟩ :=
      authpcktDecode_request fuel conf localid now h hm
    rw [length_authRequestMessage hmessage, hd'] at hd
    obtain rfl := Option.some.inj hd
    obtain rfl := Option.some.inj (hc'.2.1.symm.trans hc.2.1)
    exact hm.mark.be32_eq_iff.1 (hmark'.symm.trans hmark)
  · intro hmark
    refine ⟨message, hmessage, fun m hm ↦ ?_⟩
    have hm' := isRequest hmessage hm
    obtain ⟨d, c, hd, hc, hpacketId, hdate, hmark', hifaces, hheaders, hsize⟩ :=
      authpcktDecode_request fuel conf localid now h hm'
    rw [length_authRequestMessage hmessage]
    exact ⟨d, c, hd, hc, hpacketId, hdate, hmark'.trans (hm'.mark.be32_eq_iff.2 hmark), hifaces,
      hheaders, hsize⟩

/-- The name `eth0` of an interface. -/
def eth0 : Vector UInt8 16 := ⟨#[101, 116, 104, 48, 0, 0, 0, 0, 0, 0, 0, 0, 0, 0, 0, 0], rfl⟩

/-- The `SYN` queued by the kernel, with a mark. -/
def synPckt (mark : UInt32) : QueuedPckt :=
  { packetId := 7, indev := eth0, physindev := eth0, outdev := eth0, physoutdev := eth0,
    mark := mark, timestamp := 1000, payload := Memory.ofBytes synDgram, payloadLen := 40 }

theorem synPckt_opens (mark : UInt32) : (synPckt mark).Opens where
  version := show Memory.ofBytes synDgram 0 / 16 = 4 by decide +kernel
  ihl := show 5 ≤ (Memory.ofBytes synDgram 0 % 16).toNat by decide +kernel
  transport := Or.inl (show Memory.ofBytes synDgram 9 = ipprotoTcp ∧
    Memory.ofBytes synDgram (4 * (Memory.ofBytes synDgram 0 % 16).toNat + 13) &&& 2 ≠ 0 by
      decide +kernel)
  complete := show 4 * (Memory.ofBytes synDgram 0 % 16).toNat +
    transportSize (Memory.ofBytes synDgram 9) ≤ 40 by decide +kernel
  timestamp := show (0 : Int) < 1000 ∧ (1000 : Int) < 2 ^ 32 by decide
  ifaces := show eth0.get 0 ≠ 42 ∧ eth0.get 0 ≠ 42 ∧ eth0.get 0 ≠ 42 ∧ eth0.get 0 ≠ 42 by decide

/-- On a little-endian gateway the mark 0 comes back as it was, on a big-endian one any mark. -/
theorem synPckt_roundTrips :
    RoundTrips .little 1 Params.default (fun _ ↦ false) 0 (synPckt 0) ∧
      RoundTrips .big 1 Params.default (fun _ ↦ false) 0 (synPckt 1) :=
  ⟨(roundTrips_iff .little 1 Params.default (fun _ ↦ false) 0 (synPckt_opens 0)).2
      (Or.inr (by decide)),
    (roundTrips_iff .big 1 Params.default (fun _ ↦ false) 0 (synPckt_opens 1)).2 (Or.inl rfl)⟩

/-- On a little-endian gateway the mark 1 comes back as `0x01000000`. -/
theorem synPckt_mark_swapped :
    ¬RoundTrips .little 1 Params.default (fun _ ↦ false) 0 (synPckt 1) := by
  rintro ⟨message, hmessage, hdecode⟩
  obtain ⟨d, c, hd, hc, -, -, hmark, -⟩ := hdecode _ (Memory.holds_ofBytes message)
  have hread : ((authRequestMessage .little authRequest (synPckt 1)).bind fun message ↦
      (authpcktDecode 1 Params.default (fun _ ↦ false) 0 (Memory.ofBytes message)
        message.length).bind fun d ↦ d.new.connection.map Connection.mark) = some 0x01000000 := by
    decide +kernel
  rw [hmessage, Option.bind_some, hd, Option.bind_some, hc.2.1, Option.map_some, hmark] at hread
  exact absurd hread (by decide)

end Nufw
