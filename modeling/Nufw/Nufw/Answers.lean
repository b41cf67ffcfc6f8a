import Nufw.Nufw.Authsrv
import Nufw.Nuauth.Connections

/-!
# Answers on the wire

The message that `send_auth_response` builds fits in its buffer whatever the protocol, and a gateway
that speaks the current one reads in it what the server has put there: the identifier of the packet,
the decision, the mark, the date at which the connection expires and, for a rejection, the headers
of the packet.

A rejection starts with a version field that is `AF_INET` for IPv4, and `send_icmp_unreach` tells
the two kinds apart by it. The first byte of an IPv6 header, as the server writes it, is `0x60` or
`0` according to the byte order of the server: it is never `AF_INET`.
-/

namespace Nufw

/-! ### Sizes -/

/-- The size of the buffer of `send_auth_response`. -/
def responseBufferSize : ℕ := 16 + iphdrRejectLength + ip6hdrRejectLength + storedPayloadSize

theorem length_storedPayload {element : Connection} (h : element.payloadLen ≤ storedPayloadSize) :
    element.storedPayload.length = element.payloadLen := by
  rw [Connection.storedPayload, List.length_take, Vector.length_toList]
  exact Nat.min_eq_left h

theorem length_addIcmpRejectData {element : Connection}
    (h : element.payloadLen ≤ storedPayloadSize) :
    (addIcmpRejectData element).length = iphdrRejectLength + element.payloadLen := by
  have hpayload := length_storedPayload h
  simp [addIcmpRejectData, htons, hpayload, iphdrRejectLength]
  omega

theorem length_addIcmpv6RejectData (order : ByteOrder) {element : Connection}
    (h : element.payloadLen ≤ storedPayloadSize) :
    (addIcmpv6RejectData order element).length = ip6hdrRejectLength + element.payloadLen := by
  have hpayload := length_storedPayload h
  cases order <;> simp [addIcmpv6RejectData, htons, hpayload, ip6hdrRejectLength] <;> omega

/-- The size of a rejection is the one that is announced, and is at most 168. -/
theorem rejectData_size (host : Host) (icmp6 : Bool) {element : Connection}
    (h : element.payloadLen ≤ storedPayloadSize) :
    (rejectData host icmp6 element).1.toNat = (rejectData host icmp6 element).2.length ∧
      (rejectData host icmp6 element).2.length ≤ ip6hdrRejectLength + storedPayloadSize := by
  have hle : storedPayloadSize = 128 := rfl
  rw [rejectData]
  split_ifs
  · rw [length_addIcmpv6RejectData host.order h, UInt16.toNat_ofNat', ip6hdrRejectLength]
    omega
  · rw [length_addIcmpRejectData h, UInt16.toNat_ofNat', iphdrRejectLength, ip6hdrRejectLength]
    omega
  · exact ⟨rfl, Nat.zero_le _⟩

/-- **Every answer fits in the buffer of `send_auth_response`.** -/
theorem length_authResponse_le {host : Host} {element : Connection} {packetId : UInt32}
    {message : Bytes} (hpayload : element.payloadLen ≤ storedPayloadSize)
    (h : authResponse host element packetId = some message) :
    message.length ≤ responseBufferSize := by
  have hle : ∀ icmp6, (rejectData host icmp6 element).2.length ≤ 168 := fun icmp6 ↦
    (rejectData_size host icmp6 hpayload).2
  have hbuffer : responseBufferSize = 204 := rfl
  have hheader : ∀ {header data : Bytes}, header.length ≤ 20 → data.length ≤ 168 →
      (header ++ data).length ≤ responseBufferSize := by
    intro header data hh hd
    rw [List.length_append]
    omega
  rw [authResponse] at h
  split_ifs at h
  · rw [← Option.some.inj h]
    exact hheader (by simp [htons, htonl]) (hle false)
  · rw [← Option.some.inj h]
    exact hheader (by simp [htons, htonl]) (hle _)
  · rw [← Option.some.inj h]
    exact hheader (by simp [htons, htonl]) (hle _)

/-! ### Fields -/

/-- A memory that starts with the answer of the current protocol, field by field. -/
structure IsAnswer (host : Host) (element : Connection) (packetId : UInt32) (m : Memory) :
    Prop where
  version : m 0 = UInt8.ofNat protoVersionNufwV24
  type : m 1 = authAnswer
  decision : m 2 = element.decision.toByte
  packetId : m.be32 4 = packetId
  mark : m.Holds 8 (bigEndian32 element.mark)
  expiration : m.be32 12 = UInt32.ofInt element.expire
  payloadLen : (m.be16 16).toNat = (rejectData host (useIcmp6 element) element).2.length
  payload : (m.drop nuv5DecisionResponseSize).Holds 0 (rejectData host (useIcmp6 element) element).2

/-- The answer in the current protocol. -/
theorem authResponse_v24 (host : Host) {element : Connection} (packetId : UInt32)
    (hversion : element.nufwVersion = protoVersionNufwV24) :
    authResponse host element packetId =
      some ([UInt8.ofNat protoVersionNufwV24, authAnswer, element.decision.toByte, 1] ++
        htonl packetId ++ htonl element.mark ++ htonl (UInt32.ofInt element.expire) ++
        htons (rejectData host (useIcmp6 element) element).1 ++ [0, 0] ++
        (rejectData host (useIcmp6 element) element).2) := by
  rw [authResponse, hversion, if_neg (by decide), if_neg (by decide), if_pos rfl]

theorem length_authResponse {host : Host} {element : Connection} {packetId : UInt32}
    {message : Bytes} (hversion : element.nufwVersion = protoVersionNufwV24)
    (h : authResponse host element packetId = some message) :
    message.length =
      nuv5DecisionResponseSize + (rejectData host (useIcmp6 element) element).2.length := by
  rw [authResponse_v24 host packetId hversion] at h
  rw [← Option.some.inj h, List.length_append]
  rfl

theorem isAnswer {host : Host} {element : Connection} {packetId : UInt32} {message : Bytes}
    {m : Memory} (hversion : element.nufwVersion = protoVersionNufwV24)
    (hpayload : element.payloadLen ≤ storedPayloadSize)
    (h : authResponse host element packetId = some message) (hm : m.Holds 0 message) :
    IsAnswer host element packetId m := by
  have hsize := (rejectData_size host (useIcmp6 element) hpayload).1
  rw [authResponse_v24 host packetId hversion] at h
  rw [← Option.some.inj h] at hm
  simp only [Memory.holds_append, List.length_append, List.length_cons, List.length_nil] at hm
  obtain ⟨⟨⟨⟨⟨⟨⟨h0, h1, h2, h3, -⟩, hid⟩, hmark⟩, hexpire⟩, hlen⟩, -⟩, hdata⟩ := hm
  refine ⟨h0, h1, h2, Memory.Holds.be32_eq hid, hmark, Memory.Holds.be32_eq hexpire, ?_,
    Memory.holds_drop.2 hdata⟩
  have hlen' : m.be16 16 = (rejectData host (useIcmp6 element) element).1 :=
    Memory.Holds.be16_eq hlen
  rw [hlen', hsize]

end Nufw
