import Nufw.Nufw.Requests

/-!
# What a request says about its packet

Whatever packet a gateway asks about, and whichever of the two kinds of message it sends, a
connection that the server makes of the message and that waits for its user has the identifier of
the packet and is in the protocol of the gateway. When the headers of the packet are complete, it
has their addresses, their protocol and their numbers as well: nothing of this needs the rest of
the message, nor what stands behind it in the buffer of the server.
-/

namespace Nufw

/-- The tracking is the one of the packet, when the headers of the packet are complete: IPv4, or
IPv6 without extension headers, and a header of one of the four protocols. -/
def TrackingOf (dgram : Memory) (size : ℕ) (t : Tracking) : Prop :=
  ∀ saddr daddr protocol offset, Carries dgram saddr daddr protocol offset →
    Tracking.Supported { Tracking.zero with protocol := protocol } →
    offset + transportSize protocol ≤ size →
    t = { Tracking.zero with saddr := saddr, daddr := daddr, protocol := protocol }.withNumbers
      (headerNumbers protocol (dgram.drop offset))

/-! ### The headers of a packet -/

section

variable {dgram copy : Memory} {saddr daddr : In6Addr} {protocol : UInt8} {offset size fuel : ℕ}

theorem Carries.offset_le (h : Carries dgram saddr daddr protocol offset) :
    20 ≤ offset ∧ offset ≤ 60 := by
  cases h with
  | ipv4 hversion hihl =>
    have hmod : (dgram 0 % 16).toNat < 16 := by
      simp only [UInt8.toNat_mod]
      exact Nat.mod_lt _ (by decide)
    omega
  | ipv6 hversion => omega

/-- A copy that contains the IP header carries the same. -/
theorem Carries.of_copy (h : Carries dgram saddr daddr protocol offset)
    (hcopy : ∀ i < size, copy i = dgram i) (hsize : offset ≤ size) :
    Carries copy saddr daddr protocol offset := by
  have hzero : copy 0 = dgram 0 := hcopy 0 (by have := h.offset_le; omega)
  have hoffset := h.offset_le
  cases h with
  | ipv4 hversion hihl =>
    rw [← Memory.bytes_congr hcopy (show 12 + 4 ≤ size by omega),
      ← Memory.bytes_congr hcopy (show 16 + 4 ≤ size by omega), ← hcopy 9 (by omega), ← hzero]
    exact .ipv4 (by rw [hzero]; exact hversion) (by rw [hzero]; exact hihl)
  | ipv6 hversion =>
    rw [← Memory.bytes_congr hcopy (show 8 + 16 ≤ size by omega),
      ← Memory.bytes_congr hcopy (show 24 + 16 ≤ size by omega), ← hcopy 6 (by omega)]
    exact .ipv6 (by rw [hzero]; exact hversion)

/-- What `get_ip_headers` finds, if its loop ends. -/
theorem Carries.eq_of_getIpHeaders (h : Carries dgram saddr daddr protocol offset)
    {t : Tracking} (hsupported : Tracking.Supported { t with protocol := protocol })
    (hsize : offset ≤ size) {r : Tracking × ℕ} (hr : getIpHeaders fuel t dgram size = some r) :
    r = ({ t with saddr := saddr, daddr := daddr, protocol := protocol }, offset) := by
  have hoffset := h.offset_le
  cases fuel with
  | succ fuel =>
    rw [(h.getIpHeaders_eq t hsupported hsize fuel).1] at hr
    exact (Option.some.inj hr).symm
  | zero =>
    cases h with
    | ipv4 hversion hihl =>
      rw [getIpHeaders_ipv4 t 0 hversion (by omega)] at hr
      exact (Option.some.inj hr).symm
    | ipv6 hversion =>
      rw [getIpHeaders_ipv6 t 0 hversion (by omega), skipExtHeaders] at hr
      cases hr

end

/-- A transport header of one of the four protocols gives its two numbers. -/
theorem parseTransport_eq {connection : Connection} {header : Memory} {size : ℕ} {msgType : UInt8}
    {t : Tracking} (hsupported : connection.tracking.Supported)
    (h : parseTransport connection header size msgType = .ok t) :
    t = connection.tracking.withNumbers (headerNumbers connection.tracking.protocol header) := by
  unfold parseTransport at h
  dsimp only at h
  split_ifs at h with htcp hudp hicmp hicmpv6 hhello
  · have hports : HasPorts connection.tracking.protocol := Or.inl htcp
    rw [parseTcp_eq h, Tracking.withNumbers, headerNumbers, if_pos hports, if_pos hports]
  · have hports : HasPorts connection.tracking.protocol := Or.inr hudp
    rw [getUdpHeaders] at h
    split_ifs at h
    · cases h
    · rw [← Except.ok.inj h, Tracking.withNumbers, headerNumbers, if_pos hports, if_pos hports]
  · have hports := not_hasPorts (Or.inl hicmp)
    rw [getIcmpHeaders] at h
    split_ifs at h
    · cases h
    · rw [← Except.ok.inj h, Tracking.withNumbers, headerNumbers, if_neg hports, if_neg hports]
      simp
  · have hports := not_hasPorts (Or.inr hicmpv6)
    unfold getIcmpv6Headers getIcmpHeaders at h
    split_ifs at h
    · cases h
    · rw [← Except.ok.inj h, Tracking.withNumbers, headerNumbers, if_neg hports, if_neg hports]
      simp
  · rcases hsupported with hp | hp | hp | hp
    · exact absurd hp htcp
    · exact absurd hp hudp
    · exact absurd hp hicmp
    · exact absurd hp hicmpv6

/-! ### The datagram in a request -/

/-- What a connection that goes on has from its datagram. -/
theorem parseDgram_transport {fuel size : ℕ} {conf : Params} {localid : Tracking → Bool}
    {connection c : Connection} {dgram : Memory} {msgType : UInt8} {r : NewConnection}
    (h : parseDgram fuel conf localid connection dgram size msgType = some r)
    (hret : r.ret = .continue) (hc : r.connection = some c) :
    c.packetId = connection.packetId ∧
      ∃ t offset, getIpHeaders fuel connection.tracking dgram size = some (t, offset) ∧
        ∃ e : Connection, e.tracking = t ∧
          parseTransport e (dgram.drop offset) (transportRoom size offset) msgType =
            .ok c.tracking := by
  obtain ⟨⟨t, offset⟩, hip, hr⟩ := Option.map_eq_some_iff.1 h
  dsimp only at hr
  by_cases hzero : offset = 0
  · rw [if_pos hzero] at hr
    rw [← hr] at hret
    cases hret
  rw [if_neg hzero] at hr
  generalize he : (if (conf.helloAuthentication && localid t) = true then
      { connection with tracking := t, state := .hellomode, authQuality := authqHello }
    else { connection with tracking := t, state := .authreq } : Connection) = e at hr
  have htracking : e.tracking = t := by
    rw [← he]
    split_ifs <;> rfl
  have hpacketId : e.packetId = connection.packetId := by
    rw [← he]
    split_ifs <;> rfl
  split at hr
  · next ret herror =>
    rw [← hr] at hret
    obtain rfl : ret = .continue := hret
    exact absurd herror parseTransport_ne_continue
  · next t' hok =>
    rw [← hr] at hc
    obtain rfl := Option.some.inj hc
    exact ⟨hpacketId, t, offset, hip, e, htracking, hok⟩

/-- **The tracking of a packet from a copy of it**, when the copy contains the headers. -/
theorem trackingOf_of_copy {fuel size payloadLen : ℕ} {conf : Params} {localid : Tracking → Bool}
    {connection c : Connection} {dgram copy : Memory} {msgType : UInt8} {r : NewConnection}
    (hcopy : ∀ i < size, copy i = dgram i) (hsize : min payloadLen 80 ≤ size ∧ size < 2 ^ 32)
    (hzero : connection.tracking = Tracking.zero)
    (h : parseDgram fuel conf localid connection copy size msgType = some r)
    (hret : r.ret = .continue) (hc : r.connection = some c) :
    TrackingOf dgram payloadLen c.tracking := by
  intro saddr daddr protocol offset hcarries hsupported hcomplete
  obtain ⟨-, t, offset', hip, e, rfl, htransport⟩ := parseDgram_transport h hret hc
  rw [hzero] at hip
  have hoffset := hcarries.offset_le
  have htsize := transportSize_le protocol
  have hle := le_transportSize protocol
  have heq := (hcarries.of_copy hcopy (by omega)).eq_of_getIpHeaders hsupported (by omega) hip
  obtain ⟨htracking, rfl⟩ := Prod.mk.inj heq
  have hcopy' : ∀ i < size - offset', copy.drop offset' i = dgram.drop offset' i := fun i hi ↦
    hcopy (offset' + i) (by omega)
  rw [transportRoom_eq (by omega) hsize.2, parseTransport_copy e msgType hcopy'] at htransport
  have hsupported' : e.tracking.Supported := by
    rw [htracking]
    exact hsupported
  rw [parseTransport_eq hsupported' htransport, htracking]

/-- **What is decoded of a request** of any kind. -/
theorem authpcktDecode_identifies {order : ByteOrder} {type : UInt8} {pckt : QueuedPckt}
    {m : Memory} {fuel : ℕ} {conf : Params} {localid : Tracking → Bool} {now : Int} {d : Decoded}
    {c : Connection} (hm : IsRequest order type pckt m)
    (h : authpcktDecode fuel conf localid now m
      (nuv4AuthMessageSize + sentLength pckt.payloadLen) = some d)
    (hc : d.new.Produces c) (hstate : c.state = .authreq) :
    c.packetId = [⟨pckt.packetId, none⟩] ∧ c.nufwVersion = protoVersionNufwV24 ∧
      TrackingOf pckt.payload pckt.payloadLen c.tracking := by
  have hversion : (m 0).toNat = protoVersionNufwV24 := by
    rw [hm.version]
    rfl
  obtain ⟨herror, -⟩ | ⟨-, -, hnew⟩ | ⟨hv20, -⟩ := authpcktDecode_cases h
  · exact absurd (herror ▸ hc) not_produces_error
  · have hversion' := (authpcktNewConnection_requested hnew hc hstate).2
    rw [authpcktNewConnection, if_neg (by omega), Nat.add_sub_cancel_left] at hnew
    obtain ⟨r, hr, hret⟩ := Option.map_eq_some_iff.1 hnew
    by_cases hcontinue : r.ret = .continue
    · rw [if_neg (not_not.2 hcontinue)] at hret
      have hconnection := hc.2.1
      rw [← hret] at hconnection
      obtain ⟨c', hc', rfl⟩ := Option.map_eq_some_iff.1 hconnection
      have hsent := sentLength_le pckt.payloadLen
      have hmin : min pckt.payloadLen 80 ≤ sentLength pckt.payloadLen := le_sentLength (by omega)
        (by omega)
      refine ⟨?_, hversion'.trans hversion, ?_⟩
      · rw [parseV4Fields_packetId, (parseDgram_transport hr hcontinue hc').1, newConnection,
          hm.packetId]
      · rw [parseV4Fields_tracking]
        exact trackingOf_of_copy hm.payload ⟨hmin, by omega⟩ rfl hr hcontinue hc'
    · rw [if_pos hcontinue] at hret
      have hfreed := hc.2.2.2
      rw [← hret, parseDgram_freed hr hcontinue] at hfreed
      cases hfreed
  · rw [hversion] at hv20
    cases hv20

end Nufw
