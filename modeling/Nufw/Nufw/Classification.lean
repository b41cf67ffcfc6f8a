import Nufw.Nubase.ExtHeaders
import Nufw.Nufw.Requests

/-!
# Which packets wait

A gateway keeps a packet in its list while it waits for the answer to an `AUTH_REQUEST`, and has
accepted it already when it sends an `AUTH_CONTROL`. Its own look at the packet
(`look_for_tcp_flags`) knows TCP over IPv4 only; the server takes the packet apart again, with
`get_ip_headers` and the functions for the transport protocols, in what it has received of it.

A packet that is reported with `AUTH_CONTROL` never becomes a connection. A packet that waits
becomes one, whatever lies behind the message in the buffer of the server, exactly when the bytes
that are sent are enough to find its headers and its transport header can be told a state
(`Understood`): not for TCP over IPv6 without `SYN`, `FIN` or `RST`, TCP over IPv4 without any of
the four flags, or a protocol that is not one of the four supported ones.
-/

namespace Nufw

/-! ### What a gateway sends -/

/-- A packet is added to the list, or nothing changes. -/
theorem padd_cases (params : GatewayParams) (now : Int) (packetsList : List PacketIdl)
    (current : PacketIdl) :
    (∃ calls, padd params now packetsList current = (false, packetsList, calls)) ∨
      ∃ e : PacketIdl, e.id = current.id ∧
        padd params now packetsList current = (true, packetsList ++ [e], []) := by
  rw [padd]
  dsimp only
  by_cases hfull : params.trackSize ≤ packetsList.length
  · rw [if_pos hfull]
    exact Or.inl ⟨_, rfl⟩
  · rw [if_neg hfull]
    exact Or.inr ⟨⟨current.id, if current.timestamp = 0 then now else current.timestamp,
      current.nfmark⟩, rfl, rfl⟩

/-- `auth_request_send` fails and writes nothing, or succeeds and writes its message. -/
theorem authRequestSend_cases (order : ByteOrder) (writable : Bool) (type : UInt8)
    (pckt : QueuedPckt) :
    authRequestSend order writable type pckt = (false, []) ∨
      ∃ message, authRequestMessage order type pckt = some message ∧
        authRequestSend order writable type pckt = (true, [message]) := by
  rw [authRequestSend]
  cases hmessage : authRequestMessage order type pckt with
  | none => exact Or.inl rfl
  | some message =>
    cases writable with
    | false => exact Or.inl rfl
    | true => exact Or.inr ⟨message, rfl, rfl⟩

/-- A request is written for a packet that waits. -/
theorem mem_written_askAuthentication {order : ByteOrder} {params : GatewayParams} {now : Int}
    {writable : Bool} {packetsList : List PacketIdl} {pckt : QueuedPckt} {message : Bytes}
    (h : message ∈ (askAuthentication order params now writable packetsList pckt).written) :
    authRequestMessage order authRequest pckt = some message ∧
      ∃ e ∈ (askAuthentication order params now writable packetsList pckt).packetsList,
        e.id = pckt.packetId := by
  rw [askAuthentication] at h ⊢
  obtain ⟨calls, hadd⟩ | ⟨e, he, hadd⟩ := padd_cases params now packetsList
    ⟨pckt.packetId, pckt.timestamp, pckt.mark⟩
  · rw [hadd] at h
    cases h
  · obtain hsend | ⟨message', hmessage, hsend⟩ :=
      authRequestSend_cases order writable authRequest pckt
    · rw [hadd] at h
      dsimp only at h
      rw [hsend] at h
      cases h
    · rw [hadd] at h ⊢
      dsimp only at h ⊢
      rw [hsend] at h ⊢
      obtain rfl := List.mem_singleton.1 h
      exact ⟨hmessage, e, List.mem_append_right _ (List.mem_singleton_self e), he⟩

/-- What `treat_packet` writes for a packet: an `AUTH_CONTROL`, or an `AUTH_REQUEST` for a packet
that is in the list of waiting packets. -/
theorem mem_written_treatPacket {order : ByteOrder} {params : GatewayParams} {now : Int}
    {writable : Bool} {packetsList : List PacketIdl} {nfa : NfqData} {payload : Memory}
    {payloadLen : ℕ} (hpayload : nfa.payload = some (payload, payloadLen)) {message : Bytes}
    (h : message ∈ (treatPacket order params now writable packetsList nfa).written) :
    ∃ pckt : QueuedPckt, pckt.payload = payload ∧ pckt.payloadLen = payloadLen ∧
      nfa.packetId = some pckt.packetId ∧
      (lookForTcpFlags payload payloadLen = true ∧
          authRequestMessage order authControl pckt = some message ∨
        lookForTcpFlags payload payloadLen = false ∧
          authRequestMessage order authRequest pckt = some message ∧
          ∃ e ∈ (treatPacket order params now writable packetsList nfa).packetsList,
            e.id = pckt.packetId) := by
  obtain ⟨payload', mark, ifaces, timestamp, packetId⟩ := nfa
  obtain rfl : payload' = some (payload, payloadLen) := hpayload
  cases ifaces with
  | none => cases h
  | some ifaces =>
    cases packetId with
    | none => cases h
    | some packetId =>
      obtain ⟨indev, physindev, outdev, physoutdev⟩ := ifaces
      refine ⟨⟨packetId, indev, physindev, outdev, physoutdev, mark, timestamp.getD now, payload,
        payloadLen⟩, rfl, rfl, rfl, ?_⟩
      rw [treatPacket] at h ⊢
      dsimp only at h ⊢
      split_ifs at h ⊢ with hflags
      · refine Or.inl ⟨hflags, ?_⟩
        obtain hsend | ⟨message', hmessage, hsend⟩ :=
          authRequestSend_cases order writable authControl ⟨packetId, indev, physindev, outdev,
            physoutdev, mark, timestamp.getD now, payload, payloadLen⟩
        · rw [hsend] at h
          cases h
        · rw [hsend] at h
          obtain rfl := List.mem_singleton.1 h
          exact hmessage
      · exact Or.inr ⟨Bool.eq_false_iff.2 hflags, mem_written_askAuthentication h⟩

/-! ### What the server makes of it -/

/-- The switch of `parse_dgram` over the transport protocol takes the header of a request. -/
def Accepted (conf : Params) (localid : Tracking → Bool) (t : Tracking) (size : ℕ)
    (header : Memory) : Prop :=
  if t.protocol = ipprotoTcp then 20 ≤ size ∧ HasState (header 13)
  else if t.Supported then 8 ≤ size
  else (conf.helloAuthentication && localid t) = true

/-- **`parse_dgram` goes on with a request** when the IP headers are found and the transport header
is accepted. -/
theorem parseDgram_continue_iff {fuel size : ℕ} {conf : Params} {localid : Tracking → Bool}
    {connection : Connection} {dgram : Memory} :
    (∃ r, parseDgram fuel conf localid connection dgram size authRequest = some r ∧
        r.ret = .continue) ↔
      ∃ t offset, getIpHeaders fuel connection.tracking dgram size = some (t, offset) ∧
        offset ≠ 0 ∧ Accepted conf localid t (transportRoom size offset) (dgram.drop offset) := by
  have htaken : ∀ {size : ℕ} {header : Memory}, TcpTaken size header authRequest ↔
      20 ≤ size ∧ HasState (header 13) :=
    and_congr_right fun _ ↦ and_iff_left fun h ↦ absurd h (by decide)
  simp only [parseDgram_goesOn_iff, TransportTaken, Accepted, htaken]

/-! ### The loop over extension headers -/

section Loop

variable {dgram : Memory} {protocol : UInt8} {offset : ℕ} {r : UInt8 × ℕ}

/-- The loop meets a header that is not within the first `size` bytes: all of it, or the length of a
generic one. -/
def Leaves (size : ℕ) (protocol : UInt8) (offset : ℕ) : Prop :=
  (GenericHeader protocol ∨ protocol = ipprotoFragment) ∧ size ≤ offset ∨
    GenericHeader protocol ∧ offset + 1 = size

/-- **Either the first bytes are enough for the loop, or it leaves them.** -/
theorem ends_or_leaves {size : ℕ} (h : Ends dgram protocol offset r) :
    (∀ copy : Memory, (∀ i < size, copy i = dgram i) → Ends copy protocol offset r) ∨
      ∃ protocol₁ offset₁, Leaves size protocol₁ offset₁ ∧
        ∀ copy : Memory, (∀ i < size, copy i = dgram i) → ∀ r',
          Ends copy protocol offset r' ↔ Ends copy protocol₁ offset₁ r' := by
  obtain ⟨fuel, h⟩ := h
  induction fuel generalizing protocol offset with
  | zero => cases h
  | succ fuel ih =>
    rw [skipExtHeaders] at h
    -- a turn that reads the first bytes only is the same for every copy
    have hturn : ∀ {protocol' : UInt8} {offset' : ℕ},
        nextExtHeader dgram protocol offset = some (protocol', offset') →
        (∀ copy : Memory, (∀ i < size, copy i = dgram i) →
          nextExtHeader copy protocol offset = some (protocol', offset')) →
        (∀ copy : Memory, (∀ i < size, copy i = dgram i) → Ends copy protocol offset r) ∨
          ∃ protocol₁ offset₁, Leaves size protocol₁ offset₁ ∧
            ∀ copy : Memory, (∀ i < size, copy i = dgram i) → ∀ r',
              Ends copy protocol offset r' ↔ Ends copy protocol₁ offset₁ r' := by
      intro protocol' offset' hnext hcopies
      rw [hnext] at h
      obtain hends | ⟨protocol₁, offset₁, hleaves, hsame⟩ := ih h
      · exact Or.inl fun copy hcopy ↦ (ends_next (hcopies copy hcopy)).2 (hends copy hcopy)
      · exact Or.inr ⟨protocol₁, offset₁, hleaves, fun copy hcopy r' ↦
          (ends_next (hcopies copy hcopy)).trans (hsame copy hcopy r')⟩
    by_cases hgeneric : GenericHeader protocol
    · by_cases hinside : offset + 1 < size
      · refine hturn (nextExtHeader_generic dgram offset hgeneric) fun copy hcopy ↦ ?_
        rw [nextExtHeader_generic copy offset hgeneric, hcopy _ (by omega), hcopy _ hinside]
      · refine Or.inr ⟨protocol, offset, ?_, fun _ _ _ ↦ Iff.rfl⟩
        by_cases hlast : offset + 1 = size
        · exact Or.inr ⟨hgeneric, hlast⟩
        · exact Or.inl ⟨Or.inl hgeneric, by omega⟩
    · by_cases hfragment : protocol = ipprotoFragment
      · by_cases hinside : offset < size
        · refine hturn (nextExtHeader_fragment dgram offset hfragment) fun copy hcopy ↦ ?_
          rw [nextExtHeader_fragment copy offset hfragment, hcopy _ hinside]
        · exact Or.inr ⟨protocol, offset, Or.inl ⟨Or.inr hfragment, by omega⟩,
            fun _ _ _ ↦ Iff.rfl⟩
      · rw [nextExtHeader_none dgram offset hgeneric hfragment] at h
        obtain rfl := Option.some.inj h
        exact Or.inl fun copy _ ↦
          (ends_last (nextExtHeader_none copy offset hgeneric hfragment)).2 rfl

/-- A header that announces TCP behind it, with flags that tell no state. -/
theorem ends_tcp (hext : GenericHeader protocol ∨ protocol = ipprotoFragment)
    (hnext : dgram offset = ipprotoTcp) (hlength : dgram (offset + 1) = 0)
    (h₁₃ : dgram (offset + 13) = 0) (h₂₁ : dgram (offset + 21) = 0) :
    ∃ offset', Ends dgram protocol offset (ipprotoTcp, offset') ∧ dgram (offset' + 13) = 0 := by
  have htcp : ∀ o, Ends dgram ipprotoTcp o (ipprotoTcp, o) := fun o ↦
    (ends_last (nextExtHeader_none dgram o (by unfold GenericHeader; decide) (by decide))).2 rfl
  rcases hext with hgeneric | hfragment
  · refine ⟨offset, ?_, h₁₃⟩
    have hturn := nextExtHeader_generic dgram offset hgeneric
    rw [hnext, hlength] at hturn
    exact (ends_next hturn).2 (htcp offset)
  · refine ⟨offset + 8, ?_, h₂₁⟩
    have hturn := nextExtHeader_fragment dgram offset hfragment
    rw [hnext] at hturn
    exact (ends_next hturn).2 (htcp (offset + 8))

/-- **What lies behind the first bytes can hide the transport header.** When the loop leaves them,
some continuation leads it to a TCP header without flags; unless only the length of a last header is
missing. -/
theorem Leaves.exists_copy {size : ℕ} (h : Leaves size protocol offset) (dgram : Memory) :
    (∃ copy : Memory, (∀ i < size, copy i = dgram i) ∧
      ∃ offset', Ends copy protocol offset (ipprotoTcp, offset') ∧ copy (offset' + 13) = 0) ∨
      offset + 1 = size ∧ GenericHeader protocol ∧ ¬GenericHeader (dgram offset) ∧
        dgram offset ≠ ipprotoFragment := by
  rcases h with ⟨hext, hle⟩ | ⟨hgeneric, hlast⟩
  · refine Or.inl ⟨fun i ↦ if i < size then dgram i else if i = offset then ipprotoTcp else 0,
      fun i hi ↦ if_pos hi, ?_⟩
    apply ends_tcp hext
    · rw [if_neg (by omega), if_pos rfl]
    · rw [if_neg (by omega), if_neg (by omega)]
    · rw [if_neg (by omega), if_neg (by omega)]
    · rw [if_neg (by omega), if_neg (by omega)]
  · by_cases hnext : GenericHeader (dgram offset) ∨ dgram offset = ipprotoFragment
    · refine Or.inl ⟨fun i ↦ if i < size then dgram i else if i = size then 1
        else if i = size + 7 then ipprotoTcp else 0, fun i hi ↦ if_pos hi, ?_⟩
      -- the missing length is one, and the next header lies behind the first bytes
      have hturn := nextExtHeader_generic (fun i ↦ if i < size then dgram i else if i = size then 1
        else if i = size + 7 then ipprotoTcp else 0) offset hgeneric
      rw [if_pos (by omega), if_neg (by omega), if_pos hlast,
        show offset + (1 : UInt8).toNat * 8 = size + 7 by rw [← hlast]; rfl] at hturn
      simp only [ends_next hturn]
      apply ends_tcp hnext
      · rw [if_neg (by omega), if_neg (by omega), if_pos rfl]
      · rw [if_neg (by omega), if_neg (by omega), if_neg (by omega)]
      · rw [if_neg (by omega), if_neg (by omega), if_neg (by omega)]
      · rw [if_neg (by omega), if_neg (by omega), if_neg (by omega)]
    · rw [not_or] at hnext
      exact Or.inr ⟨hlast, hgeneric, hnext.1, hnext.2⟩

end Loop

/-! ### The IP headers -/

/-- `get_ip_headers` finds the addresses and the protocol, and the offset of the transport
header. -/
def Finds (dgram : Memory) (size : ℕ) (t : Tracking) (offset : ℕ) : Prop :=
  ∃ fuel, getIpHeaders fuel Tracking.zero dgram size = some (t, offset)

/-- The addresses of an IPv6 datagram, with a protocol. -/
def ipv6Tracking (dgram : Memory) (protocol : UInt8) : Tracking :=
  { Tracking.zero with saddr := dgram.bytes 8 16, daddr := dgram.bytes 24 16, protocol := protocol }

theorem finds_ipv6 {dgram : Memory} {size offset : ℕ} {t : Tracking}
    (hversion : dgram 0 / 16 = 6) (hsize : 40 ≤ size) :
    Finds dgram size t offset ↔
      ∃ protocol, Ends dgram (dgram 6) 40 (protocol, offset) ∧ t = ipv6Tracking dgram protocol := by
  have heq : ∀ fuel, getIpHeaders fuel Tracking.zero dgram size =
      (skipExtHeaders dgram fuel (dgram 6) 40).map fun r ↦ (ipv6Tracking dgram r.1, r.2) :=
    fun fuel ↦ getIpHeaders_ipv6 Tracking.zero fuel hversion hsize
  rw [Finds]
  simp only [heq, Option.map_eq_some_iff]
  constructor
  · rintro ⟨fuel, ⟨protocol, offset'⟩, hskip, hr⟩
    obtain ⟨rfl, rfl⟩ := Prod.mk.inj hr
    exact ⟨protocol, ⟨fuel, hskip⟩, rfl⟩
  · rintro ⟨protocol, ⟨fuel, hskip⟩, rfl⟩
    exact ⟨fuel, (protocol, offset), hskip, rfl⟩

/-- **The server understands a request** for a datagram of which it has the first `size` bytes,
whatever lies behind them. These bytes are enough for `get_ip_headers` to find the transport header;
it is a TCP one that is complete and has `SYN`, `FIN` or `RST`, or one of the other three protocols
with room for eight bytes. In hello mode the protocol can be another one, and it is enough to find
the addresses and the protocol. -/
def Understood (conf : Params) (localid : Tracking → Bool) (dgram : Memory) (size : ℕ) : Prop :=
  (∃ t : Tracking, ∃ offset, t.Supported ∧ offset ≠ 0 ∧
    (∀ copy : Memory, (∀ i < size, copy i = dgram i) → Finds copy size t offset) ∧
    if t.protocol = ipprotoTcp then offset + 20 ≤ size ∧ HasState (dgram (offset + 13))
    else 8 ≤ transportRoom size offset) ∨
  ∃ t : Tracking, ¬t.Supported ∧ (conf.helloAuthentication && localid t) = true ∧
    ∀ copy : Memory, (∀ i < size, copy i = dgram i) →
      ∃ offset, offset ≠ 0 ∧ Finds copy size t offset

section Server

variable {conf : Params} {localid : Tracking → Bool} {dgram : Memory} {size : ℕ}

theorem not_hasState_zero : ¬HasState 0 := by decide

/-- The headers are the same for every continuation. -/
theorem understood_of_finds {t : Tracking} {offset : ℕ} (hsize : size < 2 ^ 32)
    (hne : offset ≠ 0)
    (hfinds : ∀ copy : Memory, (∀ i < size, copy i = dgram i) → Finds copy size t offset)
    (haccepted : ∀ copy : Memory, (∀ i < size, copy i = dgram i) →
      Accepted conf localid t (transportRoom size offset) (copy.drop offset)) :
    Understood conf localid dgram size := by
  -- behind the first bytes there may be zeros
  have hzero := haccepted (fun i ↦ if i < size then dgram i else 0) fun i hi ↦ if_pos hi
  rw [Accepted] at hzero
  by_cases hsupported : t.Supported
  · refine Or.inl ⟨t, offset, hsupported, hne, hfinds, ?_⟩
    split_ifs at hzero ⊢ with htcp
    · obtain ⟨hroom, hflags⟩ := hzero
      rw [Memory.drop] at hflags
      have hinside : offset + 13 < size := by
        by_contra houtside
        rw [if_neg houtside] at hflags
        exact not_hasState_zero hflags
      rw [if_pos hinside] at hflags
      rw [transportRoom_eq (by omega) hsize] at hroom
      exact ⟨by omega, hflags⟩
    · exact hzero
  · have htcp : t.protocol ≠ ipprotoTcp := fun h ↦ hsupported (Or.inl h)
    rw [if_neg htcp, if_neg hsupported] at hzero
    exact Or.inr ⟨t, hsupported, hzero, fun copy hcopy ↦ ⟨offset, hne, hfinds copy hcopy⟩⟩

/-- An understood request is accepted. -/
theorem Understood.accepted (hsize : size < 2 ^ 32) (h : Understood conf localid dgram size)
    {copy : Memory} (hcopy : ∀ i < size, copy i = dgram i) :
    ∃ t offset, Finds copy size t offset ∧ offset ≠ 0 ∧
      Accepted conf localid t (transportRoom size offset) (copy.drop offset) := by
  obtain ⟨t, offset, hsupported, hne, hfinds, htransport⟩ | ⟨t, hsupported, hhello, hfinds⟩ := h
  · refine ⟨t, offset, hfinds copy hcopy, hne, ?_⟩
    rw [Accepted]
    split_ifs at htransport ⊢ with htcp
    · rw [transportRoom_eq (by omega) hsize, Memory.drop, hcopy _ (by omega)]
      exact ⟨by omega, htransport.2⟩
    · exact htransport
  · obtain ⟨offset, hne, hfinds'⟩ := hfinds copy hcopy
    refine ⟨t, offset, hfinds', hne, ?_⟩
    have htcp : t.protocol ≠ ipprotoTcp := fun h ↦ hsupported (Or.inl h)
    rw [Accepted, if_neg htcp, if_neg hsupported]
    exact hhello

/-- A datagram over IPv6 that is accepted whatever lies behind its first bytes is understood. -/
theorem understood_ipv6 (hversion : dgram 0 / 16 = 6) (hsize : 40 ≤ size ∧ size < 2 ^ 32)
    (h : ∀ copy : Memory, (∀ i < size, copy i = dgram i) → ∃ t offset, Finds copy size t offset ∧
      offset ≠ 0 ∧ Accepted conf localid t (transportRoom size offset) (copy.drop offset)) :
    Understood conf localid dgram size := by
  have hzero : ∀ {copy : Memory}, (∀ i < size, copy i = dgram i) → copy 0 / 16 = 6 := by
    intro copy hcopy
    rw [hcopy 0 (by omega), hversion]
  have htracking : ∀ {copy : Memory}, (∀ i < size, copy i = dgram i) → ∀ protocol,
      ipv6Tracking copy protocol = ipv6Tracking dgram protocol := by
    intro copy hcopy protocol
    rw [ipv6Tracking, ipv6Tracking, Memory.bytes_congr hcopy (by omega),
      Memory.bytes_congr hcopy (by omega)]
  have hnext : ∀ {copy : Memory}, (∀ i < size, copy i = dgram i) → copy 6 = dgram 6 :=
    fun hcopy ↦ hcopy 6 (by omega)
  -- what a continuation for which the loop ends gives
  have haccepted : ∀ {copy : Memory}, (∀ i < size, copy i = dgram i) → ∀ {protocol offset},
      Ends copy (dgram 6) 40 (protocol, offset) → offset ≠ 0 ∧
        Accepted conf localid (ipv6Tracking dgram protocol) (transportRoom size offset)
          (copy.drop offset) := by
    intro copy hcopy protocol offset hends
    obtain ⟨t, offset', hfinds, hne, haccepted⟩ := h copy hcopy
    obtain ⟨protocol', hends', rfl⟩ := (finds_ipv6 (hzero hcopy) hsize.1).1 hfinds
    rw [hnext hcopy] at hends'
    obtain ⟨rfl, rfl⟩ := Prod.mk.inj (hends.unique hends')
    rw [htracking hcopy] at haccepted
    exact ⟨hne, haccepted⟩
  obtain ⟨t, offset, hfinds, -, -⟩ := h dgram fun _ _ ↦ rfl
  obtain ⟨protocol, hends, -⟩ := (finds_ipv6 hversion hsize.1).1 hfinds
  obtain hall | ⟨protocol₁, offset₁, hleaves, hsame⟩ := ends_or_leaves hends
  · refine understood_of_finds hsize.2 (haccepted (fun _ _ ↦ rfl) hends).1 (fun copy hcopy ↦ ?_)
      fun copy hcopy ↦ (haccepted hcopy (hall copy hcopy)).2
    refine (finds_ipv6 (hzero hcopy) hsize.1).2 ⟨protocol, ?_, (htracking hcopy protocol).symm⟩
    rw [hnext hcopy]
    exact hall copy hcopy
  · obtain ⟨copy, hcopy, offset', hends', hflags⟩ | ⟨hlast, hgeneric, hnotGeneric, hnotFragment⟩ :=
      hleaves.exists_copy dgram
    · -- a TCP header without flags is not accepted
      obtain ⟨-, hbad⟩ := haccepted hcopy ((hsame copy hcopy _).2 hends')
      rw [Accepted, if_pos (show (ipv6Tracking dgram ipprotoTcp).protocol = ipprotoTcp from rfl),
        Memory.drop, hflags] at hbad
      exact absurd hbad.2 not_hasState_zero
    · -- only the length of the last header is missing: the protocol is known
      have hends' : ∀ {copy : Memory}, (∀ i < size, copy i = dgram i) → Ends copy (dgram 6) 40
          (dgram offset₁, offset₁ + (copy (offset₁ + 1)).toNat * 8) := by
        intro copy hcopy
        have hturn := nextExtHeader_generic copy offset₁ hgeneric
        rw [hcopy offset₁ (by omega)] at hturn
        refine (hsame copy hcopy _).2 ((ends_next hturn).2 ?_)
        exact (ends_last (nextExtHeader_none copy _ hnotGeneric hnotFragment)).2 rfl
      -- with a length of zero one byte is left for the transport header
      have hzeros : ∀ i < size, (fun i ↦ if i < size then dgram i else 0) i = dgram i :=
        fun i hi ↦ if_pos hi
      obtain ⟨-, hshort⟩ := haccepted hzeros (hends' hzeros)
      rw [if_neg (by omega), transportRoom_eq (by simp; omega) hsize.2, Accepted] at hshort
      have hone : size - (offset₁ + (0 : UInt8).toNat * 8) = 1 := by simp; omega
      rw [hone] at hshort
      split_ifs at hshort with htcp hsupported
      · exact absurd hshort.1 (by omega)
      · exact absurd hshort (by omega)
      · refine Or.inr ⟨ipv6Tracking dgram (dgram offset₁), hsupported, hshort, fun copy hcopy ↦
          ⟨offset₁ + (copy (offset₁ + 1)).toNat * 8, by omega, ?_⟩⟩
        refine (finds_ipv6 (hzero hcopy) hsize.1).2 ⟨dgram offset₁, ?_, (htracking hcopy _).symm⟩
        rw [hnext hcopy]
        exact hends' hcopy

/-- **Understanding a datagram** is accepting it whatever lies behind its first bytes. -/
theorem forall_accepted_iff (hversion : dgram 0 / 16 = 4 ∨ dgram 0 / 16 = 6)
    (hsize : 40 ≤ size ∧ size < 2 ^ 32) :
    (∀ copy : Memory, (∀ i < size, copy i = dgram i) → ∃ t offset, Finds copy size t offset ∧
      offset ≠ 0 ∧ Accepted conf localid t (transportRoom size offset) (copy.drop offset)) ↔
      Understood conf localid dgram size := by
  refine ⟨fun h ↦ ?_, fun h copy hcopy ↦ h.accepted hsize.2 hcopy⟩
  rcases hversion with hv4 | hv6
  · -- the header of IPv4 is the same in every copy
    have hheader : ∀ {copy : Memory}, (∀ i < size, copy i = dgram i) → ∀ fuel,
        getIpHeaders fuel Tracking.zero copy size = getIpHeaders fuel Tracking.zero dgram size := by
      intro copy hcopy fuel
      rw [getIpHeaders_ipv4 _ fuel hv4 (by omega),
        getIpHeaders_ipv4 _ fuel (by rw [hcopy 0 (by omega), hv4]) (by omega),
        Memory.bytes_congr hcopy (by omega), Memory.bytes_congr hcopy (by omega),
        hcopy 0 (by omega), hcopy 9 (by omega)]
    obtain ⟨t, offset, ⟨fuel, hfinds⟩, hne, -⟩ := h dgram fun _ _ ↦ rfl
    refine understood_of_finds hsize.2 hne
      (fun copy hcopy ↦ ⟨fuel, (hheader hcopy fuel).trans hfinds⟩) fun copy hcopy ↦ ?_
    obtain ⟨t', offset', ⟨fuel', hfinds'⟩, -, haccepted⟩ := h copy hcopy
    rw [hheader hcopy, getIpHeaders_ipv4 _ fuel' hv4 (by omega)] at hfinds'
    rw [getIpHeaders_ipv4 _ fuel hv4 (by omega), hfinds'] at hfinds
    obtain ⟨rfl, rfl⟩ := Prod.mk.inj (Option.some.inj hfinds)
    exact haccepted
  · exact understood_ipv6 hv6 hsize h

end Server

/-! ### Agreement -/

/-- The call of `parse_dgram` for a message of a gateway. -/
def parseRequest (fuel : ℕ) (conf : Params) (localid : Tracking → Bool) (now : Int)
    (msg : Memory) (msgSize : ℕ) : Option NewConnection :=
  parseDgram fuel conf localid (newConnection now msg (msg 0).toNat)
    (msg.drop nuv4AuthMessageSize) (msgSize - nuv4AuthMessageSize) (msg 1)

/-- **The two programs agree on a datagram.** Whenever `treat_packet` writes a message for it, read
from any memory that starts with the message: if it is an `AUTH_REQUEST`, the packet waits,
`parse_dgram` goes on and a connection is created; if it is an `AUTH_CONTROL`, no connection is. -/
def AgreeOn (order : ByteOrder) (conf : Params) (localid : Tracking → Bool) (dgram : Memory)
    (dgramSize : ℕ) : Prop :=
  ∀ (params : GatewayParams) (now now' : Int) (writable : Bool) (packetsList : List PacketIdl)
    (nfa : NfqData), nfa.payload = some (dgram, dgramSize) →
    ∀ message ∈ (treatPacket order params now writable packetsList nfa).written,
    ∀ msg : Memory, msg.Holds 0 message →
      (msg 1 = authRequest →
        (∃ e ∈ (treatPacket order params now writable packetsList nfa).packetsList,
          nfa.packetId = some e.id) ∧
        ∃ fuel r d c, parseRequest fuel conf localid now' msg message.length = some r ∧
          r.ret = .continue ∧
          authpcktDecode fuel conf localid now' msg message.length = some d ∧ d.new.Produces c) ∧
      (msg 1 = authControl → ∀ fuel d c,
        authpcktDecode fuel conf localid now' msg message.length = some d → ¬d.new.Produces c)

/-- A connection that goes on has been allocated, and not freed. -/
theorem connection_of_continue {fuel : ℕ} {conf : Params} {localid : Tracking → Bool}
    {connection : Connection} {dgram : Memory} {size : ℕ} {msgType : UInt8} {r : NewConnection}
    (h : parseDgram fuel conf localid connection dgram size msgType = some r)
    (hret : r.ret = .continue) : ∃ c, r.connection = some c ∧ r.freed = 0 := by
  obtain ⟨t, offset, -, ⟨-, c, rfl⟩ | ⟨-, c, -, -, hcase⟩⟩ := parseDgram_cases h
  · cases hret
  obtain ⟨ret, htransport, rfl⟩ | ⟨t', c', -, -, rfl⟩ := hcase
  · obtain rfl : ret = .continue := hret
    exact absurd htransport parseTransport_ne_continue
  · exact ⟨c', rfl, rfl⟩

/-- A message of a gateway is decoded as `parse_dgram` says. -/
theorem map_new_authpcktDecode {order : ByteOrder} {type : UInt8} {pckt : QueuedPckt} {msg : Memory}
    (fuel : ℕ) (conf : Params) (localid : Tracking → Bool) (now : Int)
    (hmsg : IsRequest order type pckt msg) (htype : type = authRequest ∨ type = authControl)
    {size : ℕ} (hsize : nuv4AuthMessageSize ≤ size) :
    (authpcktDecode fuel conf localid now msg size).map Decoded.new =
      (parseRequest fuel conf localid now msg size).map fun r ↦
        if r.ret ≠ .continue then r
        else ⟨.ok, r.connection.map (parseV4Fields msg), true, r.freed⟩ := by
  have hversion : (msg 0).toNat = protoVersionNufwV22_2 ∨ (msg 0).toNat = protoVersionNufwV24 :=
    Or.inr (by rw [hmsg.version]; rfl)
  rw [← hmsg.type] at htype
  rw [authpcktDecode, if_pos hversion, if_pos htype, authpcktNewConnection, if_neg (by omega),
    parseRequest, Option.map_map, Option.map_map]
  refine congrArg (Option.map · _) (funext fun r ↦ ?_)
  simp only [Function.comp_apply]
  split_ifs <;> rfl

/-- A control message with `FIN`, `ACK` or `RST` is not taken. -/
theorem parseTcp_control {t t' : Tracking} {header : Memory} {size : ℕ}
    (hflags : header 13 &&& 1 ≠ 0 ∨ header 13 &&& 16 ≠ 0 ∨ header 13 &&& 4 ≠ 0) :
    parseTcp t header size authControl ≠ .ok t' := by
  intro h
  obtain ⟨-, -, hopen⟩ := parseTcp_ok_iff.1 ⟨t', h⟩
  obtain ⟨hclose, hack⟩ := hopen rfl
  rcases hflags with hfin | hack' | hrst
  · exact hclose (Or.inl hfin)
  · exact hack hack'
  · exact hclose (Or.inr hrst)

/-- **A packet that has been accepted never becomes a connection.** -/
theorem parseDgram_control {fuel : ℕ} {conf : Params} {localid : Tracking → Bool}
    {connection : Connection} {dgram copy : Memory} {size dgramSize : ℕ} {r : NewConnection}
    (hlook : lookForTcpFlags dgram dgramSize = true) (hcopy : ∀ i < size, copy i = dgram i)
    (hcomplete : 4 * (dgram 0 % 16).toNat + 20 ≤ size)
    (h : parseDgram fuel conf localid connection copy size authControl = some r) :
    r.ret ≠ .continue := by
  rw [lookForTcpFlags] at hlook
  split_ifs at hlook with hshort hversion htcp
  have hflags := of_decide_eq_true hlook
  have hversion' : copy 0 / 16 = 4 := by rw [hcopy 0 (by omega), hversion]
  rw [parseDgram, getIpHeaders_ipv4 _ fuel hversion' (by omega), Option.map_some] at h
  dsimp only at h
  rw [hcopy 0 (by omega), hcopy 9 (by omega)] at h
  rw [← Option.some.inj h]
  intro hret
  split at hret
  · cases hret
  · split at hret
    · next ret htransport =>
      obtain rfl : ret = .continue := hret
      exact parseTransport_ne_continue htransport
    · next t htransport =>
      rw [parseTransport, if_pos (by split_ifs <;> exact htcp)] at htransport
      refine parseTcp_control ?_ htransport
      rw [Memory.drop, hcopy _ (by omega)]
      exact hflags

/-- A memory that starts with a message and goes on as another one. -/
theorem holds_prepend (message : Bytes) (rest : Memory) :
    Memory.Holds (fun i ↦ if i < message.length then message.getD i 0 else rest i) 0 message := by
  refine Memory.holds_iff_getElem.2 fun i hi ↦ ?_
  simp [hi]

/-- A gateway with room in its list and a session sends a request for a packet that has to wait. -/
theorem mem_written_of_not_lookForTcpFlags {order : ByteOrder} {pckt : QueuedPckt}
    {message : Bytes} (hlook : lookForTcpFlags pckt.payload pckt.payloadLen = false)
    (hmessage : authRequestMessage order authRequest pckt = some message) :
    message ∈ (treatPacket order ⟨1, 0, false, false, false⟩ 0 true []
      ⟨some (pckt.payload, pckt.payloadLen), pckt.mark,
        some (pckt.indev, pckt.physindev, pckt.outdev, pckt.physoutdev), some pckt.timestamp,
        some pckt.packetId⟩).written := by
  have hsend : authRequestSend order true authRequest pckt = (true, [message]) := by
    rw [authRequestSend, hmessage]
    rfl
  have hask : (askAuthentication order ⟨1, 0, false, false, false⟩ 0 true [] pckt).written =
      [message] := by
    rw [askAuthentication, padd, if_neg (by decide)]
    dsimp only
    rw [hsend]
  rw [treatPacket]
  dsimp only
  rw [if_neg (Bool.eq_false_iff.1 hlook)]
  exact hask ▸ List.mem_singleton_self message

/-- What is sent of a packet on which the programs agree is understood. -/
theorem AgreeOn.understood {order : ByteOrder} {conf : Params} {localid : Tracking → Bool}
    {dgram : Memory} {dgramSize : ℕ} (h : AgreeOn order conf localid dgram dgramSize)
    (hsize : 40 ≤ dgramSize) (hversion : dgram 0 / 16 = 4 ∨ dgram 0 / 16 = 6)
    (hlook : lookForTcpFlags dgram dgramSize = false) :
    Understood conf localid dgram (sentLength dgramSize) := by
  have hlt : sentLength dgramSize < 2 ^ 32 :=
    Nat.lt_of_le_of_lt (sentLength_le dgramSize).2 (by decide)
  refine (forall_accepted_iff hversion ⟨le_sentLength hsize (by decide), hlt⟩).1 fun copy hcopy ↦ ?_
  have hmessage : ∃ message, authRequestMessage order authRequest
      ⟨0, eth0, eth0, eth0, eth0, 0, 1, dgram, dgramSize⟩ = some message := by
    rw [authRequestMessage, if_neg]
    · exact ⟨_, rfl⟩
    · rintro ⟨hv4, hv6⟩
      exact hversion.elim hv4 hv6
  obtain ⟨message, hmessage⟩ := hmessage
  have hwritten := mem_written_of_not_lookForTcpFlags hlook hmessage
  -- behind the message there is what the copy has behind its first bytes
  let msg : Memory := fun i ↦ if i < message.length then message.getD i 0
    else copy (i - nuv4AuthMessageSize)
  have hholds : msg.Holds 0 message := holds_prepend message _
  have hmsg := isRequest hmessage hholds
  have hlength : message.length = nuv4AuthMessageSize + sentLength dgramSize :=
    length_authRequestMessage hmessage
  have hdrop : msg.drop nuv4AuthMessageSize = copy := by
    funext i
    by_cases hi : i < sentLength dgramSize
    · rw [hcopy i hi]
      exact hmsg.payload i hi
    · show (if nuv4AuthMessageSize + i < message.length then _ else _) = _
      rw [if_neg (by omega), Nat.add_sub_cancel_left]
  obtain ⟨-, fuel, r, d, c, hparse, hret, -⟩ := (h ⟨1, 0, false, false, false⟩ 0 0 true [] _ rfl
    message hwritten msg hholds).1 hmsg.type
  rw [parseRequest, hdrop, hlength, Nat.add_sub_cancel_left, hmsg.type] at hparse
  obtain ⟨t, offset, hip, hne, haccepted⟩ := parseDgram_continue_iff.1 ⟨r, hparse, hret⟩
  exact ⟨t, offset, ⟨fuel, hip⟩, hne, haccepted⟩

/-- The TCP header of a packet that is accepted at once is sent. -/
theorem sent_of_lookForTcpFlags {dgram : Memory} {dgramSize : ℕ}
    (h : lookForTcpFlags dgram dgramSize = true)
    (hcomplete : dgram 0 / 16 = 4 → dgram 9 = ipprotoTcp →
      4 * (dgram 0 % 16).toNat + 20 ≤ dgramSize) :
    4 * (dgram 0 % 16).toNat + 20 ≤ sentLength dgramSize := by
  rw [lookForTcpFlags] at h
  split_ifs at h with hshort hversion htcp
  have hmod : (dgram 0 % 16).toNat < 16 := by
    simp only [UInt8.toNat_mod]
    exact Nat.mod_lt _ (by decide)
  exact le_sentLength (hcomplete hversion htcp) (by omega)

/-- **When the two programs agree.** On every datagram of at least 40 bytes, with a complete TCP
header if it is TCP over IPv4, they agree exactly when it is sent as `AUTH_CONTROL` or what is sent
of it is understood. -/
theorem agreeOn_iff (order : ByteOrder) (conf : Params) (localid : Tracking → Bool)
    {dgram : Memory} {dgramSize : ℕ} (hsize : 40 ≤ dgramSize)
    (hversion : dgram 0 / 16 = 4 ∨ dgram 0 / 16 = 6)
    (hcomplete : dgram 0 / 16 = 4 → dgram 9 = ipprotoTcp →
      4 * (dgram 0 % 16).toNat + 20 ≤ dgramSize) :
    AgreeOn order conf localid dgram dgramSize ↔
      lookForTcpFlags dgram dgramSize = true ∨
        Understood conf localid dgram (sentLength dgramSize) := by
  have hne : authControl ≠ authRequest := by decide
  constructor
  · intro hagree
    by_cases hlook : lookForTcpFlags dgram dgramSize = true
    · exact Or.inl hlook
    · exact Or.inr (hagree.understood hsize hversion (Bool.eq_false_iff.2 hlook))
  · intro h params now now' writable packetsList nfa hpayload message hwritten msg hholds
    obtain ⟨pckt, rfl, rfl, hid, hsent⟩ := mem_written_treatPacket hpayload hwritten
    obtain ⟨hlook, hmessage⟩ | ⟨hlook, hmessage, e, he, heid⟩ := hsent
    · have hmsg := isRequest hmessage hholds
      refine ⟨fun htype ↦ absurd (hmsg.type.symm.trans htype) hne, fun _ fuel d c hdecode hc ↦ ?_⟩
      have hnew := map_new_authpcktDecode fuel conf localid now' hmsg (Or.inr rfl)
        (show nuv4AuthMessageSize ≤ message.length by
          rw [length_authRequestMessage hmessage]
          exact Nat.le_add_right _ _)
      rw [hdecode, Option.map_some] at hnew
      obtain ⟨r, hparse, hr⟩ := Option.map_eq_some_iff.1 hnew.symm
      rw [parseRequest, length_authRequestMessage hmessage, Nat.add_sub_cancel_left,
        hmsg.type] at hparse
      have hret := parseDgram_control hlook hmsg.payload (sent_of_lookForTcpFlags hlook hcomplete)
        hparse
      rw [if_pos hret] at hr
      have hfreed := parseDgram_freed hparse hret
      rw [hr, hc.2.2.2] at hfreed
      cases hfreed
    · have hmsg := isRequest hmessage hholds
      refine ⟨fun _ ↦ ⟨⟨e, he, hid.trans (congrArg some heid.symm)⟩, ?_⟩, fun htype ↦
        absurd (htype.symm.trans hmsg.type) hne⟩
      have hunderstood := h.resolve_left (Bool.eq_false_iff.1 hlook)
      obtain ⟨t, offset, ⟨fuel, hip⟩, hoffset, haccepted⟩ := hunderstood.accepted
        (Nat.lt_of_le_of_lt (sentLength_le _).2 (by decide)) hmsg.payload
      have hlength := length_authRequestMessage hmessage
      obtain ⟨r, hparse, hret⟩ := parseDgram_continue_iff.2
        (show ∃ t offset,
          getIpHeaders fuel (newConnection now' msg (msg 0).toNat).tracking _ _ = _ ∧ _ from
            ⟨t, offset, hip, hoffset, haccepted⟩)
      have hrequest : parseRequest fuel conf localid now' msg message.length = some r := by
        rw [parseRequest, hlength, Nat.add_sub_cancel_left, hmsg.type]
        exact hparse
      obtain ⟨c, hc, hfreed⟩ := connection_of_continue hparse hret
      have hnew := map_new_authpcktDecode fuel conf localid now' hmsg (Or.inl rfl)
        (show nuv4AuthMessageSize ≤ message.length by
          rw [hlength]
          exact Nat.le_add_right _ _)
      rw [hrequest, Option.map_some, if_neg (not_not.2 hret), hc] at hnew
      obtain ⟨d, hd, hdnew⟩ := Option.map_eq_some_iff.1 hnew
      refine ⟨fuel, r, d, parseV4Fields msg c, hrequest, hret, hd, ?_⟩
      rw [hdnew]
      exact ⟨rfl, rfl, rfl, hfreed⟩

/-- The programs agree on the `SYN`, which becomes a connection. -/
theorem agreeOn_synDgram :
    AgreeOn .little Params.default (fun _ ↦ false) (Memory.ofBytes synDgram) 40 := by
  have hversion : Memory.ofBytes synDgram 0 / 16 = 4 := by decide +kernel
  refine (agreeOn_iff .little Params.default (fun _ ↦ false) (by decide) (Or.inl hversion)
    (by decide +kernel)).2 (Or.inr (Or.inl ?_))
  have hip := getIpHeaders_ipv4 Tracking.zero 1 hversion (show 20 ≤ 40 by decide)
  have hoffset : 4 * (Memory.ofBytes synDgram 0 % 16).toNat = 20 := by decide +kernel
  rw [hoffset] at hip
  refine ⟨_, 20, Or.inl (show Memory.ofBytes synDgram 9 = ipprotoTcp by decide +kernel), by decide,
    fun copy hcopy ↦ ⟨1, getIpHeaders_copy hcopy (by decide) (by decide) (by decide) hip⟩, ?_⟩
  rw [if_pos (show Memory.ofBytes synDgram 9 = ipprotoTcp by decide +kernel)]
  decide +kernel

/-- A TCP `ACK` over IPv6, from port 40000 of `fd00::2` to port 22 of `fd00::3`. -/
def ackDgram : Bytes :=
  [0x60, 0, 0, 0, 0, 20, 6, 64, 0xfd, 0, 0, 0, 0, 0, 0, 0, 0, 0, 0, 0, 0, 0, 0, 2,
    0xfd, 0, 0, 0, 0, 0, 0, 0, 0, 0, 0, 0, 0, 0, 0, 3,
    0x9c, 0x40, 0, 22, 0, 0, 0, 1, 0, 0, 0, 1, 0x50, 0x10, 0, 0, 0, 0, 0, 0]

/-- The programs do not agree on the `ACK`: it waits for an answer that does not come. -/
theorem not_agreeOn_ackDgram :
    ¬AgreeOn .little Params.default (fun _ ↦ false) (Memory.ofBytes ackDgram) 60 := by
  intro h
  have hversion : Memory.ofBytes ackDgram 0 / 16 = 6 := by decide +kernel
  have hunderstood := h.understood (by decide) (Or.inr hversion) (by decide +kernel)
  obtain ⟨t, offset, hfinds, -, haccepted⟩ := hunderstood.accepted (by decide) fun _ _ ↦ rfl
  obtain ⟨protocol, hends, rfl⟩ := (finds_ipv6 hversion (by decide)).1 hfinds
  have hlast : nextExtHeader (Memory.ofBytes ackDgram) (Memory.ofBytes ackDgram 6) 40 = none := by
    decide +kernel
  obtain ⟨rfl, rfl⟩ := Prod.mk.inj ((ends_last hlast).1 hends)
  have htcp : (ipv6Tracking (Memory.ofBytes ackDgram) (Memory.ofBytes ackDgram 6)).protocol =
      ipprotoTcp := show Memory.ofBytes ackDgram 6 = ipprotoTcp by decide +kernel
  rw [Accepted, if_pos htcp] at haccepted
  exact absurd haccepted.2 (by decide +kernel)

end Nufw
