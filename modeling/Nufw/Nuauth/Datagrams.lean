import Nufw.Nubase.ExtHeaders
import Nufw.Nuauth.PcktAuthsrv

/-!
# The bytes of a datagram

What `parse_dgram` reads of the datagram it is given, byte by byte, and what it keeps of it.

`get_ip_headers` checks that the fixed header is complete, and nothing else: the options of IPv4 and
the extension headers of IPv6 are skipped by the lengths they announce, and the loop over extension
headers ends only when it meets another protocol. What is kept for a reject is as long as the total
length of the IPv4 header says, which for IPv6 are bits of the flow label.

So a call reads only bytes of the datagram just when the headers lead to a place inside it and the
length is not beyond its end (`dgram_inside_iff`), and what is kept is as long as it should be just
when these lengths are right (`payload_kept_iff`).
-/

namespace Nufw

/-! ### What is read -/

/-- The bytes that a turn of the loop over extension headers reads. -/
def turnReads (protocol : UInt8) (offset : ℕ) : List ℕ :=
  if protocol = ipprotoHopopts ∨ protocol = ipprotoRouting ∨ protocol = ipprotoDstopts ∨
      protocol = ipprotoAh then [offset, offset + 1]
  else if protocol = ipprotoFragment then [offset]
  else []

/-- The bytes that the loop reads in at most `fuel` turns. -/
def loopReads (dgram : Memory) : ℕ → UInt8 → ℕ → List ℕ
  | 0, _, _ => []
  | fuel + 1, protocol, offset =>
    turnReads protocol offset ++
      match nextExtHeader dgram protocol offset with
      | some (protocol', offset') => loopReads dgram fuel protocol' offset'
      | none => []

/-- The bytes that `get_ip_headers` reads: the version, the protocol and the addresses, and the
extension headers. -/
def ipHeaderReads (fuel : ℕ) (dgram : Memory) (dgramSize : ℕ) : List ℕ :=
  if dgramSize < 20 then []
  else [0] ++
    if dgram 0 / 16 = 4 then [9] ++ List.range' 12 8
    else if dgram 0 / 16 = 6 then
      if dgramSize < 40 then []
      else [6] ++ List.range' 8 32 ++ loopReads dgram fuel (dgram 6) 40
    else []

/-- The bytes of the transport header that are read: the ports and the flags, or the type and the
code. -/
def transportReads (protocol : UInt8) (size : ℕ) : List ℕ :=
  if protocol = ipprotoTcp then if size < 20 then [] else [0, 1, 2, 3, 13]
  else if protocol = ipprotoUdp then if size < 8 then [] else [0, 1, 2, 3]
  else if protocol = ipprotoIcmp ∨ protocol = ipprotoIcmpv6 then if size < 8 then [] else [0, 1]
  else []

/-- The total length, and what is copied. -/
def payloadReads (dgram : Memory) : List ℕ :=
  [2, 3] ++ List.range (min storedPayloadSize (dgram.be16 2).toNat)

/-- The bytes that `parse_dgram` reads. -/
def parseDgramReads (fuel : ℕ) (conf : Params) (localid : Tracking → Bool)
    (connection : Connection) (dgram : Memory) (dgramSize : ℕ) (msgType : UInt8) : List ℕ :=
  ipHeaderReads fuel dgram dgramSize ++
    (match getIpHeaders fuel connection.tracking dgram dgramSize with
      | some (t, offset) =>
        if offset = 0 then []
        else (transportReads t.protocol (transportRoom dgramSize offset)).map (offset + ·)
      | none => []) ++
    match parseDgram fuel conf localid connection dgram dgramSize msgType with
    | some r => if r.ret = .continue then payloadReads dgram else []
    | none => []

/-- **A call of `parse_dgram` stays inside the datagram**: `get_ip_headers` returns, with an offset
that can be subtracted from the size, and only bytes of the datagram are read. -/
def StaysInside (conf : Params) (localid : Tracking → Bool) (connection : Connection)
    (dgram : Memory) (dgramSize : ℕ) (msgType : UInt8) : Prop :=
  ∃ fuel t offset, getIpHeaders fuel connection.tracking dgram dgramSize = some (t, offset) ∧
    offset ≤ dgramSize ∧ transportRoom dgramSize offset = dgramSize - offset ∧
    ∀ i ∈ parseDgramReads fuel conf localid connection dgram dgramSize msgType, i < dgramSize

/-! ### Where the headers lead -/

/-- **The extension headers lead to a transport header** at `offset'`, inside the datagram, each
skipped by eight times its length byte. -/
inductive LeadsTo (dgram : Memory) (size : ℕ) : UInt8 → ℕ → UInt8 → ℕ → Prop
  | last {protocol : UInt8} {offset : ℕ} (h : ¬ExtHeader protocol) (hsize : offset ≤ size) :
    LeadsTo dgram size protocol offset protocol offset
  | next {protocol protocol' : UInt8} {offset offset' : ℕ} (h : ExtHeader protocol)
    (hsize : offset + (if protocol = ipprotoFragment then 0 else 1) < size)
    (hrest : LeadsTo dgram size (dgram offset)
      (offset + loopExtent protocol (dgram (offset + 1))) protocol' offset') :
    LeadsTo dgram size protocol offset protocol' offset'

/-- The IP headers end inside the datagram, before a header of `protocol`. -/
def HeadersEnd (dgram : Memory) (size : ℕ) (protocol : UInt8) (offset : ℕ) : Prop :=
  dgram 0 / 16 = 4 ∧ protocol = dgram 9 ∧ offset = 4 * (dgram 0 % 16).toNat ∧ offset ≤ size ∨
    dgram 0 / 16 = 6 ∧ LeadsTo dgram size (dgram 6) 40 protocol offset

/-- The addresses of the datagram. -/
def dgramTracking (t : Tracking) (dgram : Memory) (protocol : UInt8) : Tracking :=
  if dgram 0 / 16 = 4 then
    { t with
      saddr := uint32ToIpv6 (dgram.bytes 12 4), daddr := uint32ToIpv6 (dgram.bytes 16 4)
      protocol := protocol }
  else { t with saddr := dgram.bytes 8 16, daddr := dgram.bytes 24 16, protocol := protocol }

/-- The fixed header is refused: it is too short, or of another version. -/
def Refused (dgram : Memory) (size : ℕ) : Prop :=
  size < 20 ∨ dgram 0 / 16 ≠ 4 ∧ (dgram 0 / 16 = 6 → size < 40)

section Reads

variable {dgram : Memory} {size offset offset' : ℕ} {protocol protocol' : UInt8}

theorem forall_turnReads (h : ExtHeader protocol) :
    (∀ i ∈ turnReads protocol offset, i < size) ↔
      offset + (if protocol = ipprotoFragment then 0 else 1) < size := by
  rw [turnReads]
  split_ifs with hgeneric hfragment hfragment
  · rw [hfragment] at hgeneric
    exact absurd hgeneric (by decide)
  · simp only [List.forall_mem_cons, List.not_mem_nil, false_implies, implies_true, and_true]
    omega
  · simp
  · exact absurd h (not_or.2 ⟨hgeneric, hfragment⟩)

theorem turnReads_eq_nil (h : ¬ExtHeader protocol) : turnReads protocol offset = [] := by
  obtain ⟨hgeneric, hfragment⟩ := not_or.1 h
  rw [turnReads]
  exact (if_neg hgeneric).trans (if_neg hfragment)

theorem loopReads_next (fuel : ℕ) (h : ExtHeader protocol) :
    loopReads dgram (fuel + 1) protocol offset = turnReads protocol offset ++
      loopReads dgram fuel (dgram offset) (offset + loopExtent protocol (dgram (offset + 1))) := by
  rw [loopReads, nextExtHeader_eq dgram offset h]

theorem loopReads_last (fuel : ℕ) (h : ¬ExtHeader protocol) :
    loopReads dgram (fuel + 1) protocol offset = [] := by
  rw [loopReads, nextExtHeader_eq_none dgram offset h, turnReads_eq_nil h]
  rfl

theorem skipExtHeaders_next (fuel : ℕ) (h : ExtHeader protocol) :
    skipExtHeaders dgram (fuel + 1) protocol offset = skipExtHeaders dgram fuel (dgram offset)
      (offset + loopExtent protocol (dgram (offset + 1))) := by
  rw [skipExtHeaders, nextExtHeader_eq dgram offset h]

theorem skipExtHeaders_last (fuel : ℕ) (h : ¬ExtHeader protocol) :
    skipExtHeaders dgram (fuel + 1) protocol offset = some (protocol, offset) := by
  rw [skipExtHeaders, nextExtHeader_eq_none dgram offset h]

/-- **The loop ends inside the datagram**, and reads nothing outside, if and only if the headers
lead there. -/
theorem leadsTo_iff : LeadsTo dgram size protocol offset protocol' offset' ↔
    ∃ fuel, skipExtHeaders dgram fuel protocol offset = some (protocol', offset') ∧
      (∀ i ∈ loopReads dgram fuel protocol offset, i < size) ∧ offset' ≤ size := by
  constructor
  · intro h
    induction h with
    | last h hsize =>
      refine ⟨1, skipExtHeaders_last 0 h, fun i hi ↦ ?_, hsize⟩
      rw [loopReads_last 0 h] at hi
      cases hi
    | next h hsize _ ih =>
      obtain ⟨fuel, hskip, hreads, hle⟩ := ih
      refine ⟨fuel + 1, (skipExtHeaders_next fuel h).trans hskip, ?_, hle⟩
      rw [loopReads_next fuel h, List.forall_mem_append, forall_turnReads h]
      exact ⟨hsize, hreads⟩
  · rintro ⟨fuel, hskip, hreads, hle⟩
    induction fuel generalizing protocol offset with
    | zero => cases hskip
    | succ fuel ih =>
      by_cases h : ExtHeader protocol
      · rw [skipExtHeaders_next fuel h] at hskip
        rw [loopReads_next fuel h, List.forall_mem_append, forall_turnReads h] at hreads
        exact .next h hreads.1 (ih hskip hreads.2)
      · rw [skipExtHeaders_last fuel h] at hskip
        obtain ⟨rfl, rfl⟩ := Prod.mk.inj (Option.some.inj hskip)
        exact .last h hle

theorem getIpHeaders_refused (h : Refused dgram size) (fuel : ℕ) (t : Tracking) :
    getIpHeaders fuel t dgram size = some (t, 0) := by
  rw [getIpHeaders]
  split_ifs with hshort hv4 hv6 hshort6
  · rfl
  · exact absurd hv4 (h.resolve_left hshort).1
  · rfl
  · exact absurd ((h.resolve_left hshort).2 hv6) hshort6
  · rfl

theorem ipHeaderReads_refused (h : Refused dgram size) (fuel : ℕ) :
    ∀ i ∈ ipHeaderReads fuel dgram size, i < size := by
  rw [ipHeaderReads]
  split_ifs with hshort hv4 hv6 hshort6
  · simp
  · exact absurd hv4 (h.resolve_left hshort).1
  · simp
    omega
  · exact absurd ((h.resolve_left hshort).2 hv6) hshort6
  · simp
    omega

theorem dgramTracking_protocol (t : Tracking) (dgram : Memory) (protocol : UInt8) :
    (dgramTracking t dgram protocol).protocol = protocol := by
  rw [dgramTracking]
  split_ifs <;> rfl

theorem getIpHeaders_v4 (hv4 : dgram 0 / 16 = 4) (hsize : 20 ≤ size) (fuel : ℕ) (t : Tracking) :
    getIpHeaders fuel t dgram size =
      some (dgramTracking t dgram (dgram 9), 4 * (dgram 0 % 16).toNat) := by
  rw [getIpHeaders_ipv4 t fuel hv4 hsize, dgramTracking, if_pos hv4]

theorem getIpHeaders_v6 (hv6 : dgram 0 / 16 = 6) (hsize : 40 ≤ size) (fuel : ℕ) (t : Tracking) :
    getIpHeaders fuel t dgram size = (skipExtHeaders dgram fuel (dgram 6) 40).map
      fun r ↦ (dgramTracking t dgram r.1, r.2) := by
  rw [getIpHeaders_ipv6 t fuel hv6 hsize]
  simp only [dgramTracking, if_neg (ne_ipv4_of_ipv6 hv6)]

theorem ipHeaderReads_v4 (hv4 : dgram 0 / 16 = 4) (hsize : 20 ≤ size) (fuel : ℕ) :
    ∀ i ∈ ipHeaderReads fuel dgram size, i < size := by
  rw [ipHeaderReads, if_neg (by omega), if_pos hv4]
  simp only [List.forall_mem_append, List.forall_mem_singleton, List.mem_range'_1]
  exact ⟨by omega, by omega, fun i hi ↦ by omega⟩

theorem ipHeaderReads_v6 (hv6 : dgram 0 / 16 = 6) (hsize : 40 ≤ size) (fuel : ℕ) :
    (∀ i ∈ ipHeaderReads fuel dgram size, i < size) ↔
      ∀ i ∈ loopReads dgram fuel (dgram 6) 40, i < size := by
  rw [ipHeaderReads, if_neg (by omega), if_neg (ne_ipv4_of_ipv6 hv6), if_pos hv6,
    if_neg (by omega)]
  simp only [List.forall_mem_append, List.forall_mem_singleton, List.mem_range'_1]
  constructor
  · rintro ⟨-, -, h⟩
    exact h
  · intro h
    exact ⟨by omega, ⟨by omega, fun i hi ↦ by omega⟩, h⟩

/-- A header that is not refused is complete. -/
theorem not_refused (h : ¬Refused dgram size) :
    dgram 0 / 16 = 4 ∧ 20 ≤ size ∨ dgram 0 / 16 = 6 ∧ 40 ≤ size := by
  obtain ⟨hshort, hversion⟩ := not_or.1 h
  by_cases hv4 : dgram 0 / 16 = 4
  · exact Or.inl ⟨hv4, by omega⟩
  · by_contra hcon
    refine hversion ⟨hv4, fun hv6 ↦ ?_⟩
    by_contra hlong
    exact hcon (Or.inr ⟨hv6, by omega⟩)

/-- **`get_ip_headers` returns an offset inside the datagram**, and reads nothing outside, if and
only if the headers end there. -/
theorem headersEnd_iff (h : ¬Refused dgram size) (t : Tracking) :
    HeadersEnd dgram size protocol offset ↔
      ∃ fuel, getIpHeaders fuel t dgram size = some (dgramTracking t dgram protocol, offset) ∧
        (∀ i ∈ ipHeaderReads fuel dgram size, i < size) ∧ offset ≤ size := by
  obtain ⟨hv4, hsize⟩ | ⟨hv6, hsize⟩ := not_refused h
  · simp only [getIpHeaders_v4 hv4 hsize]
    constructor
    · rintro (⟨-, rfl, rfl, hle⟩ | ⟨hv6, -⟩)
      · exact ⟨0, rfl, ipHeaderReads_v4 hv4 hsize 0, hle⟩
      · exact absurd hv4 (ne_ipv4_of_ipv6 hv6)
    · rintro ⟨fuel, heq, -, hle⟩
      obtain ⟨htracking, rfl⟩ := Prod.mk.inj (Option.some.inj heq)
      have hprotocol := congrArg Tracking.protocol htracking
      rw [dgramTracking_protocol, dgramTracking_protocol] at hprotocol
      exact Or.inl ⟨hv4, hprotocol.symm, rfl, hle⟩
  · have hleads : HeadersEnd dgram size protocol offset ↔
        LeadsTo dgram size (dgram 6) 40 protocol offset := by
      constructor
      · rintro (⟨hv4, -⟩ | ⟨-, hleads⟩)
        · exact absurd hv4 (ne_ipv4_of_ipv6 hv6)
        · exact hleads
      · exact fun hleads ↦ Or.inr ⟨hv6, hleads⟩
    rw [hleads, leadsTo_iff]
    refine exists_congr fun fuel ↦ ?_
    rw [getIpHeaders_v6 hv6 hsize, ipHeaderReads_v6 hv6 hsize, Option.map_eq_some_iff]
    refine and_congr_left fun _ ↦ ⟨fun hskip ↦ ⟨_, hskip, rfl⟩, ?_⟩
    rintro ⟨⟨protocol', offset'⟩, hskip, heq⟩
    obtain ⟨htracking, rfl⟩ := Prod.mk.inj heq
    have hprotocol := congrArg Tracking.protocol htracking
    rw [dgramTracking_protocol, dgramTracking_protocol] at hprotocol
    rw [hskip, ← hprotocol]

/-- It fills the addresses and the protocol. -/
theorem getIpHeaders_tracking (h : ¬Refused dgram size) {fuel : ℕ} {t t' : Tracking}
    (hip : getIpHeaders fuel t dgram size = some (t', offset)) :
    ∃ protocol, t' = dgramTracking t dgram protocol := by
  obtain ⟨hv4, hsize⟩ | ⟨hv6, hsize⟩ := not_refused h
  · rw [getIpHeaders_v4 hv4 hsize] at hip
    exact ⟨_, (Prod.mk.inj (Option.some.inj hip)).1.symm⟩
  · rw [getIpHeaders_v6 hv6 hsize] at hip
    obtain ⟨r, -, heq⟩ := Option.map_eq_some_iff.1 hip
    exact ⟨r.1, (Prod.mk.inj heq).1.symm⟩

/-- The functions for the transport header check its size. -/
theorem transportReads_lt (protocol : UInt8) (size : ℕ) :
    ∀ i ∈ transportReads protocol size, i < size := by
  rw [transportReads]
  split_ifs <;> simp <;> omega

/-- What is kept is inside the datagram, when the length is. -/
theorem payloadReads_lt_iff (hsize : 20 ≤ size) : (∀ i ∈ payloadReads dgram, i < size) ↔
    min storedPayloadSize (dgram.be16 2).toNat ≤ size := by
  simp only [payloadReads, List.forall_mem_append, List.forall_mem_cons, List.not_mem_nil,
    false_implies, implies_true, and_true, List.mem_range]
  constructor
  · rintro ⟨-, h⟩
    by_contra hlong
    exact absurd (h size (by omega)) (Nat.lt_irrefl _)
  · intro h
    exact ⟨by omega, fun i hi ↦ by omega⟩

end Reads

/-! ### Staying inside -/

section Inside

variable {conf : Params} {localid : Tracking → Bool} {connection : Connection} {dgram : Memory}
  {size : ℕ} {msgType : UInt8}

/-- What is read when `parse_dgram` goes on. -/
theorem payloadReads_subset {fuel offset : ℕ} {t : Tracking}
    (hip : getIpHeaders fuel connection.tracking dgram size = some (t, offset)) (hne : offset ≠ 0)
    (htaken : TransportTaken conf localid t (transportRoom size offset) (dgram.drop offset)
      msgType) :
    ∀ i ∈ payloadReads dgram,
      i ∈ parseDgramReads fuel conf localid connection dgram size msgType := by
  obtain ⟨r, hr, hret⟩ := parseDgram_goesOn_iff.2 ⟨t, offset, hip, hne, htaken⟩
  intro i hi
  rw [parseDgramReads, hr]
  dsimp only
  rw [if_pos hret]
  exact List.mem_append_right _ hi

/-- Nothing else is read of a datagram whose header is refused. -/
theorem parseDgramReads_refused (h : Refused dgram size) (fuel : ℕ) :
    parseDgramReads fuel conf localid connection dgram size msgType =
      ipHeaderReads fuel dgram size := by
  have hnot : ∀ r, parseDgram fuel conf localid connection dgram size msgType = some r →
      r.ret ≠ .continue := by
    intro r hr hret
    obtain ⟨t, offset, hip, hne, -⟩ := parseDgram_goesOn_iff.1 ⟨r, hr, hret⟩
    rw [getIpHeaders_refused h] at hip
    exact hne (Prod.mk.inj (Option.some.inj hip)).2.symm
  rw [parseDgramReads, getIpHeaders_refused h]
  dsimp only
  rw [if_pos rfl, List.append_nil]
  split
  · next r hr => rw [if_neg (hnot r hr), List.append_nil]
  · exact List.append_nil _

/-- **When `parse_dgram` stays inside the datagram.** The fixed header is refused, or the headers
end inside the datagram, and if the transport header is taken then the total length, as far as that
many bytes are kept, is not beyond its end. -/
theorem dgram_inside_iff (hsize : size < 2 ^ 32) :
    StaysInside conf localid connection dgram size msgType ↔
      Refused dgram size ∨ ∃ protocol offset, HeadersEnd dgram size protocol offset ∧
        (offset ≠ 0 →
          TransportTaken conf localid (dgramTracking connection.tracking dgram protocol)
            (size - offset) (dgram.drop offset) msgType →
          min storedPayloadSize (dgram.be16 2).toNat ≤ size) := by
  by_cases hrefused : Refused dgram size
  · refine iff_of_true ⟨0, connection.tracking, 0, getIpHeaders_refused hrefused 0 _,
      Nat.zero_le _, transportRoom_eq (Nat.zero_le _) hsize, ?_⟩ (Or.inl hrefused)
    rw [parseDgramReads_refused hrefused]
    exact ipHeaderReads_refused hrefused 0
  have hlong : 20 ≤ size := by
    obtain ⟨-, h⟩ | ⟨-, h⟩ := not_refused hrefused <;> omega
  rw [or_iff_right hrefused]
  constructor
  · rintro ⟨fuel, t, offset, hip, hle, hroom, hreads⟩
    obtain ⟨protocol, rfl⟩ := getIpHeaders_tracking hrefused hip
    refine ⟨protocol, offset, (headersEnd_iff hrefused connection.tracking).2
      ⟨fuel, hip, fun i hi ↦ hreads i ?_, hle⟩, fun hne htaken ↦ ?_⟩
    · rw [parseDgramReads, List.append_assoc]
      exact List.mem_append_left _ hi
    · rw [← hroom] at htaken
      exact (payloadReads_lt_iff hlong).1 fun i hi ↦
        hreads i (payloadReads_subset hip hne htaken i hi)
  · rintro ⟨protocol, offset, hend, hpayload⟩
    obtain ⟨fuel, hip, hreads, hle⟩ := (headersEnd_iff hrefused connection.tracking).1 hend
    have hroom := transportRoom_eq hle hsize
    refine ⟨fuel, _, offset, hip, hle, hroom, ?_⟩
    rw [parseDgramReads, hip, List.forall_mem_append, List.forall_mem_append]
    refine ⟨⟨hreads, ?_⟩, ?_⟩
    · dsimp only
      split_ifs
      · simp
      · rw [List.forall_mem_map, hroom]
        intro i hi
        have hlt := transportReads_lt _ _ i hi
        omega
    · split
      · next r hr =>
        split_ifs with hret
        · obtain ⟨t, offset', hip', hne, htaken⟩ := parseDgram_goesOn_iff.1 ⟨r, hr, hret⟩
          obtain ⟨rfl, rfl⟩ := Prod.mk.inj (Option.some.inj (hip.symm.trans hip'))
          rw [hroom] at htaken
          exact (payloadReads_lt_iff hlong).2 (hpayload hne htaken)
        · simp
      · simp

end Inside

/-- The SYN of the example is read inside its forty bytes. -/
theorem synDgram_inside : StaysInside Params.default (fun _ ↦ false) Connection.zero
    (Memory.ofBytes synDgram) 40 authRequest := by
  refine (dgram_inside_iff (by decide)).2 (Or.inr ⟨6, 20, Or.inl ?_, fun _ _ ↦ by decide⟩)
  decide

/-- An IPv4 header of twenty bytes that announces sixty. -/
def optionsCut : Bytes :=
  [0x4f, 0, 0, 20, 0, 0, 0, 0, 64, 6, 0, 0, 192, 168, 0, 2, 192, 168, 0, 3]

/-- An IPv6 packet whose hop-by-hop options of length zero are followed by themselves. -/
def endlessDgram : Memory := ipv6Dgram 0 [0, 0]

theorem endlessDgram_loop (fuel : ℕ) : skipExtHeaders endlessDgram fuel 0 40 = none := by
  induction fuel with
  | zero => rfl
  | succ fuel ih =>
    have hnext : nextExtHeader endlessDgram 0 40 = some (0, 40) := by decide
    rw [skipExtHeaders, hnext]
    exact ih

/-- **The headers lead out of the datagram, or nowhere.** The size that is left behind a header of
IPv4 that announces options wraps around, and a hop-by-hop header of length zero that announces
another one is read for ever. -/
theorem dgram_not_inside :
    (¬StaysInside Params.default (fun _ ↦ false) Connection.zero (Memory.ofBytes optionsCut) 20
      authRequest ∧ transportRoom 20 60 = 2 ^ 32 - 40) ∧
    (∀ fuel, getIpHeaders fuel Tracking.zero endlessDgram 42 = none) ∧
    ¬StaysInside Params.default (fun _ ↦ false) Connection.zero endlessDgram 42 authRequest := by
  have hendless : ∀ fuel, getIpHeaders fuel Tracking.zero endlessDgram 42 = none := by
    intro fuel
    have hnext : endlessDgram 6 = 0 := by decide
    rw [getIpHeaders_v6 (by decide) (by decide), hnext, endlessDgram_loop]
    rfl
  refine ⟨⟨?_, by decide⟩, hendless, ?_⟩
  · rintro ⟨fuel, t, offset, hip, hle, -⟩
    rw [getIpHeaders_v4 (by decide) (by decide)] at hip
    obtain ⟨-, rfl⟩ := Prod.mk.inj (Option.some.inj hip)
    exact absurd hle (by decide)
  · rintro ⟨fuel, t, offset, hip, -⟩
    have hnone : getIpHeaders fuel Connection.zero.tracking endlessDgram 42 = none := hendless fuel
    rw [hnone] at hip
    cases hip

/-! ### What is kept -/

/-- The length of the datagram, as its header announces it. -/
def dgramLength (dgram : Memory) : ℕ :=
  if dgram 0 / 16 = 4 then (dgram.be16 2).toNat else 40 + (dgram.be16 4).toNat

/-- **What is kept is a beginning of the datagram**: not more than has been received, and not less
than that or what the header announces, as far as there is room. -/
def KeepsPayload (dgram : Memory) (size : ℕ) (c : Connection) : Prop :=
  c.payloadLen ≤ min storedPayloadSize size ∧
    min (min storedPayloadSize size) (dgramLength dgram) ≤ c.payloadLen ∧
    ∀ i : Fin 128, (i : ℕ) < c.payloadLen → c.payload.get i = dgram i

/-- What `parse_dgram` keeps. -/
theorem parseDgram_payload {fuel size : ℕ} {conf : Params} {localid : Tracking → Bool}
    {connection c : Connection} {dgram : Memory} {msgType : UInt8} {r : NewConnection}
    (h : parseDgram fuel conf localid connection dgram size msgType = some r)
    (hret : r.ret = .continue) (hc : r.connection = some c) :
    c.payloadLen = min storedPayloadSize (dgram.be16 2).toNat ∧
      ∃ old, c.payload = copyPayload old (dgram.bytes 0 128) c.payloadLen := by
  obtain ⟨⟨t, offset⟩, hip, hr⟩ := Option.map_eq_some_iff.1 h
  dsimp only at hr
  split_ifs at hr with hzero hhello
  · rw [← hr] at hret
    cases hret
  all_goals
    split at hr
    · next ret htransport =>
      rw [← hr] at hret
      obtain rfl : ret = .continue := hret
      exact absurd htransport parseTransport_ne_continue
    · rw [← hr] at hc
      rw [← Option.some.inj hc]
      exact ⟨rfl, _, rfl⟩

/-- **When what is kept is right.** The sixteen bits behind the second byte, which are the total
length of IPv4 and belong to the flow label of IPv6, are not beyond the end of the datagram unless
it has 128 bytes; and for IPv6 they are not less than the announced length unless they reach the end
of the datagram or 128. -/
theorem payload_kept_iff {fuel size : ℕ} {conf : Params} {localid : Tracking → Bool}
    {connection c : Connection} {dgram : Memory} {msgType : UInt8} {r : NewConnection}
    (h : parseDgram fuel conf localid connection dgram size msgType = some r)
    (hret : r.ret = .continue) (hc : r.connection = some c) :
    KeepsPayload dgram size c ↔
      (storedPayloadSize ≤ size ∨ (dgram.be16 2).toNat ≤ size) ∧
      (dgram 0 / 16 = 4 ∨ 40 + (dgram.be16 4).toNat ≤ (dgram.be16 2).toNat ∨
        size ≤ (dgram.be16 2).toNat ∨ storedPayloadSize ≤ (dgram.be16 2).toNat) := by
  obtain ⟨hlen, old, hpayload⟩ := parseDgram_payload h hret hc
  have hbytes : ∀ i : Fin 128, (i : ℕ) < c.payloadLen → c.payload.get i = dgram i := by
    intro i hi
    have hget : (dgram.bytes 0 128).get i = dgram (0 + i) := Vector.getElem_ofFn _
    rw [hpayload, get_copyPayload, if_pos hi, hget, Nat.zero_add]
  rw [KeepsPayload, and_iff_left hbytes, hlen, dgramLength]
  split_ifs with hv4
  · rw [and_iff_left (Or.inl hv4)]
    omega
  · rw [or_iff_right hv4]
    omega

/-- All of the SYN is kept. -/
theorem synDgram_kept : ∃ r c, parseDgram 1 Params.default (fun _ ↦ false) Connection.zero
      (Memory.ofBytes synDgram) 40 authRequest = some r ∧
    r.ret = .continue ∧ r.connection = some c ∧ KeepsPayload (Memory.ofBytes synDgram) 40 c := by
  obtain ⟨r, hr⟩ : ∃ r, parseDgram 1 Params.default (fun _ ↦ false) Connection.zero
      (Memory.ofBytes synDgram) 40 authRequest = some r := ⟨_, rfl⟩
  have hret : r.ret = .continue := by
    cases hr
    decide +kernel
  obtain ⟨c, hc⟩ : ∃ c, r.connection = some c := by
    cases hr
    exact Option.isSome_iff_exists.1 (by decide +kernel)
  exact ⟨r, c, hr, hret, hc, (payload_kept_iff hr hret hc).2 ⟨by decide, by decide⟩⟩

/-- A SYN over IPv6, with the flow label zero. -/
def ipv6Syn : Bytes :=
  [0x60, 0, 0, 0, 0, 20, 6, 64] ++ List.replicate 32 0 ++
    [0x9c, 0x40, 0, 22, 0, 0, 0, 0, 0, 0, 0, 0, 0x50, 2, 0, 0, 0, 0, 0, 0]

/-- **Nothing is kept of a SYN over IPv6.** -/
theorem ipv6Syn_not_kept : ∃ r c, parseDgram 1 Params.default (fun _ ↦ false) Connection.zero
      (Memory.ofBytes ipv6Syn) 60 authRequest = some r ∧
    r.ret = .continue ∧ r.connection = some c ∧ c.payloadLen = 0 ∧
    dgramLength (Memory.ofBytes ipv6Syn) = 60 ∧ ¬KeepsPayload (Memory.ofBytes ipv6Syn) 60 c := by
  obtain ⟨r, hr⟩ : ∃ r, parseDgram 1 Params.default (fun _ ↦ false) Connection.zero
      (Memory.ofBytes ipv6Syn) 60 authRequest = some r := ⟨_, rfl⟩
  have hret : r.ret = .continue := by
    cases hr
    decide +kernel
  obtain ⟨c, hc⟩ : ∃ c, r.connection = some c := by
    cases hr
    exact Option.isSome_iff_exists.1 (by decide +kernel)
  have hlen : c.payloadLen = 0 := (parseDgram_payload hr hret hc).1.trans (by decide)
  refine ⟨r, c, hr, hret, hc, hlen, by decide, fun hkeeps ↦ ?_⟩
  have hannounced : dgramLength (Memory.ofBytes ipv6Syn) = 60 := by decide
  have hle := hkeeps.2.1
  rw [hlen, hannounced] at hle
  exact absurd hle (by decide)

end Nufw
