import Nufw.Nuauth.UserAuthsrv
import Nufw.Nuauth.AuthHash

/-!
# The two halves of a connection

A connection is announced twice: by the gateway, which sends the packet, and by the client, which
sends a field with the addresses, the protocol and the ports, or the type and the code. The tracking
that the headers of the packet give and the one that the field gives are equal for
`tracking_equal`, which is an equivalence on the trackings that the two parsers fill and agrees with
`hash_connection` there; so that whichever half comes second finds the first one in `conn_list`.
-/

namespace Nufw

/-! ### Packets and fields -/

/-- The datagram goes from one address to the other, and has the header of the protocol at the
offset. It is an IPv4 one, with or without options, or an IPv6 one without extension headers. -/
inductive Carries (dgram : Memory) : In6Addr → In6Addr → UInt8 → ℕ → Prop
  | ipv4 (hversion : dgram 0 / 16 = 4) (hihl : 5 ≤ (dgram 0 % 16).toNat) :
    Carries dgram (uint32ToIpv6 (dgram.bytes 12 4)) (uint32ToIpv6 (dgram.bytes 16 4)) (dgram 9)
      (4 * (dgram 0 % 16).toNat)
  | ipv6 (hversion : dgram 0 / 16 = 6) :
    Carries dgram (dgram.bytes 8 16) (dgram.bytes 24 16) (dgram 6) 40

/-- The protocol has ports. -/
def HasPorts (protocol : UInt8) : Prop := protocol = ipprotoTcp ∨ protocol = ipprotoUdp

instance (protocol : UInt8) : Decidable (HasPorts protocol) :=
  inferInstanceAs (Decidable (_ ∨ _))

/-- The size of the header of a protocol. -/
def transportSize (protocol : UInt8) : ℕ := if protocol = ipprotoTcp then 20 else 8

/-- The ports in a header, or its type and code as two numbers of sixteen bits. -/
def headerNumbers (protocol : UInt8) (header : Memory) : UInt16 × UInt16 :=
  if HasPorts protocol then (header.be16 0, header.be16 2)
  else ((header 0).toUInt16, (header 1).toUInt16)

/-- A field of a client for the addresses, the protocol and the two numbers. -/
structure Announces (field : Memory) (saddr daddr : In6Addr) (protocol : UInt8)
    (numbers : UInt16 × UInt16) : Prop where
  src : field.bytes 4 16 = saddr
  dst : field.bytes 20 16 = daddr
  proto : field 36 = protocol
  sport : field.be16 40 = numbers.1
  dport : field.be16 42 = numbers.2

/-- A tracking that one of the two parsers has filled. -/
inductive Tracking.Filled : Tracking → Prop
  | packet {fuel : ℕ} {t₀ t : Tracking} {dgram : Memory} {dgramSize : ℕ}
      (h : getHeaders fuel t₀ dgram dgramSize = some t) : Filled t
  | field {connection c : Connection} {field : Memory}
      (h : userProcessFieldIpv6 connection field = some c) : Filled c.tracking

/-! ### Filled trackings -/

/-- What both parsers make of a tracking with addresses and a protocol. -/
def Tracking.withNumbers (t : Tracking) (numbers : UInt16 × UInt16) : Tracking :=
  if HasPorts t.protocol then
    { t with source := numbers.1, dest := numbers.2, type := 0, code := 0 }
  else { t with source := 0, dest := 0, type := numbers.1.toUInt8, code := numbers.2.toUInt8 }

theorem not_hasPorts {protocol : UInt8}
    (h : protocol = ipprotoIcmp ∨ protocol = ipprotoIcmpv6) : ¬HasPorts protocol := by
  rcases h with rfl | rfl <;> decide

/-- The headers of a datagram. -/
theorem getHeaders_eq {fuel : ℕ} {t₀ t : Tracking} {dgram : Memory} {dgramSize : ℕ}
    (h : getHeaders fuel t₀ dgram dgramSize = some t) :
    ∃ t₁ : Tracking, ∃ offset, getIpHeaders fuel t₀ dgram dgramSize = some (t₁, offset) ∧
      t₁.Supported ∧ t = t₁.withNumbers (headerNumbers t₁.protocol (dgram.drop offset)) := by
  obtain ⟨⟨t₁, offset⟩, hip, h⟩ := Option.bind_eq_some_iff.1 h
  refine ⟨t₁, offset, hip, ?_⟩
  dsimp only at h
  split_ifs at h with hzero htcp hsize hudp hicmp hicmpv6
  · have hports : HasPorts t₁.protocol := Or.inl htcp
    refine ⟨Or.inl htcp, ?_⟩
    rw [← Option.some.inj h, Tracking.withNumbers, headerNumbers, if_pos hports, if_pos hports,
      getTcpHeaders, if_neg hsize]
    dsimp only
    split_ifs <;> rfl
  · have hports : HasPorts t₁.protocol := Or.inr hudp
    refine ⟨Or.inr (Or.inl hudp), ?_⟩
    rw [getUdpHeaders] at h
    split_ifs at h
    rw [← Option.some.inj h, Tracking.withNumbers, headerNumbers, if_pos hports, if_pos hports]
  · refine ⟨Or.inr (Or.inr (Or.inl hicmp)), ?_⟩
    rw [getIcmpHeaders] at h
    split_ifs at h
    rw [← Option.some.inj h, Tracking.withNumbers, headerNumbers,
      if_neg (not_hasPorts (Or.inl hicmp)), if_neg (not_hasPorts (Or.inl hicmp))]
    simp
  · refine ⟨Or.inr (Or.inr (Or.inr hicmpv6)), ?_⟩
    rw [getIcmpv6Headers, getIcmpHeaders] at h
    split_ifs at h
    rw [← Option.some.inj h, Tracking.withNumbers, headerNumbers,
      if_neg (not_hasPorts (Or.inr hicmpv6)), if_neg (not_hasPorts (Or.inr hicmpv6))]
    simp

/-- The field of a client. -/
theorem userProcessFieldIpv6_eq {connection c : Connection} {field : Memory}
    (h : userProcessFieldIpv6 connection field = some c) :
    let t : Tracking := { connection.tracking with
      saddr := field.bytes 4 16
      daddr := field.bytes 20 16
      protocol := field 36 }
    t.Supported ∧ c.tracking = t.withNumbers (field.be16 40, field.be16 42) := by
  intro t
  rw [userProcessFieldIpv6] at h
  dsimp only at h
  split_ifs at h with hports htypeCode
  · refine ⟨hports.elim Or.inl fun hudp ↦ Or.inr (Or.inl hudp), ?_⟩
    rw [← Option.some.inj h, Tracking.withNumbers, if_pos (show HasPorts t.protocol from hports)]
  · refine ⟨Or.inr (Or.inr htypeCode), ?_⟩
    rw [← Option.some.inj h, Tracking.withNumbers, if_neg (show ¬HasPorts t.protocol from hports)]

theorem Tracking.Filled.exists_withNumbers {t : Tracking} (h : t.Filled) :
    ∃ t₁ : Tracking, ∃ numbers, t₁.Supported ∧ t = t₁.withNumbers numbers := by
  cases h with
  | packet h =>
    obtain ⟨t₁, offset, -, hsupported, rfl⟩ := getHeaders_eq h
    exact ⟨t₁, _, hsupported, rfl⟩
  | field h =>
    obtain ⟨hsupported, heq⟩ := userProcessFieldIpv6_eq h
    exact ⟨_, _, hsupported, heq⟩

@[simp] theorem Tracking.withNumbers_protocol (t : Tracking) (numbers : UInt16 × UInt16) :
    (t.withNumbers numbers).protocol = t.protocol := by
  rw [withNumbers]
  split_ifs <;> rfl

@[simp] theorem Tracking.withNumbers_saddr (t : Tracking) (numbers : UInt16 × UInt16) :
    (t.withNumbers numbers).saddr = t.saddr := by
  rw [withNumbers]
  split_ifs <;> rfl

theorem Tracking.withNumbers_source (t : Tracking) (numbers : UInt16 × UInt16)
    (h : ¬HasPorts t.protocol) : (t.withNumbers numbers).source = 0 := by
  rw [withNumbers, if_neg h]

/-- Two trackings with the same addresses, protocol and numbers. -/
theorem trackingEqual_withNumbers {t t' : Tracking} (hsupported : t.Supported)
    (hsaddr : t.saddr = t'.saddr) (hdaddr : t.daddr = t'.daddr)
    (hprotocol : t.protocol = t'.protocol) (numbers : UInt16 × UInt16) :
    trackingEqual (t.withNumbers numbers) (t'.withNumbers numbers) = true := by
  rw [Tracking.Supported] at hsupported
  simp only [trackingEqual, Tracking.withNumbers, HasPorts, ← hprotocol]
  split_ifs <;> simp_all

/-! ### The comparison and the hash -/

theorem trackingEqual_refl {t : Tracking} (h : t.Supported) : trackingEqual t t = true := by
  refine (trackingEqual_iff_eq h rfl (fun _ _ ↦ ⟨rfl, rfl⟩) fun _ _ ↦ ⟨rfl, rfl⟩).2 rfl

/-- Filled trackings that are equal have the same hash. -/
theorem hashConnection_eq {t t' : Tracking} (order : ByteOrder) (ht : t.Filled) (ht' : t'.Filled)
    (h : trackingEqual t t' = true) : hashConnection order t = hashConnection order t' := by
  have hfields : t.saddr = t'.saddr ∧ t.protocol = t'.protocol ∧
      (HasPorts t.protocol → t.source = t'.source) := by
    unfold trackingEqual at h
    split_ifs at h with hprotocol hports htypeCode
    · obtain ⟨hsource, -, -, hsaddr⟩ := of_decide_eq_true h
      exact ⟨ipv6Equal_iff.1 hsaddr, not_not.1 hprotocol, fun _ ↦ hsource⟩
    · obtain ⟨-, -, -, hsaddr⟩ := of_decide_eq_true h
      exact ⟨ipv6Equal_iff.1 hsaddr, not_not.1 hprotocol, fun hp ↦ absurd hp hports⟩
  obtain ⟨hsaddr, hprotocol, hsource⟩ := hfields
  have hsource : t.source = t'.source := by
    by_cases hports : HasPorts t.protocol
    · exact hsource hports
    · obtain ⟨t₁, numbers, -, rfl⟩ := ht.exists_withNumbers
      obtain ⟨t₂, numbers', -, rfl⟩ := ht'.exists_withNumbers
      rw [Tracking.withNumbers_protocol] at hports
      rw [Tracking.withNumbers_protocol, Tracking.withNumbers_protocol] at hprotocol
      rw [t₁.withNumbers_source numbers hports, t₂.withNumbers_source numbers' (hprotocol ▸ hports)]
  rw [hashConnection, hashConnection, hsaddr, hsource]

theorem Tracking.Filled.supported {t : Tracking} (h : t.Filled) : t.Supported := by
  obtain ⟨t₁, numbers, hsupported, rfl⟩ := h.exists_withNumbers
  rw [Tracking.Supported, Tracking.withNumbers_protocol]
  exact hsupported

/-! ### Meeting -/

/-- The IP headers of a packet: the loop over extension headers ends in its first turn. -/
theorem Carries.getIpHeaders_eq {dgram : Memory} {saddr daddr : In6Addr} {protocol : UInt8}
    {offset dgramSize : ℕ} (h : Carries dgram saddr daddr protocol offset)
    (t : Tracking) (hsupported : Tracking.Supported { t with protocol := protocol })
    (hsize : offset ≤ dgramSize) (fuel : ℕ) :
    getIpHeaders (fuel + 1) t dgram dgramSize =
      some ({ t with saddr := saddr, daddr := daddr, protocol := protocol }, offset) ∧
        offset ≠ 0 := by
  cases h with
  | ipv4 hversion hihl =>
    refine ⟨?_, by omega⟩
    rw [getIpHeaders_ipv4 _ _ hversion (by omega)]
  | ipv6 hversion =>
    refine ⟨?_, by decide⟩
    have hlast : nextExtHeader dgram (dgram 6) 40 = none := by
      have hne : ∀ p : UInt8, p ≠ ipprotoTcp → p ≠ ipprotoUdp → p ≠ ipprotoIcmp →
          p ≠ ipprotoIcmpv6 → dgram 6 ≠ p := by
        rintro p htcp hudp hicmp hicmpv6 rfl
        rcases hsupported with h | h | h | h
        · exact htcp h
        · exact hudp h
        · exact hicmp h
        · exact hicmpv6 h
      rw [nextExtHeader, if_neg, if_neg]
      · exact hne _ (by decide) (by decide) (by decide) (by decide)
      · rintro (h | h | h | h) <;>
          exact hne _ (by decide) (by decide) (by decide) (by decide) h
    rw [getIpHeaders_ipv6 _ _ hversion (by omega), skipExtHeaders, hlast]
    rfl

/-- The transport header of a packet that is long enough is read. -/
theorem getHeaders_isSome {fuel : ℕ} {t t₁ : Tracking} {dgram : Memory} {offset dgramSize : ℕ}
    (hip : getIpHeaders fuel t dgram dgramSize = some (t₁, offset)) (hoffset : offset ≠ 0)
    (hsupported : t₁.Supported) (hsize : offset + transportSize t₁.protocol ≤ dgramSize) :
    (getHeaders fuel t dgram dgramSize).isSome := by
  rw [getHeaders, hip, Option.bind_some]
  dsimp only
  rw [if_neg hoffset]
  rw [transportSize] at hsize
  split_ifs at hsize ⊢ with htcp hshort hudp hicmp hicmpv6
  · omega
  · rfl
  · rw [getUdpHeaders, if_neg (by omega)]
    rfl
  · rw [getIcmpHeaders, if_neg (by omega)]
    rfl
  · rw [getIcmpv6Headers, getIcmpHeaders, if_neg (by omega)]
    rfl
  · rcases hsupported with h | h | h | h
    · exact absurd h htcp
    · exact absurd h hudp
    · exact absurd h hicmp
    · exact absurd h hicmpv6

theorem userProcessFieldIpv6_isSome {connection : Connection} {field : Memory}
    (hsupported : Tracking.Supported { connection.tracking with protocol := field 36 }) :
    (userProcessFieldIpv6 connection field).isSome := by
  rw [userProcessFieldIpv6]
  dsimp only
  split_ifs with hports htypeCode
  · rfl
  · rfl
  · rcases hsupported with h | h | h | h
    · exact absurd (Or.inl h) hports
    · exact absurd (Or.inr h) hports
    · exact absurd (Or.inl h) htypeCode
    · exact absurd (Or.inr h) htypeCode

/-- A lookup in `conn_list` finds an entry that equals the key, when there is one. -/
theorem find?_hasKey {order : ByteOrder} {key : Tracking} (hkey : key.Filled)
    {connList : List Connection} {e : Connection} (he : e ∈ connList) (hfilled : e.tracking.Filled)
    (hequal : trackingEqual e.tracking key = true) :
    ∃ found, connList.find? (hasKey order key) = some found ∧
      trackingEqual found.tracking key = true := by
  have hhas : hasKey order key e = true :=
    decide_eq_true ⟨hashConnection_eq order hfilled hkey hequal, hequal⟩
  obtain ⟨found, hfound⟩ := Option.isSome_iff_exists.1 (List.find?_isSome.2 ⟨e, he, hhas⟩)
  have hfound' : hasKey order key found = true := List.find?_some hfound
  exact ⟨found, hfound, (of_decide_eq_true hfound').2⟩

/-- **The two halves of a connection meet.** For every packet of one of the four protocols with a
complete header, and every field of a client for it, both parsers fill a tracking, the two are
equal, and each half finds the other one in `conn_list`. On the trackings that they fill
`tracking_equal` is an equivalence, and equal ones have the same hash. -/
theorem halves_meet (order : ByteOrder) :
    (∀ {dgram field : Memory} {saddr daddr : In6Addr} {protocol : UInt8} {offset dgramSize : ℕ},
      Carries dgram saddr daddr protocol offset →
      Tracking.Supported { Tracking.zero with protocol := protocol } →
      offset + transportSize protocol ≤ dgramSize →
      Announces field saddr daddr protocol (headerNumbers protocol (dgram.drop offset)) →
      ∀ (fuel : ℕ) (t : Tracking) (connection : Connection), ∃ tracking user,
        getHeaders (fuel + 1) t dgram dgramSize = some tracking ∧
        userProcessFieldIpv6 connection field = some user ∧
        trackingEqual tracking user.tracking = true ∧
        ∀ connList : List Connection, ∀ e ∈ connList,
          (e.tracking = tracking → ∃ found,
            connList.find? (hasKey order user.tracking) = some found ∧
              trackingEqual found.tracking user.tracking = true) ∧
          (e.tracking = user.tracking → ∃ found,
            connList.find? (hasKey order tracking) = some found ∧
              trackingEqual found.tracking tracking = true)) ∧
    ∀ {t t' t'' : Tracking}, t.Filled → t'.Filled → t''.Filled →
      trackingEqual t t = true ∧ (trackingEqual t t' = true → trackingEqual t' t = true) ∧
      (trackingEqual t t' = true → trackingEqual t' t'' = true → trackingEqual t t'' = true) ∧
      (trackingEqual t t' = true → hashConnection order t = hashConnection order t') := by
  constructor
  · intro dgram field saddr daddr protocol offset dgramSize hpacket hsupported hsize hfield fuel t
      connection
    obtain ⟨hip, hoffset⟩ := hpacket.getIpHeaders_eq t hsupported
      (Nat.le_trans (Nat.le_add_right _ _) hsize) fuel
    obtain ⟨tracking, htracking⟩ := Option.isSome_iff_exists.1
      (getHeaders_isSome hip hoffset hsupported hsize)
    have hproto : Tracking.Supported { connection.tracking with protocol := field 36 } := by
      rw [hfield.proto]
      exact hsupported
    obtain ⟨user, huser⟩ := Option.isSome_iff_exists.1 (userProcessFieldIpv6_isSome hproto)
    obtain ⟨t₁, offset', hip', hsupported', htracking'⟩ := getHeaders_eq htracking
    obtain ⟨rfl, rfl⟩ := Prod.mk.inj (Option.some.inj (hip.symm.trans hip'))
    obtain ⟨-, huser'⟩ := userProcessFieldIpv6_eq huser
    have hequal : trackingEqual tracking user.tracking = true := by
      rw [htracking', huser', hfield.sport, hfield.dport, hfield.src, hfield.dst, hfield.proto]
      refine trackingEqual_withNumbers hsupported' ?_ ?_ ?_ _ <;> rfl
    refine ⟨tracking, user, htracking, huser, hequal, fun connList e he ↦ ⟨?_, ?_⟩⟩
    · rintro rfl
      exact find?_hasKey (.field huser) he (.packet htracking) hequal
    · intro heq
      have hfilled : e.tracking.Filled := by
        rw [heq]
        exact .field huser
      have hequal' : trackingEqual e.tracking tracking = true := by
        rw [heq]
        exact trackingEqual_symm hequal
      exact find?_hasKey (.packet htracking) he hfilled hequal'
  · intro t t' t'' ht ht' ht''
    exact ⟨trackingEqual_refl ht.supported, trackingEqual_symm, trackingEqual_trans,
      hashConnection_eq order ht ht'⟩

/-- The SYN of the announced connection meets the announcement. -/
theorem syn_meets_announcement :
    ∃ tracking user, getHeaders 1 Tracking.zero (Memory.ofBytes synDgram) 40 = some tracking ∧
      userProcessFieldIpv6 Connection.zero ((Memory.ofBytes synUserMessage).drop 8) = some user ∧
      trackingEqual tracking user.tracking = true := by
  have hpacket := Carries.ipv4 (show Memory.ofBytes synDgram 0 / 16 = 4 by decide +kernel)
    (by decide +kernel)
  have hfield : Announces ((Memory.ofBytes synUserMessage).drop 8)
      (uint32ToIpv6 ((Memory.ofBytes synDgram).bytes 12 4))
      (uint32ToIpv6 ((Memory.ofBytes synDgram).bytes 16 4)) (Memory.ofBytes synDgram 9)
      (headerNumbers (Memory.ofBytes synDgram 9)
        ((Memory.ofBytes synDgram).drop (4 * (Memory.ofBytes synDgram 0 % 16).toNat))) :=
    ⟨by decide +kernel, by decide +kernel, by decide +kernel, by decide +kernel, by decide +kernel⟩
  have hsize : 4 * (Memory.ofBytes synDgram 0 % 16).toNat +
      transportSize (Memory.ofBytes synDgram 9) ≤ 40 := by decide +kernel
  obtain ⟨tracking, user, htracking, huser, hequal, -⟩ := (halves_meet .little).1 hpacket
    (by decide +kernel) hsize hfield 0 Tracking.zero Connection.zero
  exact ⟨tracking, user, htracking, huser, hequal⟩

end Nufw
