import Nufw.Nuauth.Acls
import Nufw.Nuauth.Arrivals

/-!
# Keys of parsed connections

Whether the keys of the ACL cache are what a hash table expects, over the connections that the two
parsers produce. `compare_acls` is transitive there and agrees with `hash_acl`, but it is an
equivalence only for some keys. It is symmetric where the second key names no interface that the
first one leaves out, since the names the first key does not have are not looked at. And it is
reflexive for TCP, UDP, ICMP and ICMPv6 only: in the hello mode a gateway announces connections of
any protocol, and `tracking_equal` finds two trackings of another one different even when they are
the same.
-/

namespace Nufw

/-- The tracking is that of a connection which one of the two parsers has produced. -/
inductive Tracking.Produced : Tracking → Prop
  | nufw {fuel : ℕ} {conf : Params} {localid : Tracking → Bool} {now : Int} {dgram : Memory}
      {dgramSize : ℕ} {d : Decoded} {c : Connection}
      (h : authpcktDecode fuel conf localid now dgram dgramSize = some d)
      (hc : d.new.Produces c) : Produced c.tracking
  | user {conf : Params} {env : UserEnv} {clock : ℕ → Int} {fuel : ℕ} {data : TlsBufferRead}
      {ret : NuError} {conns : List Connection} {c : Connection}
      (h : userpcktDecode conf env clock fuel data = some (ret, conns)) (hc : c ∈ conns) :
      Produced c.tracking

/-- The key is that of a connection which the parsers have produced, one of its halves or both. -/
def AclKey.Produced (key : AclKey) : Prop :=
  ∃ kdatas : Connection, kdatas.tracking.Produced ∧ aclCreateAndAllocKey kdatas = key

/-! ### Produced trackings -/

theorem parseDgram_tracking {fuel : ℕ} {conf : Params} {localid : Tracking → Bool}
    {connection : Connection} {dgram : Memory} {dgramSize : ℕ} {msgType : UInt8}
    {r : NewConnection} {c : Connection} (hpadding : connection.tracking.padding = 0)
    (h : parseDgram fuel conf localid connection dgram dgramSize msgType = some r)
    (hret : r.ret = .continue) (hc : r.connection = some c) :
    c.tracking.Canonical ∨ ¬c.tracking.Supported := by
  obtain ⟨⟨t, ipHdrSize⟩, hip, hr⟩ := Option.map_eq_some_iff.1 h
  obtain ⟨saddr, daddr, protocol, ht⟩ := getIpHeaders_eq hip
  dsimp only at hr
  split at hr
  · rw [← hr] at hret
    cases hret
  · split at hr
    · next ret hret' =>
      rw [← hr] at hret
      obtain rfl : ret = .continue := hret
      exact absurd hret' parseTransport_ne_continue
    · next t' ht' =>
      rw [← hr] at hc
      rw [← Option.some.inj hc]
      refine (parseTransport_cases ?_ ht').imp_right fun hother ↦ hother.2
      split_ifs <;> exact (congrArg Tracking.padding ht).trans hpadding

/-- A connection that a gateway has announced. -/
theorem produces_tracking {fuel : ℕ} {conf : Params} {localid : Tracking → Bool} {now : Int}
    {msg dgram : Memory} {nufwVersion dgramSize : ℕ} {msgType : UInt8} {r : NewConnection}
    {c : Connection} {f : Connection → Connection} (hf : ∀ c, (f c).tracking = c.tracking)
    (h : (parseDgram fuel conf localid (newConnection now msg nufwVersion) dgram dgramSize
      msgType).map (fun r ↦ if r.ret ≠ .continue then r
        else ⟨.ok, r.connection.map f, true, r.freed⟩) = some r)
    (hc : r.Produces c) : c.tracking.Canonical ∨ ¬c.tracking.Supported := by
  obtain ⟨-, hconnection, -, hfreed⟩ := hc
  obtain ⟨r', hr', hr⟩ := Option.map_eq_some_iff.1 h
  split at hr
  · next hcontinue =>
    rw [hr] at hr' hcontinue
    rw [parseDgram_freed hr' hcontinue] at hfreed
    cases hfreed
  · next hcontinue =>
    rw [← hr] at hconnection
    obtain ⟨c', hc', rfl⟩ := Option.map_eq_some_iff.1 hconnection
    rw [hf]
    exact parseDgram_tracking
      (show (newConnection now msg nufwVersion).tracking.padding = 0 from rfl)
      hr' (not_not.1 hcontinue) hc'

/-- A produced tracking of a protocol that `tracking_equal` knows is canonical. -/
theorem Tracking.Produced.canonical {t : Tracking} (h : t.Produced) (hsupported : t.Supported) :
    t.Canonical := by
  cases h with
  | @nufw fuel conf localid now dgram dgramSize d c h hc =>
    obtain ⟨herror, -⟩ | ⟨-, -, hnew⟩ | ⟨-, -, hnew⟩ := authpcktDecode_cases h
    · exact absurd (herror ▸ hc) not_produces_error
    · rw [authpcktNewConnection] at hnew
      split_ifs at hnew
      · exact absurd (Option.some.inj hnew ▸ hc) not_produces_error
      · exact (produces_tracking (parseV4Fields_tracking dgram) hnew hc).resolve_right
          (not_not.2 hsupported)
    · rw [authpcktNewConnectionV3] at hnew
      split_ifs at hnew
      · exact absurd (Option.some.inj hnew ▸ hc) not_produces_error
      · rw [returns_eq_map_id] at hnew
        exact (produces_tracking (fun _ ↦ rfl) hnew hc).resolve_right (not_not.2 hsupported)
  | @user conf env clock fuel data ret conns c h hc =>
    refine (userpcktDecode_announced h c hc).tracking.resolve_left fun hzero ↦ ?_
    rw [hzero] at hsupported
    exact absurd hsupported (by decide)

/-! ### The comparison -/

/-- The second set of names has no interface that the first one leaves out. -/
def IfaceNfo.Covers (a b : IfaceNfo) : Prop :=
  (b.indev.get 0 ≠ 0 → a.indev.get 0 ≠ 0) ∧ (b.outdev.get 0 ≠ 0 → a.outdev.get 0 ≠ 0) ∧
    (b.physindev.get 0 ≠ 0 → a.physindev.get 0 ≠ 0) ∧
    (b.physoutdev.get 0 ≠ 0 → a.physoutdev.get 0 ≠ 0)

theorem compareIface_symm_iff {a b : Vector UInt8 16} (h : compareIface a b = true) :
    compareIface b a = true ↔ (b.get 0 ≠ 0 → a.get 0 ≠ 0) := by
  rw [compareIface] at h ⊢
  split_ifs at h ⊢ with hb ha
  · obtain ⟨-, hchars⟩ := of_decide_eq_true h
    exact ⟨fun _ _ ↦ ha, fun _ ↦ decide_eq_true ⟨ha, hchars.symm⟩⟩
  · exact ⟨fun h hb' ↦ absurd (of_decide_eq_true h).1 ha, fun h ↦ absurd (h hb) ha⟩
  · exact ⟨fun _ hb' ↦ absurd hb' hb, fun _ ↦ rfl⟩
  · exact ⟨fun _ hb' ↦ absurd hb' hb, fun _ ↦ rfl⟩

theorem compareIfaceNfo_symm_iff {a b : IfaceNfo} (h : compareIfaceNfo a b = true) :
    compareIfaceNfo b a = true ↔ a.Covers b := by
  obtain ⟨hin, hout, hphysin, hphysout⟩ := compareIfaceNfo_iff.1 h
  rw [compareIfaceNfo_iff, compareIface_symm_iff hin, compareIface_symm_iff hout,
    compareIface_symm_iff hphysin, compareIface_symm_iff hphysout, IfaceNfo.Covers]

/-- **Keys that are found equal** are found equal the other way round if the second one names no
interface that the first one leaves out. -/
theorem compareAcls_symm_iff {a b : AclKey} (h : compareAcls a b = true) :
    compareAcls b a = true ↔ a.ifaceNfo.Covers b.ifaceNfo := by
  obtain ⟨htracking, happ, hsys, hrel, hver, hiface⟩ := compareAcls_iff.1 h
  rw [← compareIfaceNfo_symm_iff hiface, compareAcls_iff]
  exact ⟨fun h ↦ h.2.2.2.2.2, fun h ↦ ⟨trackingEqual_symm htracking, happ.symm, hsys.symm,
    hrel.symm, hver.symm, h⟩⟩

theorem AclKey.Produced.built {key : AclKey} (h : key.Produced)
    (hsupported : key.aclTracking.Supported) : key.Built := by
  obtain ⟨kdatas, hproduced, rfl⟩ := h
  exact ⟨kdatas, hproduced.canonical hsupported, rfl⟩

/-- **The keys of the ACL cache.** Of the things that a hash table asks of its keys, transitivity
and the agreement with the hash hold of all keys that parsed connections have. A key equals itself
if its protocol is known, and equality is symmetric if the second key names no interface that the
first one leaves out. -/
theorem acl_keys_proper_iff (order : ByteOrder) {a b c : AclKey} (ha : a.Produced)
    (hb : b.Produced) (hc : c.Produced) :
    (compareAcls a a = true ∧ (compareAcls a b = true → compareAcls b a = true) ∧
      (compareAcls a b = true → compareAcls b c = true → compareAcls a c = true) ∧
      (compareAcls a b = true → hashAcl order a = hashAcl order b)) ↔
    a.aclTracking.Supported ∧ (compareAcls a b = true → a.ifaceNfo.Covers b.ifaceNfo) := by
  have hbuilt {x y : AclKey} (hx : x.Produced) (h : compareAcls x y = true) : x.Built :=
    hx.built (supported_of_trackingEqual (compareAcls_iff.1 h).1)
  -- equal keys have equal protocols
  have hbuilt' {x y : AclKey} (hy : y.Produced) (h : compareAcls x y = true) : y.Built :=
    hy.built (supported_of_trackingEqual (trackingEqual_symm (compareAcls_iff.1 h).1))
  constructor
  · rintro ⟨hrefl, hsymm, -, -⟩
    refine ⟨supported_of_trackingEqual (compareAcls_iff.1 hrefl).1, fun h ↦ ?_⟩
    exact (compareAcls_symm_iff h).1 (hsymm h)
  · rintro ⟨hsupported, hcovers⟩
    refine ⟨compareAcls_refl (ha.built hsupported), fun h ↦ ?_, fun h h' ↦ ?_, fun h ↦ ?_⟩
    · exact (compareAcls_symm_iff h).2 (hcovers h)
    · exact compareAcls_trans (hbuilt ha h) (hbuilt hb h') (hbuilt' hc h') h h'
    · exact hashAcl_eq_of_compareAcls order (hbuilt ha h) (hbuilt' hb h) h

/-! ### Two gateways -/

/-- The request of a gateway for a TCP SYN, with the first character of the input interface. -/
def synAuthRequest (indev : UInt8) : Bytes :=
  [6, 1, 0, 120, 0, 0, 0, 1, 0, 0, 0, 1, 0, 0, 0, 0, indev] ++ List.replicate 63 0 ++ synDgram

/-- What `authpckt_decode` makes of the request. -/
def synDecoded (indev : UInt8) : Option Decoded :=
  authpcktDecode 1 Params.default (fun _ ↦ false) 0 (Memory.ofBytes (synAuthRequest indev)) 120

/-- The connection of the request. -/
def synConnection (indev : UInt8) : Connection :=
  ((synDecoded indev).bind fun d ↦ d.new.connection).getD Connection.zero

/-- What is made of a request that is accepted. -/
theorem produced_of_decoded {fuel : ℕ} {conf : Params} {localid : Tracking → Bool} {now : Int}
    {dgram : Memory} {dgramSize : ℕ}
    (h : (authpcktDecode fuel conf localid now dgram dgramSize).any (fun d ↦ d.new.ret = .ok ∧
      d.new.connection.isSome = true ∧ d.new.returned = true ∧ d.new.freed = 0) = true) :
    (((authpcktDecode fuel conf localid now dgram dgramSize).bind
      fun d ↦ d.new.connection).getD Connection.zero).tracking.Produced := by
  obtain ⟨d, hd, hproduces⟩ := Option.any_eq_true _ _ |>.1 h
  obtain ⟨hret, hsome, hreturned, hfreed⟩ := of_decide_eq_true hproduces
  obtain ⟨c, hc⟩ := Option.isSome_iff_exists.1 hsome
  rw [Option.mem_def.1 hd, Option.bind_some, hc, Option.getD_some]
  exact .nufw hd ⟨hret, hc, hreturned, hfreed⟩

theorem produced_of_synDecoded {indev : UInt8}
    (h : (synDecoded indev).any (fun d ↦ d.new.ret = .ok ∧ d.new.connection.isSome = true ∧
      d.new.returned = true ∧ d.new.freed = 0) = true) :
    (aclCreateAndAllocKey (synConnection indev)).Produced :=
  ⟨synConnection indev, produced_of_decoded h, rfl⟩

/-- Between the keys of one gateway everything is as it should be. -/
theorem acl_keys_proper_same_interface :
    let key := aclCreateAndAllocKey (synConnection 49)
    compareAcls key key = true ∧ (compareAcls key key = true → compareAcls key key = true) ∧
      (compareAcls key key = true → compareAcls key key = true → compareAcls key key = true) ∧
      (compareAcls key key = true → hashAcl .little key = hashAcl .little key) := by
  intro key
  have hkey : key.Produced := produced_of_synDecoded (by decide +kernel)
  have hsupported : key.aclTracking.Supported := by decide +kernel
  refine (acl_keys_proper_iff .little hkey hkey hkey).2 ⟨hsupported, fun _ ↦ ?_⟩
  exact ⟨id, id, id, id⟩

/-- **The comparison is not symmetric**: the key of a request without interfaces equals that of a
request that has come in by one, and not the other way round. -/
theorem acl_keys_not_symmetric :
    (aclCreateAndAllocKey (synConnection 0)).Produced ∧
      (aclCreateAndAllocKey (synConnection 49)).Produced ∧
      compareAcls (aclCreateAndAllocKey (synConnection 0))
        (aclCreateAndAllocKey (synConnection 49)) = true ∧
      compareAcls (aclCreateAndAllocKey (synConnection 49))
        (aclCreateAndAllocKey (synConnection 0)) = false :=
  ⟨produced_of_synDecoded (by decide +kernel), produced_of_synDecoded (by decide +kernel),
    by decide +kernel, by decide +kernel⟩

end Nufw
