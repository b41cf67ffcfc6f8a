import Nufw.Nuauth.Acls
import Nufw.Nuauth.CacheRun

/-!
# The ACL cache

The cache of `acls.c`, over the keys of connections. `compare_acls` looks at the interface names of
its first argument only, so that it is an equivalence on a set of keys just when it is symmetric
there; this is what a run has to guarantee, besides that nobody waits for an INSERT without ACLs.

The second condition fails when two lookups of a flow that no ACL matches overlap: the second one
is parked, and never hears of the result of the first (`unmatched_lookup_unanswered`).
-/

namespace Nufw

/-- `nuauthdatas->acl_cache`. -/
def aclCacheClass (order : ByteOrder) : CacheClass AclKey where
  hashKey := hashAcl order
  equalKey := compareAcls
  duplicateKey := aclDuplicateKey

/-- The ACL cache and its clients. -/
abbrev aclCacheMachine (order : ByteOrder) (conf : Params) :
    Machine (CacheWorld AclKey) (CacheEvent AclKey) :=
  cacheMachine (aclCacheClass order) conf AclKey.Built

theorem properKeys_aclCacheClass (order : ByteOrder) {K : AclKey → Prop}
    (hsymm : ∀ a b, K a → K b → compareAcls a b = true → compareAcls b a = true) :
    ProperKeys (aclCacheClass order) fun k ↦ k.Built ∧ K k where
  refl ha := compareAcls_refl ha.1
  symm ha hb := hsymm _ _ ha.2 hb.2
  trans ha hb hc := compareAcls_trans ha.1 hb.1 hc.1
  hash ha hb := hashAcl_eq_of_compareAcls order ha.1 hb.1
  duplicate ha := ha.1.duplicate

/-- **Every lookup is answered**: a GET that the manager has taken has exactly one reply once the
entry of its key is not refreshing, in every run that looks up keys among which `compare_acls` is
symmetric and in which no INSERT without ACLs is taken while a GET waits for it. -/
theorem acl_lookup_answered (order : ByteOrder) (conf : Params) {K : AclKey → Prop}
    (hsymm : ∀ a b, K a → K b → compareAcls a b = true → compareAcls b a = true)
    {w : CacheWorld AclKey}
    (h : (aclCacheMachine order conf).Reach (Answering (aclCacheClass order) K) w)
    {g : GetMessage AclKey} (hg : g ∈ w.taken)
    (hentry : ∀ e ∈ w.cache.hash.find? ((aclCacheClass order).holds g.key),
      e.refreshing = false) :
    w.replies.countP (fun d ↦ d.1.id = g.id) = 1 ∧ g ∉ w.cache.localQueue := by
  have hK := properKeys_aclCacheClass order hsymm
  exact (CacheWorld.sound_of_reach hK h).answered hK hg hentry

/-- A connection to a web server. -/
def Connection.web (source : UInt16) : Connection :=
  { Connection.zero with
    tracking := { Tracking.zero with protocol := ipprotoTcp, source := source, dest := 80 } }

theorem Connection.web_built (source : UInt16) : (aclCreateAndAllocKey (web source)).Built :=
  ⟨web source, Tracking.canonical_ports (t := { Tracking.zero with protocol := ipprotoTcp }) rfl
    (Or.inl rfl) source 80, rfl⟩

/-- Two lookups of one flow, the second before the first one has its ACLs. -/
def overlappingLookups (datas : Option ℕ) : List (CacheEvent AclKey) :=
  [.get (aclCreateAndAllocKey (Connection.web 1025)),
    .get (aclCreateAndAllocKey (Connection.web 1026)),
    .manage 0 fun _ ↦ 0, .manage 0 fun _ ↦ 0, .receive 0, .compute 0 datas, .manage 0 fun _ ↦ 0]

/-- The GET of the second lookup. -/
def secondLookup : GetMessage AclKey := ⟨aclCreateAndAllocKey (Connection.web 1026), 1⟩

/-- With ACLs, the second lookup has its reply when the INSERT of the first is taken. -/
theorem matched_lookup_answered :
    let w := (aclCacheMachine .little Params.default).run CacheWorld.start
      (overlappingLookups (some 5))
    (secondLookup ∈ w.taken ∧ w.replies.length = 2) ∧
      w.replies.countP (fun d ↦ d.1.id = secondLookup.id) = 1 ∧
        secondLookup ∉ w.cache.localQueue := by
  have hpath : (aclCacheMachine .little Params.default).Path
      (Answering (aclCacheClass .little) (· = secondLookup.key)) CacheWorld.start
      (overlappingLookups (some 5)) :=
    ⟨⟨trivial, Connection.web_built 1025⟩, rfl,
      ⟨trivial, Connection.web_built 1026⟩, rfl,
      ⟨by decide +kernel, trivial⟩, by decide +kernel,
      ⟨by decide +kernel, trivial⟩, by decide +kernel,
      ⟨by decide +kernel, trivial⟩, trivial, ⟨by decide +kernel, trivial⟩, trivial,
      ⟨by decide +kernel, trivial⟩, by decide +kernel, trivial⟩
  have hsymm : ∀ a b, a = secondLookup.key → b = secondLookup.key →
      compareAcls a b = true → compareAcls b a = true := by
    rintro _ _ rfl rfl h
    exact h
  intro w
  have hreach : (aclCacheMachine .little Params.default).Reach
      (Answering (aclCacheClass .little) (· = secondLookup.key)) w :=
    Machine.reach_run _ rfl _ hpath
  have htaken : secondLookup ∈ w.taken := by decide +kernel
  have hentry : ∀ e ∈ w.cache.hash.find? ((aclCacheClass .little).holds secondLookup.key),
      e.refreshing = false := by decide +kernel
  refine ⟨⟨htaken, by decide +kernel⟩, ?_⟩
  exact acl_lookup_answered .little Params.default hsymm hreach htaken hentry

/-- **Without ACLs, the second lookup has no reply**, and none is to come: the entry is not
refreshing, and the message has left the queue. -/
theorem unmatched_lookup_unanswered :
    let w := (aclCacheMachine .little Params.default).run CacheWorld.start
      (overlappingLookups none)
    (aclCacheMachine .little Params.default).Reachable w ∧ secondLookup ∈ w.taken ∧
      (∀ e ∈ w.cache.hash.find? ((aclCacheClass .little).holds secondLookup.key),
        e.refreshing = false) ∧
      w.replies.countP (fun d ↦ d.1.id = secondLookup.id) = 0 ∧
        secondLookup ∉ w.cache.localQueue := by
  have hpath : (aclCacheMachine .little Params.default).Path (fun _ _ ↦ True) CacheWorld.start
      (overlappingLookups none) :=
    ⟨⟨trivial, Connection.web_built 1025⟩, trivial,
      ⟨trivial, Connection.web_built 1026⟩, trivial,
      ⟨by decide +kernel, trivial⟩, trivial, ⟨by decide +kernel, trivial⟩, trivial,
      ⟨by decide +kernel, trivial⟩, trivial, ⟨by decide +kernel, trivial⟩, trivial,
      ⟨by decide +kernel, trivial⟩, trivial, trivial⟩
  intro w
  exact ⟨(aclCacheMachine .little Params.default).reach_run rfl _ hpath, by decide +kernel,
    by decide +kernel, by decide +kernel, by decide +kernel⟩

/-- A connection to the web server that has come in by an interface. -/
def Connection.webBy (indev : UInt8) : Connection :=
  { web 1025 with ifaceNfo := { IfaceNfo.zero with indev := IfaceNfo.zero.indev.set 0 indev } }

-- The entry of a gateway that gives no interfaces stands for those of the others. When it is old,
-- the lookup for a second interface waits for the INSERT of the first, whose key is not its own.
example :
    let clock : CacheEntry AclKey → Int := fun _ ↦ 0
    let w := (aclCacheMachine .little Params.default).run CacheWorld.start
      [.get (aclCreateAndAllocKey (Connection.web 1025)), .manage 0 clock, .receive 0,
        .compute 0 (some 5), .manage 0 clock, .get (aclCreateAndAllocKey (Connection.webBy 49)),
        .get (aclCreateAndAllocKey (Connection.webBy 50)), .manage 100 clock, .manage 100 clock,
        .receive 1, .compute 0 (some 6), .manage 100 clock]
    w.cache.hash.map CacheEntry.refreshing = [false] ∧
      w.cache.localQueue.map GetMessage.id = [2] := by
  decide +kernel

end Nufw
