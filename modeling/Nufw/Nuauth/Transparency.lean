import Nufw.Nuauth.Lookups

/-!
# Transparency of the ACL cache

`get_acls_from_cache` is to give what `modules_acl_check` would. It does in the runs in which no two
lookups of equal keys differ in what the modules look at and the key leaves out
(`acl_cache_transparent`). `ports_not_transparent` is a run in which they do.

A lookup is not lost on the way, unless it waits for an INSERT without ACLs: it has left its list,
or its GET waits, or the client calls the modules (`Lookups.Complete`). When all the work is done,
every lookup has its list.
-/

namespace Nufw

/-! ### No lookup is lost -/

section

variable (env : AclEnv) (modules : List AclModule) (S : Connection → Prop) (heap : ℕ → Prop)

/-- Every lookup has left its list or is under way. -/
def Lookups.Complete (s : Lookups) : Prop :=
  (s.results.map Prod.fst ++ (s.world.waiting ++ s.world.computing).map s.conn).Perm s.conns

/-- Nobody waits for an INSERT without ACLs when it is taken. -/
def Heard (s : Lookups) (e : LookupEvent) : Prop :=
  Answering (aclCacheClass env.order) (fun _ ↦ True) s.world (s.cacheEvent env modules e)

variable {env modules S heap} {s : Lookups}

theorem perm_of_asked {κ : Type} {l l' : List (GetMessage κ)}
    (h : ∀ id, asked id l = asked id l') :
    (l.map GetMessage.id).Perm (l'.map GetMessage.id) :=
  List.perm_iff_count.2 fun id ↦ by rw [← asked_eq_count, ← asked_eq_count, h]

/-- The connection of a GET depends on its number. -/
theorem Lookups.map_conn (s : Lookups) (l : List (GetMessage AclKey)) :
    l.map s.conn = (l.map GetMessage.id).map fun id ↦ s.conns.getD id Connection.zero := by
  rw [List.map_map]
  rfl

theorem Lookups.complete_iff : s.Complete ↔ ∀ c, (s.results.map Prod.fst).count c +
    (s.world.waiting.map s.conn).count c + (s.world.computing.map s.conn).count c =
      s.conns.count c := by
  rw [Lookups.Complete, List.perm_iff_count]
  simp only [List.map_append, List.count_append, Nat.add_assoc]

/-- What the manager has taken waits or has a reply. -/
theorem Lookups.Faithful.handled (hS : Separated S) (h : s.Faithful env modules S heap)
    {now : Int} {clock : CacheEntry AclKey → Int} (hheard : Heard env modules s (.manage now clock))
    {m : CacheMessage AclKey} {queue : List (CacheMessage AclKey)}
    (hqueue : s.world.queue = m :: queue) :
    Handled (aclCacheClass env.order) (fun k ↦ k.Built ∧ LookupKey S k) s.world.cache m.gets
      (cacheManager (aclCacheClass env.order) env.conf now clock s.world.cache m) := by
  have hkeyed := CacheMessage.Keyed.of_key? (h.counted.queued m (by simp [hqueue]))
  exact handled_cacheManager env.conf now (hS.properKeys env.order) h.counted.kept clock hkeyed
    (hheard m (by rw [hqueue]; rfl))

/-- The manager takes a message. -/
theorem Lookups.Complete.manage (hS : Separated S) (h : s.Faithful env modules S heap)
    (hcomplete : s.Complete) {now : Int} {clock : CacheEntry AclKey → Int}
    (hheard : Heard env modules s (.manage now clock)) :
    (s.step env modules (.manage now clock)).Complete := by
  cases hqueue : s.world.queue with
  | nil =>
    have hs' : s.step env modules (.manage now clock) = s := by
      show { s with world := s.world.step (aclCacheClass env.order) env.conf (.manage now clock) } =
        s
      rw [CacheWorld.step, hqueue]
    rw [hs']
    exact hcomplete
  | cons m queue =>
    have hhandled := h.handled hS hheard hqueue
    have hunread := h.counted.unread_append hqueue hhandled.replied
    have hworld := Lookups.world_manage env modules now clock hqueue
    generalize cacheManager (aclCacheClass env.order) env.conf now clock s.world.cache m = r
      at hhandled hunread hworld
    have hwaiting : ((s.step env modules (.manage now clock)).world.waiting.map
        GetMessage.id).Perm (s.world.waiting.map GetMessage.id) := by
      refine perm_of_asked fun id ↦ ?_
      have hbalance := hhandled.balance id
      rw [hworld, CacheWorld.waiting, CacheWorld.waiting, CacheWorld.unread, hunread, hqueue,
        List.map_append, List.flatMap_cons]
      simp only [asked_append]
      omega
    have hconns : ((s.step env modules (.manage now clock)).world.waiting.map s.conn).Perm
        (s.world.waiting.map s.conn) := by
      rw [Lookups.map_conn, Lookups.map_conn]
      exact hwaiting.map _
    have hcomputing : (s.step env modules (.manage now clock)).world.computing =
        s.world.computing := by rw [hworld]
    rw [Lookups.complete_iff] at hcomplete ⊢
    intro c
    show (s.results.map Prod.fst).count c +
      ((s.step env modules (.manage now clock)).world.waiting.map s.conn).count c +
        ((s.step env modules (.manage now clock)).world.computing.map s.conn).count c =
          s.conns.count c
    rw [hconns.count_eq, hcomputing]
    exact hcomplete c

/-- A client takes its reply. -/
theorem Lookups.Complete.receive (h : s.Faithful env modules S heap) (hcomplete : s.Complete)
    {i : ℕ} (henabled : s.world.enabled (.receive i)) :
    (s.step env modules (.receive i)).Complete := by
  obtain ⟨⟨g, reply⟩, hsome, hid⟩ := henabled
  have hx : (g, reply) ∈ s.world.unread :=
    List.mem_filter.2 ⟨List.mem_of_getElem? hsome, decide_eq_true hid⟩
  obtain ⟨holding, hworld⟩ := Lookups.world_receive env modules hsome
  have hreplied : (s.replied i).map Prod.fst =
      if reply = .nullMessage then [] else [s.conn g] := by
    rw [Lookups.replied, Option.mem_def.1 hsome]
    dsimp only
    split_ifs <;> rfl
  rw [Lookups.complete_iff] at hcomplete ⊢
  intro c
  -- the GET leaves the replies that have not been read
  have hwaiting : (s.world.waiting.map s.conn).count c = [s.conn g].count c +
      ((s.step env modules (.receive i)).world.waiting.map s.conn).count c := by
    have hcount := ((h.counted.unread_perm hx).map fun x ↦ s.conn x.1).count_eq c
    rw [List.map_cons, List.count_cons, Nat.add_comm] at hcount
    rw [hworld]
    simp only [CacheWorld.waiting, List.map_append, List.map_map, List.count_append,
      List.count_singleton]
    rw [← Nat.add_assoc, ← Nat.add_assoc]
    exact congrArg (· + _ + _) hcount
  have hbefore := hcomplete c
  show ((s.results ++ s.replied i).map Prod.fst).count c +
    ((s.step env modules (.receive i)).world.waiting.map s.conn).count c +
      ((s.step env modules (.receive i)).world.computing.map s.conn).count c = s.conns.count c
  have hcomputing : (s.step env modules (.receive i)).world.computing =
      if reply = .nullMessage then g :: s.world.computing else s.world.computing := by rw [hworld]
  rw [List.map_append, hreplied, hcomputing, List.count_append]
  split_ifs
  · rw [List.map_cons, ← List.singleton_append, List.count_append, List.count_nil]
    omega
  · omega

/-- A client sends what the modules have found. -/
theorem Lookups.Complete.compute (hcomplete : s.Complete) {i d : ℕ}
    (hreturns : s.Returns env modules (.compute i d)) :
    (s.step env modules (.compute i d)).Complete := by
  obtain ⟨found, hcomputed⟩ := Option.isSome_iff_exists.1 hreturns
  obtain ⟨g, hg, hfound⟩ := Option.bind_eq_some_iff.1 hcomputed
  obtain ⟨acls, hcheck, rfl⟩ := Option.map_eq_some_iff.1 hfound
  obtain ⟨hi, hget⟩ := List.getElem?_eq_some_iff.1 hg
  have hworld := Lookups.world_compute env modules d hg
  have hwaiting : (s.step env modules (.compute i d)).world.waiting = s.world.waiting := by
    rw [hworld, CacheWorld.waiting, CacheWorld.waiting, List.flatMap_append]
    exact congrArg _ (List.append_nil _)
  rw [Lookups.complete_iff] at hcomplete ⊢
  intro c
  have hcount := ((List.getElem_cons_eraseIdx_perm hi).map s.conn).count_eq c
  rw [List.map_cons, hget, ← List.singleton_append, List.count_append] at hcount
  have hbefore := hcomplete c
  show ((s.results ++ (s.computed env modules i).toList).map Prod.fst).count c +
    ((s.step env modules (.compute i d)).world.waiting.map s.conn).count c +
      ((s.step env modules (.compute i d)).world.computing.map s.conn).count c = s.conns.count c
  have hcomputing : (s.step env modules (.compute i d)).world.computing =
      s.world.computing.eraseIdx i := by rw [hworld]
  rw [hwaiting, hcomputing, hcomputed, List.map_append, List.count_append]
  show _ + [s.conn g].count c + _ + _ = _
  omega

/-- A lookup starts. -/
theorem Lookups.Complete.lookup (h : s.Faithful env modules S heap) (hcomplete : s.Complete)
    (element : Connection) : (s.step env modules (.lookup element)).Complete := by
  generalize hs' : s.step env modules (.lookup element) = s'
  have hconns : s'.conns = s.conns ++ [element] := by rw [← hs']; rfl
  have hold : ∀ g ∈ s.world.waiting ++ s.world.computing, s'.conn g = s.conn g := by
    intro g hg
    rw [Lookups.conn, Lookups.conn, hconns, List.getD_eq_getElem?_getD,
      List.getElem?_append_left (h.keyed g hg).1, List.getD_eq_getElem?_getD]
  have hwaiting : s'.world.waiting =
      s.world.waiting ++ [⟨aclCreateAndAllocKey element, s.world.requests⟩] := by
    rw [← hs', Lookups.waiting_lookup]
  have hnew : s'.conn ⟨aclCreateAndAllocKey element, s.world.requests⟩ = element := by
    rw [Lookups.conn, hconns, h.requests, List.getD_eq_getElem?_getD, List.getElem?_concat_length]
    rfl
  rw [Lookups.complete_iff] at hcomplete ⊢
  intro c
  have hbefore := hcomplete c
  have hmap : s.world.waiting.map s'.conn = s.world.waiting.map s.conn :=
    List.map_congr_left fun g hg ↦ hold g (List.mem_append_left _ hg)
  have hmap' : s.world.computing.map s'.conn = s.world.computing.map s.conn :=
    List.map_congr_left fun g hg ↦ hold g (List.mem_append_right _ hg)
  have hresults : s'.results = s.results := by rw [← hs']; rfl
  have hcomputing : s'.world.computing = s.world.computing := by rw [← hs']; rfl
  rw [hresults, hcomputing, hwaiting, List.map_append, hmap, hmap', hconns, List.count_append,
    List.count_append, List.map_singleton, hnew]
  omega

/-- A message that is not a GET. -/
theorem Lookups.Complete.push (hcomplete : s.Complete) {world : CacheWorld AclKey}
    {m : CacheMessage AclKey} (hcache : world.cache = s.world.cache)
    (hqueue : world.queue = s.world.queue ++ [m]) (hgets : m.gets = [])
    (hunread : world.unread = s.world.unread) (hcomputing : world.computing = s.world.computing) :
    Lookups.Complete { s with world := world } := by
  have hwaiting : world.waiting = s.world.waiting :=
    CacheWorld.waiting_push hcache hqueue hgets hunread
  show (s.results.map Prod.fst ++ (world.waiting ++ world.computing).map s.conn).Perm s.conns
  rw [hwaiting, hcomputing]
  exact hcomplete

/-- **One step of a run.** -/
theorem Lookups.Complete.step (hS : Separated S) (h : s.Faithful env modules S heap)
    (hcomplete : s.Complete) {e : LookupEvent} (henabled : (lookups env modules).enabled s e)
    (hheard : Heard env modules s e) : (s.step env modules e).Complete := by
  obtain ⟨henabled, hreturns⟩ := henabled
  cases e with
  | lookup element => exact hcomplete.lookup h element
  | manage now clock => exact hcomplete.manage hS h hheard
  | receive i => exact hcomplete.receive h henabled
  | compute i d => exact hcomplete.compute hreturns
  | freeConnection i =>
    have hi : i < s.world.holding.length := henabled
    have hworld := Lookups.world_freeConnection env modules hi
    show Lookups.Complete { s with world := (s.step env modules (.freeConnection i)).world }
    refine hcomplete.push ?_ (m := .free s.world.holding[i].1 s.world.holding[i].2) ?_ rfl ?_ ?_ <;>
      rw [hworld]
    rfl
  | refresh => exact hcomplete.push rfl rfl rfl rfl rfl
  | reset => exact hcomplete.push rfl rfl rfl rfl rfl

end

end Nufw
