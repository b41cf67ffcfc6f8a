import Nufw.Nuauth.AclCheck
import Nufw.Nuauth.CacheSafety

/-!
# Lookups of the ACL cache

The datas of the cache are pointers to lists of ACLs. `Lookups` adds to the machine of the cache the
connections that are looked up, the lists, and what `get_acls_from_cache` leaves in `acl_groups`.

A property `P key datas` of datas under a key, which equal keys share, goes from an INSERT to the
entry and from there to the replies (`Answered`). Here it says that the list is the one of every
connection with that key (`Right`). It holds of an INSERT when connections of equal keys get equal
lists, which the modules do not promise for connections that differ in what the key leaves out
(`SameCriteria`); `Separated` is about the sets of connections in which no two differ so.
-/

namespace Nufw

variable {κ : Type}

/-! ### What the manager hands out -/

/-- The datas of a reply. -/
def CacheReply.datas? : CacheReply → Option ℕ
  | .nullMessage => none
  | .nullQueueDatas => none
  | .datas d => some d

/-- The datas of every content have the property under the key of the entry, and those of every
reply under the key of the GET. -/
structure Answered (P : κ → Option ℕ → Prop) (hash : List (CacheEntry κ))
    (replies : List (Delivery κ)) : Prop where
  stored : ∀ e ∈ hash, ∀ c ∈ e.datas, P e.key c.datas
  replied : ∀ x ∈ replies, x.2 ≠ .nullMessage → P x.1.key x.2.datas?

/-- Keys that are equal share the property. -/
def SharedByKeys (this : CacheClass κ) (K : κ → Prop) (P : κ → Option ℕ → Prop) : Prop :=
  ∀ a b datas, K a → K b → this.equalKey a b = true → P a datas → P b datas

/-- A FREE leaves contents that were there. -/
theorem forall_datas_cacheMessageDestroy {Q : Option ℕ → Prop} {l : List CacheEntryContent} (d : ℕ)
    (h : ∀ c ∈ l, Q c.datas) : ∀ c ∈ (cacheMessageDestroy d l).1, Q c.datas := by
  cases l with
  | nil => exact h
  | cons content list =>
    rw [List.forall_mem_cons] at h
    rw [cacheMessageDestroy]
    split_ifs
    · exact List.forall_mem_cons.2 ⟨h.1, h.2⟩
    · split
      · exact List.forall_mem_cons.2 h
      · rename_i found hsome
        obtain ⟨l₁, l₂, rfl, hfound, hfirst⟩ := exists_split_of_find? hsome
        split_ifs
        · rw [updateFirst_split hfirst hfound]
          refine List.forall_mem_cons.2 ⟨h.1, ?_⟩
          exact forall_mem_replace rfl h.2 (h.2 found (by simp))
        · rw [eraseP_split hfirst hfound]
          exact List.forall_mem_cons.2 ⟨h.1, fun c hc ↦ h.2 c (mem_of_split rfl hc)⟩

section

variable {this : CacheClass κ} {K : κ → Prop} {cache : Cache κ} (hK : ProperKeys this K)
  (h : cache.Kept this K) {P : κ → Option ℕ → Prop}
  (hP : SharedByKeys this K P)
  (hstored : ∀ e ∈ cache.hash, ∀ c ∈ e.datas, P e.key c.datas)

include hK h hP hstored

/-- A GET is answered from the entry of its key. -/
theorem answered_cacheGet (now : Int) {g : GetMessage κ} (hg : K g.key) {entry : CacheEntry κ}
    (hsome : cache.hash.find? (this.holds g.key) = some entry) :
    Answered P (cacheGet this now entry g cache).1.hash (cacheGet this now entry g cache).2 := by
  obtain ⟨l₁, l₂, hl, hholds, hfirst⟩ := exists_split_of_find? hsome
  have hentry : K entry.key := h.keys entry (by simp [hl])
  have hequal := (hK.holds_iff hg hentry).1 hholds
  have hdatas := hstored entry (by simp [hl])
  have hupdate (e : CacheEntry κ) :
      updateFirst (this.holds g.key) (fun _ ↦ e) cache.hash = l₁ ++ e :: l₂ := by
    rw [hl, updateFirst_split hfirst hholds]
  rw [cacheGet]
  simp only [hupdate]
  split_ifs
  · exact ⟨hstored, fun x hx ↦ absurd hx List.not_mem_nil⟩
  · refine ⟨forall_mem_replace hl hstored fun c hc ↦ hdatas c (List.mem_filter.1 hc).1, ?_⟩
    intro x hx hne
    exact absurd (congrArg Prod.snd (List.mem_singleton.1 hx)) hne
  · split
    · exact ⟨hstored, fun x hx ↦ absurd hx List.not_mem_nil⟩
    · rename_i item list hlist
      rw [hlist, List.forall_mem_cons] at hdatas
      refine ⟨forall_mem_replace hl hstored (List.forall_mem_cons.2 ⟨hdatas.1, hdatas.2⟩), ?_⟩
      intro x hx hne
      obtain rfl := List.mem_singleton.1 hx
      -- the reply is the encoding of the most recent datas
      have hitem : P g.key item.datas := hP _ _ _ hentry hg hequal hdatas.1
      dsimp only
      generalize item.datas = datas at hitem ⊢
      cases datas with
      | none => exact hitem
      | some d => exact hitem

/-- An INSERT is stored under the key of the entry, and given to those who wait for it. -/
theorem answered_cacheRefresh (conf : Params) (now : Int) {key : κ} (hkey : K key)
    {datas : Option ℕ} (hinsert : P key datas) {entry : CacheEntry κ}
    (hsome : cache.hash.find? (this.holds key) = some entry) :
    Answered P (cacheRefresh this conf now entry key datas cache).1.hash
      (cacheRefresh this conf now entry key datas cache).2 := by
  obtain ⟨l₁, l₂, hl, hholds, hfirst⟩ := exists_split_of_find? hsome
  have hentry : K entry.key := h.keys entry (by simp [hl])
  have hequal := hK.symm hentry hkey ((hK.holds_iff hkey hentry).1 hholds)
  constructor
  · rw [cacheRefresh]
    dsimp only
    rw [hl, updateFirst_split hfirst hholds]
    refine forall_mem_replace hl hstored (List.forall_mem_cons.2 ⟨?_, hstored entry (by simp [hl])⟩)
    exact hP _ _ _ hkey hentry hequal hinsert
  · intro x hx _
    obtain ⟨g, hg, hx⟩ := List.mem_flatMap.1 hx
    obtain ⟨hg, hwaits⟩ := List.mem_filter.1 hg
    rw [pushDatas, Option.mem_toList, Option.map_eq_some_iff] at hx
    obtain ⟨d, rfl, rfl⟩ := hx
    exact hP _ _ _ hkey (h.waiting g hg) hwaits hinsert

/-- **One turn of the manager** hands out what has been brought for equal keys. -/
theorem answered_cacheManager (conf : Params) (now : Int) (clock : CacheEntry κ → Int)
    {message : CacheMessage κ} (hkeyed : message.Keyed K)
    (hinsert : ∀ key datas, message = .insert key datas → P key datas) :
    Answered P (cacheManager this conf now clock cache message).1.hash
      (cacheManager this conf now clock cache message).2 := by
  have hquiet : ∀ {hash : List (CacheEntry κ)}, (∀ e ∈ hash, ∀ c ∈ e.datas, P e.key c.datas) →
      Answered P hash [] := fun hhash ↦ ⟨hhash, fun x hx ↦ absurd hx List.not_mem_nil⟩
  cases message with
  | get g =>
    rw [cacheManager]
    split
    · refine ⟨List.forall_mem_cons.2 ⟨fun c hc ↦ absurd hc List.not_mem_nil, hstored⟩, ?_⟩
      intro x hx hne
      exact absurd (congrArg Prod.snd (List.mem_singleton.1 hx)) hne
    · exact answered_cacheGet hK h hP hstored now hkeyed ‹_›
  | insert key datas =>
    rw [cacheManager]
    split
    · exact hquiet hstored
    · split_ifs
      · exact answered_cacheRefresh hK h hP hstored conf now hkeyed (hinsert key datas rfl) ‹_›
      · exact hquiet hstored
  | free key d =>
    rw [cacheManager]
    split
    · exact hquiet hstored
    · rename_i entry hsome
      obtain ⟨l₁, l₂, hl, hholds, hfirst⟩ := exists_split_of_find? hsome
      refine hquiet ?_
      dsimp only
      rw [hl, updateFirst_split hfirst hholds]
      refine forall_mem_replace hl hstored ?_
      exact forall_datas_cacheMessageDestroy d (hstored entry (by simp [hl]))
  | refresh => exact hquiet fun e he ↦ hstored e (List.mem_filter.1 he).1
  | reset => exact hquiet (List.forall_mem_map.2 hstored)

end

/-- Who waits has been waiting, or has just asked. -/
theorem mem_localQueue_cacheManager (this : CacheClass κ) {cache : Cache κ} (conf : Params)
    (now : Int) (clock : CacheEntry κ → Int) {message : CacheMessage κ} {g : GetMessage κ}
    (hg : g ∈ (cacheManager this conf now clock cache message).1.localQueue) :
    g ∈ cache.localQueue ++ message.gets := by
  cases message with
  | get g' =>
    rw [cacheManager] at hg
    split at hg
    · exact List.mem_append_left _ hg
    · rw [cacheGet] at hg
      split_ifs at hg
      · exact hg
      · exact List.mem_append_left _ hg
      · split at hg <;> exact List.mem_append_left _ hg
  | insert key datas =>
    rw [cacheManager] at hg
    split at hg
    · exact List.mem_append_left _ hg
    · split_ifs at hg
      · exact List.mem_append_left _ (List.mem_filter.1 hg).1
      · exact List.mem_append_left _ hg
  | free key d =>
    rw [cacheManager] at hg
    split at hg <;> exact List.mem_append_left _ hg
  | refresh | reset => exact List.mem_append_left _ hg

/-! ### Lookups -/

/-- The ACL cache with what it is about. -/
structure Lookups where
  world : CacheWorld AclKey
  /-- The connections of the GETs, by number. -/
  conns : List Connection
  /-- The lists that the datas point to. -/
  lists : ℕ → List AclGroup
  /-- What `get_acls_from_cache` has left in `acl_groups`. -/
  results : List (Connection × List AclGroup)

/-- What can happen to the ACL cache. -/
inductive LookupEvent where
  /-- `get_acls_from_cache` is called. -/
  | lookup (element : Connection)
  | manage (now : Int) (clock : CacheEntry AclKey → Int)
  | receive (i : ℕ)
  /-- `modules_acl_check` is called; if it finds ACLs, the list is allocated at `d`. -/
  | compute (i d : ℕ)
  | freeConnection (i : ℕ)
  | refresh
  | reset

/-- The list of some datas. -/
def listOf (lists : ℕ → List AclGroup) : Option ℕ → List AclGroup
  | none => []
  | some d => lists d

section

variable (env : AclEnv) (modules : List AclModule)

/-- The connection of a GET. -/
def Lookups.conn (s : Lookups) (g : GetMessage AclKey) : Connection :=
  s.conns.getD g.id Connection.zero

/-- What `modules_acl_check` gives to a client that has been told to look for itself. -/
def Lookups.computed (s : Lookups) (i : ℕ) : Option (Connection × List AclGroup) :=
  s.world.computing[i]?.bind fun g ↦
    (modulesAclCheck env (s.conn g) modules).map fun acls ↦ (s.conn g, acls)

/-- What a client finds in the reply it takes. -/
def Lookups.replied (s : Lookups) (i : ℕ) : List (Connection × List AclGroup) :=
  match s.world.replies[i]? with
  | some (g, reply) =>
    if reply = .nullMessage then [] else [(s.conn g, listOf s.lists reply.datas?)]
  | none => []

/-- The datas of the INSERT. -/
def Lookups.inserted (s : Lookups) (i d : ℕ) : Option ℕ :=
  match s.computed env modules i with
  | some (_, _ :: _) => some d
  | _ => none

/-- What the event is for the cache. -/
def Lookups.cacheEvent (s : Lookups) : LookupEvent → CacheEvent AclKey
  | .lookup element => .get (aclCreateAndAllocKey element)
  | .manage now clock => .manage now clock
  | .receive i => .receive i
  | .compute i d => .compute i (s.inserted env modules i d)
  | .freeConnection i => .freeConnection i
  | .refresh => .refresh
  | .reset => .reset

/-- What the event does. -/
def Lookups.step (s : Lookups) (e : LookupEvent) : Lookups :=
  let world := s.world.step (aclCacheClass env.order) env.conf (s.cacheEvent env modules e)
  match e with
  | .lookup element => { s with world := world, conns := s.conns ++ [element] }
  | .receive i => { s with world := world, results := s.results ++ s.replied i }
  | .compute i d =>
    { s with
      world := world
      lists := fun p ↦
        match s.computed env modules i with
        | some (_, acl :: acls) => if p = d then acl :: acls else s.lists p
        | _ => s.lists p
      results := s.results ++ (s.computed env modules i).toList }
  | _ => { s with world := world }

/-- Nothing has been looked up yet. -/
def Lookups.start : Lookups := ⟨CacheWorld.start, [], fun _ ↦ [], []⟩

/-- The connections are those that the parsers produce, and the modules return. -/
def Lookups.Returns (s : Lookups) : LookupEvent → Prop
  | .lookup element => element.tracking.Produced
  | .compute i _ => (s.computed env modules i).isSome = true
  | _ => True

/-- **The lookups of a server**, with unchanged ACLs. -/
def lookups : Machine Lookups LookupEvent where
  init s := s = Lookups.start
  enabled s e := s.world.enabled (s.cacheEvent env modules e) ∧ s.Returns env modules e
  step := Lookups.step env modules

end

/-! ### What the events do to the cache -/

section

variable (env : AclEnv) (modules : List AclModule) {s : Lookups}

theorem Lookups.world_manage (now : Int) (clock : CacheEntry AclKey → Int)
    {m : CacheMessage AclKey} {queue : List (CacheMessage AclKey)}
    (hqueue : s.world.queue = m :: queue) :
    (s.step env modules (.manage now clock)).world =
      let r := cacheManager (aclCacheClass env.order) env.conf now clock s.world.cache m
      { s.world with
        cache := r.1
        queue := queue
        replies := s.world.replies ++ r.2
        taken := s.world.taken ++ m.gets } := by
  show s.world.step (aclCacheClass env.order) env.conf (.manage now clock) = _
  rw [CacheWorld.step, hqueue]

theorem Lookups.world_receive {i : ℕ} {g : GetMessage AclKey} {reply : CacheReply}
    (hsome : s.world.replies[i]? = some (g, reply)) :
    ∃ holding, (s.step env modules (.receive i)).world =
      { s.world with
        received := g.id :: s.world.received
        computing := if reply = .nullMessage then g :: s.world.computing else s.world.computing
        holding := holding } := by
  show ∃ holding, s.world.step (aclCacheClass env.order) env.conf (.receive i) = _
  rw [CacheWorld.step, hsome]
  cases reply with
  | nullMessage | nullQueueDatas | datas d => exact ⟨_, rfl⟩

theorem Lookups.world_compute (d : ℕ) {i : ℕ} {g : GetMessage AclKey}
    (hg : s.world.computing[i]? = some g) :
    (s.step env modules (.compute i d)).world =
      { s.world with
        queue := s.world.queue ++ [.insert g.key (s.inserted env modules i d)]
        computing := s.world.computing.eraseIdx i
        holding := (s.inserted env modules i d).toList.map (fun d ↦ (g.key, d)) ++
          s.world.holding } := by
  show s.world.step (aclCacheClass env.order) env.conf (.compute i _) = _
  rw [CacheWorld.step, hg]

theorem Lookups.world_freeConnection {i : ℕ} (hi : i < s.world.holding.length) :
    (s.step env modules (.freeConnection i)).world =
      { s.world with
        queue := s.world.queue ++ [.free s.world.holding[i].1 s.world.holding[i].2]
        holding := s.world.holding.eraseIdx i } := by
  show s.world.step (aclCacheClass env.order) env.conf (.freeConnection i) = _
  rw [CacheWorld.step, List.getElem?_eq_getElem hi]

theorem Lookups.waiting_lookup (element : Connection) :
    (s.step env modules (.lookup element)).world.waiting =
      s.world.waiting ++ [⟨aclCreateAndAllocKey element, s.world.requests⟩] := by
  show s.world.unread.map Prod.fst ++ s.world.cache.localQueue ++
    (s.world.queue ++ [_]).flatMap CacheMessage.gets = _
  rw [List.flatMap_append, ← List.append_assoc]
  rfl

end

/-- A message that is not a GET. -/
theorem CacheWorld.waiting_push {w w' : CacheWorld κ} {m : CacheMessage κ}
    (hcache : w'.cache = w.cache) (hqueue : w'.queue = w.queue ++ [m]) (hgets : m.gets = [])
    (hunread : w'.unread = w.unread) : w'.waiting = w.waiting := by
  rw [CacheWorld.waiting, CacheWorld.waiting, hunread, hcache, hqueue, List.flatMap_append]
  simp [hgets]

/-! ### Connections that their keys tell apart -/

/-- **No two connections of the set have equal keys and differ in what the modules look at.** -/
structure Separated (S : Connection → Prop) : Prop where
  supported : ∀ c, S c → c.tracking.Supported
  same : ∀ c c', S c → S c' →
    compareAcls (aclCreateAndAllocKey c) (aclCreateAndAllocKey c') = true → SameCriteria c c'

/-- The key is that of a connection of the set. -/
def LookupKey (S : Connection → Prop) (key : AclKey) : Prop :=
  ∃ c, S c ∧ c.tracking.Canonical ∧ aclCreateAndAllocKey c = key

theorem covers_of_names {a b : IfaceNfo} (h : a.names = b.names) : a.Covers b := by
  simp only [IfaceNfo.names, Prod.mk.injEq] at h
  obtain ⟨hin, hphysin, hout, hphysout⟩ := h
  have hset : ∀ {x y : Vector UInt8 16}, ifaceChars x = ifaceChars y → y.get 0 ≠ 0 →
      x.get 0 ≠ 0 := by
    intro x y hxy hy hx
    rw [← ifaceChars_eq_nil_iff, hxy, ifaceChars_eq_nil_iff] at hx
    exact hy hx
  exact ⟨hset hin, hset hout, hset hphysin, hset hphysout⟩

/-- Such a set has keys that are what a hash table expects. -/
theorem Separated.properKeys {S : Connection → Prop} (hS : Separated S) (order : ByteOrder) :
    ProperKeys (aclCacheClass order) fun k ↦ k.Built ∧ LookupKey S k := by
  refine properKeys_aclCacheClass order ?_
  rintro _ _ ⟨c, hc, -, rfl⟩ ⟨c', hc', -, rfl⟩ h
  exact (compareAcls_symm_iff h).2 (covers_of_names (hS.same c c' hc hc' h).names)

/-! ### Right datas -/

section

variable (env : AclEnv) (modules : List AclModule) (S : Connection → Prop) (heap : ℕ → Prop)

/-- The list is the one that the modules give to every connection of the set with that key. -/
def Right (lists : ℕ → List AclGroup) (key : AclKey) (datas : Option ℕ) : Prop :=
  ∀ c, S c → c.tracking.Canonical → compareAcls key (aclCreateAndAllocKey c) = true →
    modulesAclCheck env c modules = some (listOf lists datas)

/-- **The invariant of the lookups.** -/
structure Lookups.Faithful (s : Lookups) : Prop where
  counted : s.world.Counted (aclCacheClass env.order) (fun k ↦ k.Built ∧ LookupKey S k) heap
  requests : s.world.requests = s.conns.length
  looked : ∀ c ∈ s.conns, S c ∧ c.tracking.Canonical
  keyed : ∀ g ∈ s.world.waiting ++ s.world.computing,
    g.id < s.conns.length ∧ aclCreateAndAllocKey (s.conn g) = g.key
  answered : Answered (Right env modules S s.lists) s.world.cache.hash s.world.unread
  inserts : ∀ key datas, .insert key datas ∈ s.world.queue → Right env modules S s.lists key datas
  results : ∀ r ∈ s.results, modulesAclCheck env r.1 modules = some r.2

/-- The clients look up connections of the set, and the modules allocate what they return. -/
def LooksUp (s : Lookups) (e : LookupEvent) : Prop :=
  (∀ element, e = .lookup element → S element) ∧ Allocates heap s.world (s.cacheEvent env modules e)

variable {env modules S heap} {s : Lookups}

theorem sharedByKeys_right (order : ByteOrder) (lists : ℕ → List AclGroup) :
    SharedByKeys (aclCacheClass order) (fun k ↦ k.Built ∧ LookupKey S k)
      (Right env modules S lists) := by
  intro a b datas ha hb hab hright c hc hcanonical hequal
  refine hright c hc hcanonical ?_
  exact compareAcls_trans ha.1 hb.1 ⟨c, hcanonical, rfl⟩ hab hequal

/-- Lists that are not touched are what they were. -/
theorem Right.congr {lists lists' : ℕ → List AclGroup} {key : AclKey} {datas : Option ℕ}
    (h : Right env modules S lists key datas) (hlists : ∀ d ∈ datas, lists' d = lists d) :
    Right env modules S lists' key datas := by
  intro c hc hcanonical hequal
  rw [h c hc hcanonical hequal]
  cases datas with
  | none => rfl
  | some d => exact congrArg some (hlists d rfl).symm

/-- What the modules give to one connection is right for its key. -/
theorem Separated.right (hS : Separated S) {c : Connection} (hc : S c)
    (hcanonical : c.tracking.Canonical) {lists : ℕ → List AclGroup} {datas : Option ℕ}
    (h : modulesAclCheck env c modules = some (listOf lists datas)) :
    Right env modules S lists (aclCreateAndAllocKey c) datas := by
  intro c' hc' hcanonical' hequal
  have hkey := sameKey_of_compareAcls hcanonical hcanonical' hequal
  rw [← h]
  exact (hkey.modulesAclCheck_eq (hS.same c c' hc hc' hequal) env modules).symm

/-- The connection of a GET is one that has been looked up. -/
theorem Lookups.Faithful.conn (h : s.Faithful env modules S heap) {g : GetMessage AclKey}
    (hg : g ∈ s.world.waiting ++ s.world.computing) :
    S (s.conn g) ∧ (s.conn g).tracking.Canonical := by
  have hlt := (h.keyed g hg).1
  refine h.looked _ ?_
  rw [Lookups.conn, List.getD_eq_getElem?_getD, List.getElem?_eq_getElem hlt]
  exact List.getElem_mem hlt

/-- New connections do not change those of earlier GETs. -/
theorem Lookups.Faithful.frame (h : s.Faithful env modules S heap) {s' : Lookups}
    (new : List Connection)
    (hcounted : s'.world.Counted (aclCacheClass env.order) (fun k ↦ k.Built ∧ LookupKey S k) heap)
    (hrequests : s'.world.requests = s'.conns.length) (hconns : s'.conns = s.conns ++ new)
    (hnew : ∀ c ∈ new, S c ∧ c.tracking.Canonical)
    (hkeyed : ∀ g ∈ s'.world.waiting ++ s'.world.computing,
      g ∈ s.world.waiting ++ s.world.computing ∨
        (g.id < s'.conns.length ∧ aclCreateAndAllocKey (s'.conn g) = g.key))
    (hanswered : Answered (Right env modules S s'.lists) s'.world.cache.hash s'.world.unread)
    (hinserts : ∀ key datas, .insert key datas ∈ s'.world.queue →
      Right env modules S s'.lists key datas)
    (hresults : ∀ r ∈ s'.results, r ∈ s.results ∨ modulesAclCheck env r.1 modules = some r.2) :
    s'.Faithful env modules S heap where
  counted := hcounted
  requests := hrequests
  looked := by
    rw [hconns, List.forall_mem_append]
    exact ⟨h.looked, hnew⟩
  keyed g hg := by
    obtain hg | hg := hkeyed g hg
    · obtain ⟨hlt, hkey⟩ := h.keyed g hg
      have hconn : s'.conn g = s.conn g := by
        rw [Lookups.conn, Lookups.conn, hconns, List.getD_eq_getElem?_getD,
          List.getElem?_append_left hlt, List.getD_eq_getElem?_getD]
      rw [hconn, hconns, List.length_append]
      exact ⟨Nat.lt_add_right _ hlt, hkey⟩
    · exact hg
  answered := hanswered
  inserts := hinserts
  results r hr := (hresults r hr).elim (h.results r) id

/-- A message that is not an INSERT. -/
theorem Lookups.Faithful.push (h : s.Faithful env modules S heap) {world : CacheWorld AclKey}
    {m : CacheMessage AclKey}
    (hcounted : world.Counted (aclCacheClass env.order) (fun k ↦ k.Built ∧ LookupKey S k) heap)
    (hrequests : world.requests = s.world.requests) (hcache : world.cache = s.world.cache)
    (hqueue : world.queue = s.world.queue ++ [m]) (hgets : m.gets = [])
    (hm : ∀ key datas, m ≠ .insert key datas) (hunread : world.unread = s.world.unread)
    (hcomputing : world.computing = s.world.computing) :
    Lookups.Faithful env modules S heap { s with world := world } := by
  have hwaiting : world.waiting = s.world.waiting :=
    CacheWorld.waiting_push hcache hqueue hgets hunread
  refine h.frame [] hcounted (hrequests.trans h.requests) (List.append_nil _).symm (by simp)
    (fun g hg ↦ Or.inl ?_) ?_ ?_ fun r hr ↦ Or.inl hr
  · rwa [← hwaiting, ← hcomputing]
  · show Answered _ world.cache.hash world.unread
    rw [hcache, hunread]
    exact h.answered
  · intro key datas hinsert
    rw [show CacheMessage.insert key datas ∈ world.queue ↔ _ from by rw [hqueue],
      List.mem_append, List.mem_singleton] at hinsert
    exact hinsert.elim (h.inserts key datas) fun heq ↦ absurd heq.symm (hm key datas)

/-- **A lookup starts.** -/
theorem Lookups.Faithful.lookup (h : s.Faithful env modules S heap) {element : Connection}
    (hcounted : (s.step env modules (.lookup element)).world.Counted (aclCacheClass env.order)
      (fun k ↦ k.Built ∧ LookupKey S k) heap)
    (helement : S element) (hcanonical : element.tracking.Canonical) :
    (s.step env modules (.lookup element)).Faithful env modules S heap := by
  refine h.frame [element] hcounted ?_ rfl (by simp [helement, hcanonical]) (fun g hg ↦ ?_)
    h.answered (fun key datas hinsert ↦ ?_) fun r hr ↦ Or.inl hr
  · show s.world.requests + 1 = (s.conns ++ [element]).length
    rw [h.requests, List.length_append, List.length_singleton]
  · -- the new GET has the number of the new connection
    rw [Lookups.waiting_lookup, List.append_assoc, List.mem_append, List.mem_append,
      List.mem_singleton] at hg
    obtain hg | rfl | hg := hg
    · exact Or.inl (List.mem_append_left _ hg)
    · refine Or.inr ⟨?_, ?_⟩
      · show s.world.requests < (s.conns ++ [element]).length
        rw [h.requests, List.length_append]
        exact Nat.lt_succ_self _
      · show aclCreateAndAllocKey ((s.conns ++ [element]).getD s.world.requests _) = _
        rw [h.requests, List.getD_eq_getElem?_getD, List.getElem?_concat_length]
        rfl
    · exact Or.inl (List.mem_append_right _ hg)
  · obtain hinsert | hinsert := List.mem_append.1 hinsert
    · exact h.inserts key datas hinsert
    · cases List.mem_singleton.1 hinsert

/-- **A client takes its reply.** -/
theorem Lookups.Faithful.receive (h : s.Faithful env modules S heap) {i : ℕ}
    (hcounted : (s.step env modules (.receive i)).world.Counted (aclCacheClass env.order)
      (fun k ↦ k.Built ∧ LookupKey S k) heap)
    (henabled : s.world.enabled (.receive i)) :
    (s.step env modules (.receive i)).Faithful env modules S heap := by
  obtain ⟨⟨g, reply⟩, hsome, hid⟩ := henabled
  have hx : (g, reply) ∈ s.world.unread :=
    List.mem_filter.2 ⟨List.mem_of_getElem? hsome, decide_eq_true hid⟩
  have hg : g ∈ s.world.waiting ++ s.world.computing := by
    refine List.mem_append_left _ (List.mem_append_left _ (List.mem_append_left _ ?_))
    exact List.mem_map_of_mem hx
  -- the replies that are left were there before
  have hperm := h.counted.unread_perm hx
  obtain ⟨holding, hworld⟩ := Lookups.world_receive env modules hsome
  generalize hcomputing : (if reply = .nullMessage then g :: s.world.computing
    else s.world.computing) = computing at hworld
  have hcomputing : ∀ g' ∈ computing, g' ∈ s.world.computing ∨ g' = g := by
    intro g' hg'
    rw [← hcomputing] at hg'
    split_ifs at hg'
    · exact (List.mem_cons.1 hg').symm
    · exact Or.inl hg'
  have hs' : s.step env modules (.receive i) =
      { s with
        world := { s.world with
          received := g.id :: s.world.received
          computing := computing
          holding := holding }
        results := s.results ++ s.replied i } := by
    rw [← hworld]
    rfl
  rw [hs'] at hcounted ⊢
  have hunread : ∀ y ∈ CacheWorld.unread { s.world with received := g.id :: s.world.received },
      y ∈ s.world.unread := fun y hy ↦ hperm.mem_iff.2 (List.mem_cons_of_mem _ hy)
  refine h.frame [] hcounted h.requests (List.append_nil _).symm (by simp) (fun g' hg' ↦ Or.inl ?_)
    ⟨h.answered.stored, fun y hy ↦ h.answered.replied y (hunread y hy)⟩ h.inserts fun r hr ↦ ?_
  · obtain hg' | hg' := List.mem_append.1 hg'
    · refine List.mem_append_left _ ?_
      obtain hg' | hg' := List.mem_append.1 hg'
      · obtain hg' | hg' := List.mem_append.1 hg'
        · obtain ⟨y, hy, rfl⟩ := List.mem_map.1 hg'
          refine List.mem_append_left _ (List.mem_append_left _ ?_)
          exact List.mem_map_of_mem (hunread y hy)
        · exact List.mem_append_left _ (List.mem_append_right _ hg')
      · exact List.mem_append_right _ hg'
    · obtain hg' | rfl := hcomputing g' hg'
      · exact List.mem_append_right _ hg'
      · exact hg
  · obtain hr | hr := List.mem_append.1 hr
    · exact Or.inl hr
    · refine Or.inr ?_
      rw [Lookups.replied, Option.mem_def.1 hsome] at hr
      dsimp only at hr
      split_ifs at hr with hnull
      · exact absurd hr List.not_mem_nil
      · obtain rfl := List.mem_singleton.1 hr
        obtain ⟨hS, hcanonical⟩ := h.conn hg
        refine h.answered.replied _ hx hnull _ hS hcanonical ?_
        show compareAcls g.key _ = true
        rw [← (h.keyed g hg).2]
        exact compareAcls_refl ⟨_, hcanonical, rfl⟩

/-- A pointer that has just been allocated is nowhere. -/
theorem Lookups.Faithful.fresh (h : s.Faithful env modules S heap) {d : ℕ}
    (hplaces : s.world.cache.places d = 0) (hbrought : s.world.brought d = 0) :
    (∀ e ∈ s.world.cache.hash, ∀ c ∈ e.datas, c.datas ≠ some d) ∧
      (∀ x ∈ s.world.unread, x.2.datas? ≠ some d) ∧
      ∀ key, CacheMessage.insert key (some d) ∉ s.world.queue := by
  have hunused := h.counted.unused hplaces hbrought
  refine ⟨fun e he c hc hd ↦ ?_, fun x hx hd ↦ ?_, fun key hkey ↦ ?_⟩
  · have hplace : c.place d = 1 := if_pos hd
    have hle : c.place d ≤ e.places d := apply_le_total hc
    have hle' : e.places d ≤ s.world.cache.places d := apply_le_total he
    omega
  · have hreply : x.2 = .datas d := by
      cases hx' : x.2 with
      | nullMessage => rw [hx'] at hd; cases hd
      | nullQueueDatas => rw [hx'] at hd; cases hd
      | datas d' => rw [hx'] at hd; rw [Option.some.inj hd]
    have hhands : handsOut d x = 1 := if_pos hreply
    have hle : handsOut d x ≤ total (handsOut d) s.world.unread := apply_le_total hx
    rw [CacheWorld.holders] at hunused
    omega
  · exact CacheWorld.brought_ne_zero hkey hbrought

/-- **A client sends what the modules have found.** -/
theorem Lookups.Faithful.compute (hS : Separated S) (h : s.Faithful env modules S heap) {i d : ℕ}
    (hcounted : (s.step env modules (.compute i d)).world.Counted (aclCacheClass env.order)
      (fun k ↦ k.Built ∧ LookupKey S k) heap)
    (hreturns : s.Returns env modules (.compute i d))
    (hallocates : Allocates heap s.world (.compute i (s.inserted env modules i d))) :
    (s.step env modules (.compute i d)).Faithful env modules S heap := by
  obtain ⟨found, hcomputed⟩ := Option.isSome_iff_exists.1 hreturns
  obtain ⟨g, hg, hfound⟩ := Option.bind_eq_some_iff.1 hcomputed
  obtain ⟨acls, hcheck, rfl⟩ := Option.map_eq_some_iff.1 hfound
  have hmem : g ∈ s.world.waiting ++ s.world.computing :=
    List.mem_append_right _ (List.mem_of_getElem? hg)
  obtain ⟨hconn, hcanonical⟩ := h.conn hmem
  -- what the new lists are
  generalize hlists : (s.step env modules (.compute i d)).lists = lists
  have hvalue : listOf lists (s.inserted env modules i d) = acls := by
    rw [← hlists]
    simp only [Lookups.step, Lookups.inserted, hcomputed]
    cases acls with
    | nil => rfl
    | cons a l => exact if_pos rfl
  have hold : ∀ p, (s.inserted env modules i d = some d → p ≠ d) → lists p = s.lists p := by
    intro p hp
    rw [← hlists]
    simp only [Lookups.step, Lookups.inserted, hcomputed] at hp ⊢
    cases acls with
    | nil => rfl
    | cons a l => exact if_neg (hp rfl)
  have hfresh : s.inserted env modules i d = some d →
      (∀ e ∈ s.world.cache.hash, ∀ c ∈ e.datas, c.datas ≠ some d) ∧
        (∀ x ∈ s.world.unread, x.2.datas? ≠ some d) ∧
        ∀ key, CacheMessage.insert key (some d) ∉ s.world.queue := by
    intro hinserted
    rw [hinserted] at hallocates
    exact h.fresh hallocates.2.1 hallocates.2.2
  have hworld := Lookups.world_compute env modules d hg
  refine h.frame [] hcounted ?_ (List.append_nil _).symm (by simp) (fun g' hg' ↦ Or.inl ?_) ?_ ?_
    fun r hr ↦ ?_
  · rw [hworld]
    exact h.requests
  · rw [hworld] at hg'
    have hwaiting : ∀ queue, (queue ++ [CacheMessage.insert g.key
        (s.inserted env modules i d)]).flatMap CacheMessage.gets =
        queue.flatMap CacheMessage.gets := by
      intro queue
      rw [List.flatMap_append]
      exact List.append_nil _
    obtain hg' | hg' := List.mem_append.1 hg'
    · refine List.mem_append_left _ ?_
      rw [CacheWorld.waiting, hwaiting] at hg'
      exact hg'
    · exact List.mem_append_right _ (List.mem_of_mem_eraseIdx hg')
  · rw [hworld, hlists]
    refine ⟨fun e he c hc ↦ (h.answered.stored e he c hc).congr fun p hp ↦ hold p ?_,
      fun x hx hne ↦ (h.answered.replied x hx hne).congr fun p hp ↦ hold p ?_⟩
    · rintro hinserted rfl
      exact (hfresh hinserted).1 e he c hc hp
    · rintro hinserted rfl
      exact (hfresh hinserted).2.1 x hx hp
  · intro key datas hinsert
    rw [hworld] at hinsert
    rw [hlists]
    obtain hbefore | hlast := List.mem_append.1 hinsert
    · refine (h.inserts key datas hbefore).congr fun p hp ↦ hold p ?_
      rintro hinserted rfl
      rw [Option.mem_def.1 hp] at hbefore
      exact (hfresh hinserted).2.2 key hbefore
    · obtain ⟨rfl, rfl⟩ := CacheMessage.insert.inj (List.mem_singleton.1 hlast)
      rw [← (h.keyed g hmem).2]
      refine hS.right hconn hcanonical ?_
      rw [hvalue]
      exact hcheck
  · obtain hr | hr := List.mem_append.1 (show r ∈ s.results ++ (s.computed env modules i).toList
      from hr)
    · exact Or.inl hr
    · rw [hcomputed] at hr
      obtain rfl := List.mem_singleton.1 hr
      exact Or.inr hcheck

/-- **The manager takes a message.** -/
theorem Lookups.Faithful.manage (hS : Separated S) (h : s.Faithful env modules S heap) {now : Int}
    {clock : CacheEntry AclKey → Int}
    (hcounted : (s.step env modules (.manage now clock)).world.Counted (aclCacheClass env.order)
      (fun k ↦ k.Built ∧ LookupKey S k) heap) :
    (s.step env modules (.manage now clock)).Faithful env modules S heap := by
  have hK := hS.properKeys env.order
  cases hqueue : s.world.queue with
  | nil =>
    have hs' : s.step env modules (.manage now clock) = s := by
      show { s with world := s.world.step (aclCacheClass env.order) env.conf (.manage now clock) } =
        s
      rw [CacheWorld.step, hqueue]
    rw [hs']
    exact h
  | cons m queue =>
    have hkeyed := CacheMessage.Keyed.of_key? (h.counted.queued m (by simp [hqueue]))
    have hanswered := answered_cacheManager hK h.counted.kept
      (sharedByKeys_right env.order s.lists) h.answered.stored env.conf now clock hkeyed
      fun key datas hm ↦ h.inserts key datas (by simp [hqueue, hm])
    have hreplied := (asked_cacheManager_le env.conf now hK h.counted.kept clock hkeyed).2
    have hparked : ∀ {g}, g ∈ (cacheManager (aclCacheClass env.order) env.conf now clock
        s.world.cache m).1.localQueue → g ∈ s.world.cache.localQueue ++ m.gets :=
      fun hg ↦ mem_localQueue_cacheManager (aclCacheClass env.order) env.conf now clock hg
    have hworld := Lookups.world_manage env modules now clock hqueue
    generalize cacheManager (aclCacheClass env.order) env.conf now clock s.world.cache m = r
      at hanswered hreplied hparked hworld
    dsimp only at hworld
    -- every GET that is answered or parked was waiting
    have hwaited : ∀ g ∈ s.world.cache.localQueue ++ m.gets, g ∈ s.world.waiting := by
      intro g hg
      rw [CacheWorld.waiting, hqueue, List.flatMap_cons]
      obtain hg | hg := List.mem_append.1 hg
      · exact List.mem_append_left _ (List.mem_append_right _ hg)
      · exact List.mem_append_right _ (List.mem_append_left _ hg)
    have hunread : ∀ x ∈ (s.step env modules (.manage now clock)).world.unread,
        x ∈ s.world.unread ∨ x ∈ r.2 := by
      intro x hx
      rw [hworld] at hx
      obtain ⟨hx, hid⟩ := List.mem_filter.1 hx
      exact (List.mem_append.1 hx).imp (fun hx ↦ List.mem_filter.2 ⟨hx, hid⟩) id
    refine h.frame [] hcounted ?_ (List.append_nil _).symm (by simp) (fun g hg ↦ Or.inl ?_)
      ⟨?_, fun x hx hne ↦ ?_⟩ (fun key datas hinsert ↦ ?_) fun r hr ↦ Or.inl hr
    · rw [hworld]
      exact h.requests
    · obtain hg | hg := List.mem_append.1 hg
      · refine List.mem_append_left _ ?_
        obtain hg | hg := List.mem_append.1 hg
        · obtain hg | hg := List.mem_append.1 hg
          · obtain ⟨x, hx, rfl⟩ := List.mem_map.1 hg
            obtain hx | hx := hunread x hx
            · exact List.mem_append_left _ (List.mem_append_left _ (List.mem_map_of_mem hx))
            · exact hwaited _ (hreplied x hx)
          · rw [hworld] at hg
            exact hwaited g (hparked hg)
        · rw [hworld] at hg
          rw [CacheWorld.waiting, hqueue, List.flatMap_cons]
          exact List.mem_append_right _ (List.mem_append_right _ hg)
      · rw [hworld] at hg
        exact List.mem_append_right _ hg
    · rw [hworld]
      exact hanswered.stored
    · obtain hx | hx := hunread x hx
      · exact h.answered.replied x hx hne
      · exact hanswered.replied x hx hne
    · rw [hworld] at hinsert
      exact h.inserts key datas (by rw [hqueue]; exact List.mem_cons_of_mem _ hinsert)

/-- **One step of a run.** -/
theorem Lookups.Faithful.step (hS : Separated S) (hheap : PointersDiffer heap)
    (h : s.Faithful env modules S heap) {e : LookupEvent}
    (henabled : (lookups env modules).enabled s e) (hlooks : LooksUp env modules S heap s e) :
    (s.step env modules e).Faithful env modules S heap := by
  obtain ⟨henabled, hreturns⟩ := henabled
  obtain ⟨hlooks, hallocates⟩ := hlooks
  have hK := hS.properKeys env.order
  have hcanonical : ∀ element, e = .lookup element → element.tracking.Canonical := by
    rintro element rfl
    exact Tracking.Produced.canonical hreturns (hS.supported element (hlooks element rfl))
  have hasks : (s.cacheEvent env modules e).AsksFor fun k ↦ k.Built ∧ LookupKey S k := by
    cases e with
    | lookup element =>
      have hc := hcanonical element rfl
      exact ⟨⟨element, hc, rfl⟩, element, hlooks element rfl, hc, rfl⟩
    | manage | receive | compute | freeConnection | refresh | reset => trivial
  have hcounted : (s.world.step (aclCacheClass env.order) env.conf
      (s.cacheEvent env modules e)).Counted (aclCacheClass env.order)
      (fun k ↦ k.Built ∧ LookupKey S k) heap :=
    h.counted.step hK hheap henabled ⟨hasks, hallocates⟩
  cases e with
  | lookup element => exact h.lookup hcounted (hlooks element rfl) (hcanonical element rfl)
  | manage now clock => exact h.manage hS hcounted
  | receive i => exact h.receive hcounted henabled
  | compute i d => exact h.compute hS hcounted hreturns hallocates
  | freeConnection i =>
    have hi : i < s.world.holding.length := henabled
    have hworld := Lookups.world_freeConnection env modules hi
    show Lookups.Faithful env modules S heap
      { s with world := (s.step env modules (.freeConnection i)).world }
    refine h.push hcounted ?_ ?_ (m := .free s.world.holding[i].1 s.world.holding[i].2) ?_ rfl
      (fun _ _ hm ↦ nomatch hm) ?_ ?_ <;> rw [hworld]
    rfl
  | refresh => exact h.push hcounted rfl rfl rfl rfl (fun _ _ hm ↦ nomatch hm) rfl rfl
  | reset => exact h.push hcounted rfl rfl rfl rfl (fun _ _ hm ↦ nomatch hm) rfl rfl

end

end Nufw
