import Mathlib.Data.List.Nodup
import Nufw.Lib.Transition
import Nufw.Nuauth.Cache

/-!
# Answers of the cache

The clients of the cache and the thread that manages it, as a machine. A client runs
`get_acls_from_cache`: it sends a GET and waits for the reply; told to look for itself, it calls
the modules and sends an INSERT. What it got is held by its connection, until `free_connection`
sends a FREE. REFRESH and RESET messages come at any time.

Every GET that the manager takes is answered at once or parked, and a parked one is answered when
the entry stops refreshing (`handled_cacheManager`), with one exception: `cache_refresh` pushes the
datas of the INSERT as they are, so that nobody hears of an INSERT with `NULL` datas. `Answering`
says that no GET waits for such an INSERT, and that the keys are those of a set on which
`equal_key` is an equivalence (`ProperKeys`).
-/

namespace Nufw

variable {κ : Type}

/-! ### The machine -/

/-- The manager, its queue and its clients. -/
structure CacheWorld (κ : Type) where
  cache : Cache κ
  queue : List (CacheMessage κ)
  /-- The replies that have been delivered. -/
  replies : List (Delivery κ)
  /-- **Ghost**: the GET messages the manager has taken. -/
  taken : List (GetMessage κ)
  /-- The number of GET messages sent so far. -/
  requests : ℕ
  /-- The messages whose reply the client has taken out of its queue. -/
  received : List ℕ
  /-- Clients that have been told to look for themselves. -/
  computing : List (GetMessage κ)
  /-- Datas held by connections, with the key they are freed under. -/
  holding : List (κ × ℕ)

/-- The GET a message is. -/
def CacheMessage.gets : CacheMessage κ → List (GetMessage κ)
  | .get g => [g]
  | _ => []

/-- What can happen. -/
inductive CacheEvent (κ : Type) where
  /-- `get_acls_from_cache` sends its GET. -/
  | get (key : κ)
  /-- One turn of `cache_manager`. -/
  | manage (now : Int) (clock : CacheEntry κ → Int)
  /-- `get_acls_from_cache` takes the reply. -/
  | receive (i : ℕ)
  /-- `get_acls_from_cache` has called the modules. -/
  | compute (i : ℕ) (datas : Option ℕ)
  | freeConnection (i : ℕ)
  | refresh
  | reset

/-- The event can happen. -/
def CacheWorld.enabled (w : CacheWorld κ) : CacheEvent κ → Prop
  | .get _ => True
  | .manage _ _ => w.queue ≠ []
  | .receive i => ∃ d ∈ w.replies[i]?, d.1.id ∉ w.received
  | .compute i _ => i < w.computing.length
  | .freeConnection i => i < w.holding.length
  | .refresh => True
  | .reset => True

instance (w : CacheWorld κ) : (e : CacheEvent κ) → Decidable (w.enabled e)
  | .get _ => inferInstanceAs (Decidable True)
  | .manage _ _ => inferInstanceAs (Decidable (w.queue ≠ []))
  | .receive i => inferInstanceAs (Decidable (∃ d ∈ w.replies[i]?, d.1.id ∉ w.received))
  | .compute i _ => inferInstanceAs (Decidable (i < w.computing.length))
  | .freeConnection i => inferInstanceAs (Decidable (i < w.holding.length))
  | .refresh => inferInstanceAs (Decidable True)
  | .reset => inferInstanceAs (Decidable True)

/-- What the event does. -/
def CacheWorld.step (this : CacheClass κ) (conf : Params) (w : CacheWorld κ) :
    CacheEvent κ → CacheWorld κ
  | .get key =>
    { w with queue := w.queue ++ [.get ⟨key, w.requests⟩], requests := w.requests + 1 }
  | .manage now clock =>
    match w.queue with
    | [] => w
    | message :: queue =>
      let (cache, deliveries) := cacheManager this conf now clock w.cache message
      { w with
        cache := cache
        queue := queue
        replies := w.replies ++ deliveries
        taken := w.taken ++ message.gets }
  | .receive i =>
    match w.replies[i]? with
    | none => w
    | some (g, reply) =>
      let w := { w with received := g.id :: w.received }
      match reply with
      | .nullMessage => { w with computing := g :: w.computing }
      | .nullQueueDatas => w
      | .datas d => { w with holding := (g.key, d) :: w.holding }
  | .compute i datas =>
    match w.computing[i]? with
    | none => w
    | some g =>
      { w with
        queue := w.queue ++ [.insert g.key datas]
        computing := w.computing.eraseIdx i
        holding := datas.toList.map (fun d ↦ (g.key, d)) ++ w.holding }
  | .freeConnection i =>
    match w.holding[i]? with
    | none => w
    | some (key, datas) =>
      { w with queue := w.queue ++ [.free key datas], holding := w.holding.eraseIdx i }
  | .refresh => { w with queue := w.queue ++ [.refresh] }
  | .reset => { w with queue := w.queue ++ [.reset] }

/-- Nothing has been asked yet. -/
def CacheWorld.start : CacheWorld κ := ⟨⟨[], [], [], []⟩, [], [], [], 0, [], [], []⟩

/-- A GET asks for a key of the given kind. -/
def CacheEvent.AsksFor (built : κ → Prop) : CacheEvent κ → Prop
  | .get key => built key
  | _ => True

/-- The machine of a cache whose clients build keys of the given kind. -/
def cacheMachine (this : CacheClass κ) (conf : Params) (built : κ → Prop) :
    Machine (CacheWorld κ) (CacheEvent κ) where
  init w := w = CacheWorld.start
  enabled w e := w.enabled e ∧ e.AsksFor built
  step := CacheWorld.step this conf

/-! ### Keys -/

/-- A set of keys on which the functions of the class are what a hash table expects. -/
structure ProperKeys (this : CacheClass κ) (K : κ → Prop) : Prop where
  refl : ∀ {a}, K a → this.equalKey a a = true
  symm : ∀ {a b}, K a → K b → this.equalKey a b = true → this.equalKey b a = true
  trans : ∀ {a b c}, K a → K b → K c → this.equalKey a b = true → this.equalKey b c = true →
    this.equalKey a c = true
  hash : ∀ {a b}, K a → K b → this.equalKey a b = true → this.hashKey a = this.hashKey b
  duplicate : ∀ {a}, K a → this.duplicateKey a = a

theorem ProperKeys.holds_iff {this : CacheClass κ} {K : κ → Prop} (hK : ProperKeys this K)
    {key : κ} {entry : CacheEntry κ} (hkey : K key) (hentry : K entry.key) :
    this.holds key entry = true ↔ this.equalKey entry.key key = true := by
  rw [CacheClass.holds, decide_eq_true_eq]
  exact ⟨fun h ↦ h.2, fun h ↦ ⟨hK.hash hentry hkey h, h⟩⟩

/-! ### What the manager keeps -/

section

variable {this : CacheClass κ} {K : κ → Prop} {cache : Cache κ}

/-- **The invariant of the manager**: whoever waits, waits for an entry that is refreshing, and an
entry that is not has datas. -/
structure Cache.Kept (this : CacheClass κ) (K : κ → Prop) (cache : Cache κ) : Prop where
  keys : ∀ e ∈ cache.hash, K e.key
  distinct : (cache.hash.map CacheEntry.key).Pairwise fun a b ↦ this.equalKey a b = false
  waiting : ∀ g ∈ cache.localQueue, K g.key
  parked : ∀ g ∈ cache.localQueue, ∃ e ∈ cache.hash, e.refreshing = true ∧
    this.equalKey e.key g.key = true
  datas : ∀ e ∈ cache.hash, e.refreshing = false → e.datas ≠ []

/-- One entry changes. When its refresh comes to an end, nobody waits for it any more. -/
theorem Cache.Kept.replace {cache' : Cache κ} (h : cache.Kept this K) {l₁ l₂ : List (CacheEntry κ)}
    {e e' : CacheEntry κ} (hl : cache.hash = l₁ ++ e :: l₂) (hl' : cache'.hash = l₁ ++ e' :: l₂)
    (hqueue : ∀ g ∈ cache'.localQueue, g ∈ cache.localQueue) (hkey : e'.key = e.key)
    (hrefreshing : ∀ g ∈ cache'.localQueue, this.equalKey e.key g.key = true →
      e.refreshing = true → e'.refreshing = true)
    (hdatas : e'.refreshing = false → e'.datas ≠ []) : cache'.Kept this K := by
  refine ⟨?_, ?_, fun g hg ↦ h.waiting g (hqueue g hg), fun g hg ↦ ?_, ?_⟩
  · rw [hl']
    exact forall_mem_replace hl h.keys (hkey ▸ h.keys e (by simp [hl]))
  · have hmap : cache'.hash.map CacheEntry.key = cache.hash.map CacheEntry.key := by
      simp [hl, hl', hkey]
    exact hmap ▸ h.distinct
  · obtain ⟨d, hd, hd', heq⟩ := h.parked g (hqueue g hg)
    rw [hl, List.mem_append, List.mem_cons] at hd
    obtain hd | rfl | hd := hd
    · exact ⟨d, by simp [hl', hd], hd', heq⟩
    · exact ⟨e', by simp [hl'], hrefreshing g hg heq hd', hkey ▸ heq⟩
    · exact ⟨d, by simp [hl', hd], hd', heq⟩
  · rw [hl']
    exact forall_mem_replace hl h.datas hdatas

/-- How many times a number occurs among the messages. -/
def asked (id : ℕ) (messages : List (GetMessage κ)) : ℕ := messages.countP fun g ↦ g.id = id

@[simp] theorem asked_nil (id : ℕ) : asked id ([] : List (GetMessage κ)) = 0 := rfl

@[simp] theorem asked_append (id : ℕ) (l₁ l₂ : List (GetMessage κ)) :
    asked id (l₁ ++ l₂) = asked id l₁ + asked id l₂ :=
  List.countP_append

/-- What one turn of the manager does to the GETs: those that waited and the new one now wait or
have a reply. -/
structure Handled (this : CacheClass κ) (K : κ → Prop) (cache : Cache κ)
    (gets : List (GetMessage κ)) (r : Cache κ × List (Delivery κ)) : Prop where
  kept : r.1.Kept this K
  balance : ∀ id, asked id r.1.localQueue + asked id (r.2.map Prod.fst) =
    asked id cache.localQueue + asked id gets
  waiting : ∀ g ∈ r.1.localQueue, g ∈ cache.localQueue ++ gets
  replied : ∀ d ∈ r.2, d.1 ∈ cache.localQueue ++ gets

/-- Nobody has asked for anything, and nothing is handed out. -/
theorem Handled.quiet {cache' : Cache κ} (h : cache'.Kept this K)
    (hqueue : cache'.localQueue = cache.localQueue) : Handled this K cache [] (cache', []) where
  kept := h
  balance id := by simp [hqueue]
  waiting g hg := List.mem_append_left _ (hqueue ▸ hg)
  replied d hd := absurd hd List.not_mem_nil

/-- A GET that is answered at once. -/
theorem Handled.reply {cache' : Cache κ} (h : cache'.Kept this K)
    (hqueue : cache'.localQueue = cache.localQueue) (g : GetMessage κ) (reply : CacheReply) :
    Handled this K cache [g] (cache', [(g, reply)]) where
  kept := h
  balance id := by simp [hqueue]
  waiting g hg := List.mem_append_left _ (hqueue ▸ hg)
  replied d hd := by
    obtain rfl := List.mem_singleton.1 hd
    simp

/-! ### One turn of the manager -/

/-- Datas are pushed once for each message, unless they are `NULL`. -/
theorem map_fst_pushDatas (messages : List (GetMessage κ)) (datas : Option ℕ)
    (h : datas = none → messages = []) :
    (messages.flatMap fun g ↦ pushDatas g datas).map Prod.fst = messages := by
  cases datas with
  | none => rw [h rfl]; rfl
  | some d =>
    induction messages with
    | nil => rfl
    | cons g messages ih =>
      rw [List.flatMap_cons, List.map_append, ih nofun]
      rfl

theorem cacheMessageDestroy_ne_nil (datas : ℕ) {contents : List CacheEntryContent}
    (h : contents ≠ []) : (cacheMessageDestroy datas contents).1 ≠ [] := by
  cases contents with
  | nil => exact absurd rfl h
  | cons content list =>
    rw [cacheMessageDestroy]
    split_ifs
    · exact List.cons_ne_nil _ _
    · split
      · exact List.cons_ne_nil _ _
      · split_ifs <;> exact List.cons_ne_nil _ _

variable (conf : Params) (now : Int) (hK : ProperKeys this K) (h : cache.Kept this K)

include hK h

theorem handled_cacheInsert {g : GetMessage κ} (hg : K g.key)
    (hnone : cache.hash.find? (this.holds g.key) = none) :
    Handled this K cache [g] (cacheInsert this conf now g cache) := by
  rw [cacheInsert]
  refine Handled.reply ?_ ?_ g _
  swap
  · rfl
  refine ⟨?_, ?_, h.waiting, fun g' hg' ↦ ?_, ?_⟩
  · rw [List.forall_mem_cons]
    exact ⟨show K (this.duplicateKey g.key) from (hK.duplicate hg).symm ▸ hg, h.keys⟩
  · show List.Pairwise _ (this.duplicateKey g.key :: _)
    rw [hK.duplicate hg, List.pairwise_cons]
    refine ⟨fun key hkey ↦ ?_, h.distinct⟩
    -- the lookup compares the stored key with the new one, and here they stand the other way
    obtain ⟨e, he, rfl⟩ := List.mem_map.1 hkey
    have hne := List.find?_eq_none.1 hnone e he
    rw [hK.holds_iff hg (h.keys e he)] at hne
    exact Bool.eq_false_iff.2 fun heq ↦ hne (hK.symm hg (h.keys e he) heq)
  · obtain ⟨e, he, hrest⟩ := h.parked g' hg'
    exact ⟨e, List.mem_cons_of_mem _ he, hrest⟩
  · rw [List.forall_mem_cons]
    exact ⟨fun hfalse ↦ Bool.noConfusion hfalse, h.datas⟩

/-- A GET whose entry is refreshing waits for it. The entry is there, so that somebody has been
told to look for the datas. -/
theorem handled_cacheGet {g : GetMessage κ} (hg : K g.key) {entry : CacheEntry κ}
    (hsome : cache.hash.find? (this.holds g.key) = some entry) :
    Handled this K cache [g] (cacheGet this now entry g cache) := by
  obtain ⟨l₁, l₂, hl, hholds, hfirst⟩ := exists_split_of_find? hsome
  have hentry : entry ∈ cache.hash := by simp [hl]
  have hupdate (e : CacheEntry κ) :
      updateFirst (this.holds g.key) (fun _ ↦ e) cache.hash = l₁ ++ e :: l₂ := by
    rw [hl, updateFirst_split hfirst hholds]
  rw [cacheGet]
  simp only [hupdate]
  split_ifs with hrefreshing hold
  · refine ⟨⟨h.keys, h.distinct, ?_, ?_, h.datas⟩, fun id ↦ by simp, fun g' hg' ↦ hg', ?_⟩
    · rw [List.forall_mem_append]
      exact ⟨h.waiting, by simpa using hg⟩
    · rw [List.forall_mem_append]
      refine ⟨h.parked, fun g' hg' ↦ ?_⟩
      obtain rfl := List.mem_singleton.1 hg'
      exact ⟨entry, hentry, hrefreshing, (hK.holds_iff hg (h.keys entry hentry)).1 hholds⟩
    · exact fun d hd ↦ absurd hd List.not_mem_nil
  · refine Handled.reply ?_ ?_ g _
    · exact h.replace hl rfl (fun _ hg ↦ hg) rfl (fun _ _ _ _ ↦ rfl)
        fun hfalse ↦ Bool.noConfusion hfalse
    · rfl
  · split
    · exact absurd ‹_› (h.datas entry hentry (Bool.eq_false_iff.2 hrefreshing))
    · refine Handled.reply ?_ ?_ g _
      · exact h.replace hl rfl (fun _ hg ↦ hg) rfl (fun _ _ _ htrue ↦ htrue)
          fun _ ↦ List.cons_ne_nil _ _
      · rfl

omit hK h in
/-- Who waits for a key leaves the queue with the INSERT of the key. -/
theorem mem_queue_of_cacheRefresh {g : GetMessage κ} {key : κ}
    (hg : g ∈ cache.localQueue.filter fun g ↦ !this.equalKey key g.key) :
    g ∈ cache.localQueue ∧ this.equalKey key g.key = false := by
  simpa using List.mem_filter.1 hg

theorem kept_cacheRefresh {entry : CacheEntry κ} {key : κ} (hkey : K key) (datas : Option ℕ)
    (hsome : cache.hash.find? (this.holds key) = some entry) :
    (cacheRefresh this conf now entry key datas cache).1.Kept this K := by
  obtain ⟨l₁, l₂, hl, hholds, hfirst⟩ := exists_split_of_find? hsome
  have hentry : K entry.key := h.keys entry (by simp [hl])
  have hequal := hK.symm hentry hkey ((hK.holds_iff hkey hentry).1 hholds)
  have hupdate := updateFirst_split hfirst hholds
  rw [cacheRefresh]
  refine h.replace hl ((congrArg _ hl).trans (hupdate _ l₂))
    (fun g hg ↦ (mem_queue_of_cacheRefresh hg).1) rfl (fun g hg heq _ ↦ ?_)
    fun _ ↦ List.cons_ne_nil _ _
  -- what equals the key of the entry equals the key of the INSERT, and has left the queue
  obtain ⟨hg, hne⟩ := mem_queue_of_cacheRefresh hg
  rw [hK.trans hkey hentry (h.waiting g hg) hequal heq] at hne
  exact absurd hne (by decide)

/-- **Who waits for an INSERT gets its datas**, unless they are `NULL`. -/
theorem handled_cacheRefresh {entry : CacheEntry κ} {key : κ} (hkey : K key) (datas : Option ℕ)
    (hsome : cache.hash.find? (this.holds key) = some entry)
    (hanswer : datas = none → ∀ g ∈ cache.localQueue, this.equalKey key g.key = false) :
    Handled this K cache [] (cacheRefresh this conf now entry key datas cache) := by
  have hpush := map_fst_pushDatas (cache.localQueue.filter fun g ↦ this.equalKey key g.key) datas
    fun hnone ↦ List.filter_eq_nil_iff.2 (by simpa using hanswer hnone)
  refine ⟨kept_cacheRefresh conf now hK h hkey datas hsome, fun id ↦ ?_,
    fun g hg ↦ List.mem_append_left _ (mem_queue_of_cacheRefresh hg).1, fun d hd ↦ ?_⟩
  · show asked id (cache.localQueue.filter fun g ↦ !this.equalKey key g.key) +
      asked id ((List.flatMap _ _).map Prod.fst) = _
    rw [hpush, asked_nil, Nat.add_zero, Nat.add_comm]
    exact (List.countP_eq_countP_filter_add ..).symm
  · have hmem : d.1 ∈ cache.localQueue.filter fun g ↦ this.equalKey key g.key :=
      hpush ▸ List.mem_map_of_mem hd
    exact List.mem_append_left _ (List.mem_filter.1 hmem).1

omit hK in
theorem handled_free (clock : CacheEntry κ → Int) (key : κ) (datas : ℕ) :
    Handled this K cache [] (cacheManager this conf now clock cache (.free key datas)) := by
  rw [cacheManager]
  split
  · exact Handled.quiet h rfl
  · rename_i entry hsome
    obtain ⟨l₁, l₂, hl, hholds, hfirst⟩ := exists_split_of_find? hsome
    have hupdate := updateFirst_split hfirst hholds
    refine Handled.quiet (h.replace hl ((congrArg _ hl).trans (hupdate _ l₂)) (fun _ hg ↦ hg) rfl
      (fun _ _ _ htrue ↦ htrue) fun hfalse ↦ ?_) rfl
    exact cacheMessageDestroy_ne_nil datas (h.datas entry (by simp [hl]) hfalse)

omit hK in
/-- An entry that is refreshing is not old. -/
theorem handled_refresh (clock : CacheEntry κ → Int) :
    Handled this K cache [] (cacheManager this conf now clock cache .refresh) := by
  have hsub : ((cache.hash.filter fun e ↦ !cacheEntryIsOld (clock e) e)).Sublist cache.hash :=
    List.filter_sublist
  refine Handled.quiet ⟨fun e he ↦ h.keys e (hsub.subset he), h.distinct.sublist (hsub.map _),
    h.waiting, fun g hg ↦ ?_, fun e he ↦ h.datas e (hsub.subset he)⟩ rfl
  obtain ⟨e, he, hrefreshing, heq⟩ := h.parked g hg
  exact ⟨e, List.mem_filter.2 ⟨he, by simp [cacheEntryIsOld, hrefreshing]⟩, hrefreshing, heq⟩

omit hK in
theorem handled_reset (clock : CacheEntry κ → Int) :
    Handled this K cache [] (cacheManager this conf now clock cache .reset) := by
  refine Handled.quiet ⟨?_, ?_, h.waiting, fun g hg ↦ ?_, ?_⟩ rfl
  · exact List.forall_mem_map.2 h.keys
  · show List.Pairwise _ (List.map _ (List.map _ _))
    rw [List.map_map]
    exact h.distinct
  · obtain ⟨e, he, hrest⟩ := h.parked g hg
    exact ⟨_, List.mem_map_of_mem he, hrest⟩
  · exact List.forall_mem_map.2 h.datas

/-- The key of a message that is looked up for a client. -/
def CacheMessage.Keyed (K : κ → Prop) : CacheMessage κ → Prop
  | .get g => K g.key
  | .insert key _ => K key
  | _ => True

omit hK h in
theorem CacheMessage.Keyed.of_gets {message : CacheMessage κ} (hkeyed : message.Keyed K)
    {g : GetMessage κ} (hg : g ∈ message.gets) : K g.key := by
  cases message with
  | get g' =>
    obtain rfl := List.mem_singleton.1 hg
    exact hkeyed
  | insert | free | refresh | reset => exact absurd hg List.not_mem_nil

/-- The message is an INSERT without datas, for which the GET may wait. -/
def CacheMessage.nullFor (this : CacheClass κ) (g : GetMessage κ) : CacheMessage κ → Bool
  | .insert key none => this.equalKey key g.key
  | _ => false

/-- **One turn of the manager.** -/
theorem handled_cacheManager (clock : CacheEntry κ → Int) {message : CacheMessage κ}
    (hkeyed : message.Keyed K)
    (hanswer : ∀ g ∈ cache.localQueue, message.nullFor this g = false) :
    Handled this K cache message.gets (cacheManager this conf now clock cache message) := by
  cases message with
  | get g =>
    rw [cacheManager]
    split
    · exact handled_cacheInsert conf now hK h hkeyed ‹_›
    · exact handled_cacheGet now hK h hkeyed ‹_›
  | insert key datas =>
    rw [cacheManager]
    split
    · exact Handled.quiet ⟨h.keys, h.distinct, h.waiting, h.parked, h.datas⟩ rfl
    · split_ifs
      · refine handled_cacheRefresh conf now hK h hkeyed datas ‹_› fun hnone ↦ ?_
        subst hnone
        exact hanswer
      · exact Handled.quiet ⟨h.keys, h.distinct, h.waiting, h.parked, h.datas⟩ rfl
  | free key datas => exact handled_free conf now h clock key datas
  | refresh => exact handled_refresh conf now h clock
  | reset => exact handled_reset conf now h clock

end

/-! ### Runs -/

section

variable {this : CacheClass κ} {K : κ → Prop} {conf : Params} {w : CacheWorld κ}

/-- The event asks for a key of the set, and does not end a refresh with `NULL` datas while
somebody waits for them. -/
def Answering (this : CacheClass κ) (K : κ → Prop) (w : CacheWorld κ) : CacheEvent κ → Prop
  | .get key => K key
  | .manage _ _ => ∀ message ∈ w.queue.head?, ∀ g ∈ w.cache.localQueue,
      message.nullFor this g = false
  | _ => True

instance [DecidablePred K] (w : CacheWorld κ) :
    (e : CacheEvent κ) → Decidable (Answering this K w e)
  | .get key => inferInstanceAs (Decidable (K key))
  | .manage _ _ => inferInstanceAs (Decidable (∀ message ∈ w.queue.head?,
      ∀ g ∈ w.cache.localQueue, message.nullFor this g = false))
  | .receive _ | .compute _ _ | .freeConnection _ | .refresh | .reset =>
    inferInstanceAs (Decidable True)

/-- The GETs that the manager has taken or will take. -/
def CacheWorld.gets (w : CacheWorld κ) : List (GetMessage κ) :=
  w.taken ++ w.queue.flatMap CacheMessage.gets

/-- **The invariant of a run**: what the manager has taken waits or has a reply, once for each
message. -/
structure CacheWorld.Sound (this : CacheClass κ) (K : κ → Prop) (w : CacheWorld κ) : Prop where
  kept : w.cache.Kept this K
  queued : ∀ m ∈ w.queue, m.Keyed K
  replied : ∀ d ∈ w.replies, K d.1.key
  computing : ∀ g ∈ w.computing, K g.key
  balance : ∀ id, asked id w.cache.localQueue + asked id (w.replies.map Prod.fst) =
    asked id w.taken
  waiting : ∀ g ∈ w.cache.localQueue, g ∈ w.taken
  /-- Each message has its own number. -/
  numbered : (w.gets.map GetMessage.id).Nodup
  bounded : ∀ g ∈ w.gets, g.id < w.requests

theorem CacheWorld.sound_start : (CacheWorld.start : CacheWorld κ).Sound this K := by
  refine ⟨⟨?_, List.Pairwise.nil, ?_, ?_, ?_⟩, ?_, ?_, ?_, fun _ ↦ rfl, ?_, List.nodup_nil, ?_⟩ <;>
    exact fun _ h ↦ absurd h List.not_mem_nil

/-- A client sends a message that is no GET. -/
theorem CacheWorld.Sound.push (h : w.Sound this K) (message : CacheMessage κ)
    (hkeyed : message.Keyed K) (hgets : message.gets = []) (computing : List (GetMessage κ))
    (hcomputing : ∀ g ∈ computing, g ∈ w.computing) (holding : List (κ × ℕ)) :
    CacheWorld.Sound this K { w with
      queue := w.queue ++ [message]
      computing := computing
      holding := holding } := by
  have hsame : w.taken ++ (w.queue ++ [message]).flatMap CacheMessage.gets = w.gets := by
    simp [CacheWorld.gets, hgets]
  refine ⟨h.kept, ?_, h.replied, fun g hg ↦ h.computing g (hcomputing g hg), h.balance, h.waiting,
    ?_, ?_⟩
  · rw [List.forall_mem_append]
    exact ⟨h.queued, by simpa using hkeyed⟩
  · show ((w.taken ++ (w.queue ++ [message]).flatMap CacheMessage.gets).map _).Nodup
    exact hsame ▸ h.numbered
  · show ∀ g ∈ w.taken ++ (w.queue ++ [message]).flatMap CacheMessage.gets, _
    exact hsame ▸ h.bounded

theorem CacheWorld.Sound.get (h : w.Sound this K) {key : κ} (hkey : K key) :
    (w.step this conf (.get key)).Sound this K := by
  have hgets : (w.step this conf (.get key)).gets = w.gets ++ [⟨key, w.requests⟩] := by
    simp [CacheWorld.gets, CacheWorld.step, CacheMessage.gets]
  refine ⟨h.kept, ?_, h.replied, h.computing, h.balance, h.waiting, ?_, ?_⟩
  · show ∀ m ∈ w.queue ++ [_], _
    rw [List.forall_mem_append]
    exact ⟨h.queued, fun m hm ↦ List.mem_singleton.1 hm ▸ hkey⟩
  · rw [hgets, List.map_append, List.nodup_append]
    refine ⟨h.numbered, List.nodup_singleton _, fun i hi j hj ↦ ?_⟩
    obtain ⟨g, hg, rfl⟩ := List.mem_map.1 hi
    obtain rfl := List.mem_singleton.1 hj
    exact Nat.ne_of_lt (h.bounded g hg)
  · show ∀ g ∈ (w.step this conf (.get key)).gets, g.id < w.requests + 1
    rw [hgets, List.forall_mem_append]
    exact ⟨fun g hg ↦ Nat.lt_succ_of_lt (h.bounded g hg), by simp⟩

theorem CacheWorld.Sound.manage (hK : ProperKeys this K) (h : w.Sound this K) (now : Int)
    (clock : CacheEntry κ → Int) (hanswer : Answering this K w (.manage now clock)) :
    (w.step this conf (.manage now clock)).Sound this K := by
  cases hqueue : w.queue with
  | nil => simpa only [CacheWorld.step, hqueue] using h
  | cons message queue =>
    have hkeyed := h.queued message (by simp [hqueue])
    obtain ⟨hkept, hbalance, hwaiting, hreplied⟩ := handled_cacheManager conf now hK h.kept clock
      hkeyed (hanswer message (by rw [hqueue]; rfl))
    have hgets : (w.taken ++ message.gets) ++ queue.flatMap CacheMessage.gets = w.gets := by
      rw [CacheWorld.gets, hqueue, List.flatMap_cons, List.append_assoc]
    simp only [CacheWorld.step, hqueue]
    refine ⟨hkept, fun m hm ↦ h.queued m (by simp [hqueue, hm]), ?_, h.computing, fun id ↦ ?_,
      fun g hg ↦ ?_, ?_, ?_⟩
    · rw [List.forall_mem_append]
      refine ⟨h.replied, fun d hd ↦ ?_⟩
      obtain hd | hd := List.mem_append.1 (hreplied d hd)
      · exact h.kept.waiting _ hd
      · exact hkeyed.of_gets hd
    · have hold := h.balance id
      have hnew := hbalance id
      show asked id (cacheManager this conf now clock w.cache message).1.localQueue +
        asked id ((w.replies ++ _).map Prod.fst) = asked id (w.taken ++ message.gets)
      rw [List.map_append, asked_append, asked_append]
      omega
    · exact List.mem_append.2 ((List.mem_append.1 (hwaiting g hg)).imp_left (h.waiting g))
    · show ((w.taken ++ message.gets ++ queue.flatMap CacheMessage.gets).map _).Nodup
      exact hgets ▸ h.numbered
    · show ∀ g ∈ w.taken ++ message.gets ++ queue.flatMap CacheMessage.gets, _
      exact hgets ▸ h.bounded

/-- **One step of a run.** -/
theorem CacheWorld.Sound.step (hK : ProperKeys this K) (h : w.Sound this K) {e : CacheEvent κ}
    (hok : Answering this K w e) : (w.step this conf e).Sound this K := by
  cases e with
  | get key => exact h.get hok
  | manage now clock => exact h.manage hK now clock hok
  | receive i =>
    rw [CacheWorld.step]
    split
    · exact h
    · rename_i g reply hsome
      have hg : K g.key := h.replied _ (List.mem_of_getElem? hsome)
      cases reply with
      | nullMessage =>
        refine ⟨h.kept, h.queued, h.replied, ?_, h.balance, h.waiting, h.numbered, h.bounded⟩
        exact List.forall_mem_cons.2 ⟨hg, h.computing⟩
      | nullQueueDatas | datas d =>
        exact ⟨h.kept, h.queued, h.replied, h.computing, h.balance, h.waiting, h.numbered,
          h.bounded⟩
  | compute i datas =>
    rw [CacheWorld.step]
    split
    · exact h
    · rename_i g hsome
      exact h.push (.insert g.key datas) (h.computing g (List.mem_of_getElem? hsome)) rfl _
        (fun _ hg ↦ List.mem_of_mem_eraseIdx hg) _
  | freeConnection i =>
    rw [CacheWorld.step]
    split
    · exact h
    · rename_i key datas _
      exact h.push (.free key datas) trivial rfl _ (fun _ hg ↦ hg) _
  | refresh => exact h.push .refresh trivial rfl _ (fun _ hg ↦ hg) _
  | reset => exact h.push .reset trivial rfl _ (fun _ hg ↦ hg) _

theorem CacheWorld.sound_of_reach {built : κ → Prop} (hK : ProperKeys this fun k ↦ built k ∧ K k)
    (h : (cacheMachine this conf built).Reach (Answering this K) w) :
    w.Sound this fun k ↦ built k ∧ K k := by
  refine h.invariant (fun s hs ↦ ?_) fun s e hs he hok ↦ hs.step hK ?_
  · obtain rfl := hs
    exact CacheWorld.sound_start
  · cases e with
    | get key => exact ⟨he.2, hok⟩
    | manage | receive | compute | freeConnection | refresh | reset => exact hok

/-- The hash has one entry for a key. -/
theorem Cache.Kept.find?_eq {cache : Cache κ} (hK : ProperKeys this K) (h : cache.Kept this K)
    {key : κ} (hkey : K key) {e : CacheEntry κ} (he : e ∈ cache.hash)
    (heq : this.equalKey e.key key = true) : cache.hash.find? (this.holds key) = some e := by
  have hek : K e.key := h.keys e he
  have hholds := (hK.holds_iff hkey hek).2 heq
  obtain ⟨e', hsome⟩ := Option.isSome_iff_exists.1 (List.find?_isSome.2 ⟨e, he, hholds⟩)
  obtain ⟨l₁, l₂, hl, hholds', hfirst⟩ := exists_split_of_find? hsome
  have he' : K e'.key := h.keys e' (by simp [hl])
  rw [hl, List.mem_append, List.mem_cons] at he
  obtain he | rfl | hlast := he
  · exact absurd hholds (by simp [hfirst e he])
  · exact hsome
  · -- the keys of both equal the given one, so that the hash holds one key twice
    have hdistinct := h.distinct
    rw [hl, List.map_append, List.map_cons, List.pairwise_append, List.pairwise_cons] at hdistinct
    have hne := hdistinct.2.1.1 e.key (List.mem_map_of_mem hlast)
    rw [hK.trans he' hkey hek ((hK.holds_iff hkey he').1 hholds') (hK.symm hek hkey heq)] at hne
    exact absurd hne (by decide)

/-- The entry a parked GET waits for is the one the hash has for its key. -/
theorem Cache.Kept.find?_parked {cache : Cache κ} (hK : ProperKeys this K) (h : cache.Kept this K)
    {g : GetMessage κ} (hg : g ∈ cache.localQueue) :
    ∃ e, cache.hash.find? (this.holds g.key) = some e ∧ e.refreshing = true := by
  obtain ⟨e, he, hrefreshing, heq⟩ := h.parked g hg
  exact ⟨e, h.find?_eq hK (h.waiting g hg) he heq, hrefreshing⟩

theorem asked_eq_count (id : ℕ) (messages : List (GetMessage κ)) :
    asked id messages = (messages.map GetMessage.id).count id := by
  rw [List.count, List.countP_map]
  exact List.countP_congr fun g _ ↦ by simp

/-- **Who has been taken and does not wait for a refresh has one reply.** -/
theorem CacheWorld.Sound.answered (hK : ProperKeys this K) (h : w.Sound this K)
    {g : GetMessage κ} (hg : g ∈ w.taken)
    (hentry : ∀ e, w.cache.hash.find? (this.holds g.key) = some e → e.refreshing = false) :
    w.replies.countP (fun d ↦ d.1.id = g.id) = 1 ∧ g ∉ w.cache.localQueue := by
  have hleft : g ∉ w.cache.localQueue := by
    intro hwaits
    obtain ⟨e, hsome, hrefreshing⟩ := h.kept.find?_parked hK hwaits
    rw [hentry e hsome] at hrefreshing
    exact absurd hrefreshing (by decide)
  have hnodup : (w.taken.map GetMessage.id).Nodup := by
    have hnumbered := h.numbered
    rw [CacheWorld.gets, List.map_append] at hnumbered
    exact hnumbered.of_append_left
  have htaken : asked g.id w.taken = 1 := by
    rw [asked_eq_count]
    exact List.count_eq_one_of_mem hnodup (List.mem_map_of_mem hg)
  have hwaiting : asked g.id w.cache.localQueue = 0 := by
    refine List.countP_eq_zero.2 fun g' hg' hid ↦ hleft ?_
    rw [← List.inj_on_of_nodup_map hnodup (h.waiting g' hg') hg (by simpa using hid)]
    exact hg'
  refine ⟨?_, hleft⟩
  have hreplies : w.replies.countP (fun d ↦ d.1.id = g.id) =
      asked g.id (w.replies.map Prod.fst) := by
    rw [asked, List.countP_map]
    rfl
  have hbalance := h.balance g.id
  omega

end

end Nufw
