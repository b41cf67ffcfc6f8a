import Nufw.Nuauth.AclCache
import Nufw.Nuauth.CacheUsage

/-!
# Datas in use are not freed

The usage counts of the ACL cache over whole runs. A pointer is used by the connections that hold
it, by the replies that have been pushed and not been read, and by the FREEs on their way; an INSERT
on its way brings one use with it. What the table stores for a pointer, with the INSERTs, is the
number of its uses at any time (`Counted.stored`), and a pointer is in one place of the table or in
one INSERT (`Counted.places`). An entry is refreshing for just as many clients as have been told to
look for themselves and whose INSERT has not been taken (`Counted.refreshing`).

The lists of ACLs are allocated by the modules: a pointer that a module returns is of the heap, and
not that of datas that are still around (`Allocates`). After datas have been freed their address
may come again.
-/

namespace Nufw

variable {κ : Type}

/-! ### Uses -/

/-- The replies that have been pushed and not been read. -/
def CacheWorld.unread (w : CacheWorld κ) : List (Delivery κ) :=
  w.replies.filter fun x ↦ x.1.id ∉ w.received

/-- The GETs on their way, parked, or answered and not read. -/
def CacheWorld.waiting (w : CacheWorld κ) : List (GetMessage κ) :=
  w.unread.map Prod.fst ++ w.cache.localQueue ++ w.queue.flatMap CacheMessage.gets

/-- How many connections hold the datas, or will when they read their reply. -/
def CacheWorld.holders (w : CacheWorld κ) (d : ℕ) : ℕ :=
  total (fun u ↦ if u.2 = d then 1 else 0) w.holding + total (handsOut d) w.unread

/-- How many clients have been told to look for the key, whose INSERT has not been taken: those that
have not read the reply, those that call the modules, and those whose INSERT is on its way. -/
def CacheWorld.outstanding (this : CacheClass κ) (w : CacheWorld κ) (key : κ) : ℕ :=
  total (tells this key) w.unread +
    total (fun g ↦ if this.equalKey g.key key = true then 1 else 0) w.computing +
    total (CacheMessage.completes this key) w.queue

/-- How many INSERTs on their way bring the datas. -/
def CacheWorld.brought (w : CacheWorld κ) (d : ℕ) : ℕ := total (CacheMessage.brings d) w.queue

/-- The datas are used, and will be given back under the key. -/
def CacheWorld.Uses (w : CacheWorld κ) (key : κ) (d : ℕ) : Prop :=
  (key, d) ∈ w.holding ∨ (∃ x ∈ w.unread, x.1.key = key ∧ x.2 = .datas d) ∨
    CacheMessage.free key d ∈ w.queue

/-- What the modules return has just been allocated: it is in the heap, and no content and no INSERT
holds it. -/
def Allocates (heap : ℕ → Prop) (w : CacheWorld κ) : CacheEvent κ → Prop
  | .compute _ (some d) => heap d ∧ w.cache.places d = 0 ∧ w.brought d = 0
  | _ => True

/-- The clients look up keys of the set, and the modules allocate what they return. -/
def Following (heap : ℕ → Prop) (K : κ → Prop) (w : CacheWorld κ) (e : CacheEvent κ) : Prop :=
  e.AsksFor K ∧ Allocates heap w e

/-- The key a message is looked up with. -/
def CacheMessage.key? : CacheMessage κ → Option κ
  | .get g => some g.key
  | .insert key _ => some key
  | .free key _ => some key
  | _ => none

/-- **The invariant of a run.** -/
structure CacheWorld.Counted (this : CacheClass κ) (K : κ → Prop) (heap : ℕ → Prop)
    (w : CacheWorld κ) : Prop where
  kept : w.cache.Kept this K
  faults : w.cache.faults = []
  queued : ∀ m ∈ w.queue, ∀ key ∈ m.key?, K key
  replied : ∀ x ∈ w.unread, K x.1.key
  computing : ∀ g ∈ w.computing, K g.key
  holding : ∀ u ∈ w.holding, K u.1
  numbered : ∀ id, asked id w.waiting ≤ 1
  fresh : ∀ id, asked id w.waiting ≠ 0 → id ∉ w.received ∧ id < w.requests
  received : ∀ id ∈ w.received, id < w.requests
  refreshing : ∀ key, K key → w.cache.refreshes this key = w.outstanding this key
  places : ∀ d, w.cache.places d + w.brought d ≤ 1
  stored : ∀ d, w.cache.stored d + w.brought d =
    w.holders d + total (CacheMessage.releases d) w.queue
  /-- The datas of an entry are used under its key. -/
  located : ∀ key d, w.Uses key d → ∀ e ∈ w.cache.hash, e.places d ≠ 0 →
    this.equalKey e.key key = true
  awaited : ∀ key d, w.Uses key d → ∀ k, .insert k (some d) ∈ w.queue →
    this.equalKey k key = true
  /-- A FREE does not overtake the INSERT of its datas. -/
  order : w.queue.Pairwise fun m m' ↦ ∀ d, m'.brings d ≠ 0 → m.releases d = 0
  pointers : ∀ d, w.cache.places d + w.brought d ≠ 0 → heap d

/-! ### The steps of the clients -/

section

variable {this : CacheClass κ} {K : κ → Prop} {heap : ℕ → Prop} {conf : Params} {w : CacheWorld κ}

theorem CacheWorld.counted_start : (CacheWorld.start : CacheWorld κ).Counted this K heap where
  kept := CacheWorld.sound_start.kept
  faults := rfl
  queued _ hm := absurd hm List.not_mem_nil
  replied _ hx := absurd hx List.not_mem_nil
  computing _ hg := absurd hg List.not_mem_nil
  holding _ hu := absurd hu List.not_mem_nil
  numbered _ := Nat.zero_le _
  fresh _ hid := absurd rfl hid
  received _ hid := absurd hid List.not_mem_nil
  refreshing _ _ := rfl
  places _ := Nat.zero_le _
  stored _ := rfl
  located _ _ _ _ he := absurd he List.not_mem_nil
  awaited _ _ _ _ hk := absurd hk List.not_mem_nil
  order := List.Pairwise.nil
  pointers _ hd := absurd rfl hd

/-- Who uses datas is counted. -/
theorem CacheWorld.Uses.ne_zero {key : κ} {d : ℕ} (h : w.Uses key d) :
    w.holders d + total (CacheMessage.releases d) w.queue ≠ 0 := by
  rw [CacheWorld.holders]
  rcases h with hu | ⟨x, hx, -, hd⟩ | hm
  · have hle := apply_le_total (f := fun u : κ × ℕ ↦ if u.2 = d then 1 else 0) hu
    rw [if_pos rfl] at hle
    omega
  · have hle := apply_le_total (f := handsOut d) hx
    rw [handsOut, if_pos hd] at hle
    omega
  · have hle := apply_le_total (f := CacheMessage.releases d) hm
    rw [CacheMessage.releases, if_pos rfl] at hle
    omega

theorem CacheWorld.brought_ne_zero {key : κ} {d : ℕ} (h : .insert key (some d) ∈ w.queue) :
    w.brought d ≠ 0 := by
  have hle := apply_le_total (f := CacheMessage.brings d) h
  rw [CacheMessage.brings, if_pos rfl] at hle
  rw [CacheWorld.brought]
  omega

/-- A message that brings nothing and gives nothing back. -/
theorem CacheWorld.Counted.push (h : w.Counted this K heap) {m : CacheMessage κ} {requests : ℕ}
    (hbrings : ∀ d, m.brings d = 0) (hreleases : ∀ d, m.releases d = 0)
    (hcompletes : ∀ key, m.completes this key = 0) (hkey : ∀ key ∈ m.key?, K key)
    (hrequests : w.requests ≤ requests)
    (hgets : ∀ id, asked id m.gets ≤ 1 ∧
      (asked id m.gets ≠ 0 → w.requests ≤ id ∧ id < requests)) :
    CacheWorld.Counted this K heap
      { w with queue := w.queue ++ [m], requests := requests } := by
  have hasked (id : ℕ) : asked id (CacheWorld.waiting
      { w with queue := w.queue ++ [m], requests := requests }) =
        asked id w.waiting + asked id m.gets := by
    simp [CacheWorld.waiting, CacheWorld.unread, Nat.add_assoc]
  have hbrought (d : ℕ) : total (CacheMessage.brings d) (w.queue ++ [m]) = w.brought d := by
    rw [total_append, total_cons, total_nil, hbrings]
    rfl
  have hfree {key : κ} {d : ℕ} (hm : .free key d ∈ w.queue ++ [m]) :
      CacheMessage.free key d ∈ w.queue := by
    refine (List.mem_append.1 hm).elim id fun hm ↦ ?_
    obtain rfl := List.mem_singleton.1 hm
    exact absurd (hreleases d) (by simp [CacheMessage.releases])
  have hinsert {key : κ} {d : ℕ} (hm : .insert key (some d) ∈ w.queue ++ [m]) :
      CacheMessage.insert key (some d) ∈ w.queue := by
    refine (List.mem_append.1 hm).elim id fun hm ↦ ?_
    obtain rfl := List.mem_singleton.1 hm
    exact absurd (hbrings d) (by simp [CacheMessage.brings])
  have huses {key : κ} {d : ℕ} (hu : CacheWorld.Uses
      { w with queue := w.queue ++ [m], requests := requests } key d) : w.Uses key d :=
    hu.imp_right (Or.imp_right hfree)
  refine ⟨h.kept, h.faults, ?_, h.replied, h.computing, h.holding, fun id ↦ ?_, fun id hid ↦ ?_,
    fun id hid ↦ Nat.lt_of_lt_of_le (h.received id hid) hrequests, fun key hk ↦ ?_, fun d ↦ ?_,
    fun d ↦ ?_, fun key d hu ↦ h.located key d (huses hu),
    fun key d hu k hk ↦ h.awaited key d (huses hu) k (hinsert hk), ?_, fun d hd ↦ ?_⟩
  · rw [List.forall_mem_append]
    exact ⟨h.queued, by simpa using hkey⟩
  · have hle := h.numbered id
    obtain ⟨hle', hnew⟩ := hgets id
    rw [hasked]
    by_contra hgt
    have hlt := (h.fresh id (by omega)).2
    have hge := (hnew (by omega)).1
    omega
  · rw [hasked] at hid
    rcases Nat.eq_zero_or_pos (asked id w.waiting) with hzero | hpos
    · obtain ⟨hge, hlt⟩ := (hgets id).2 (by omega)
      exact ⟨fun hid' ↦ absurd (h.received id hid') (by omega), hlt⟩
    · obtain ⟨hread, hlt⟩ := h.fresh id (by omega)
      exact ⟨hread, Nat.lt_of_lt_of_le hlt hrequests⟩
  · rw [h.refreshing key hk, CacheWorld.outstanding, CacheWorld.outstanding, total_append,
      total_cons, total_nil, hcompletes]
    rfl
  · have hle := h.places d
    rw [CacheWorld.brought, hbrought]
    exact hle
  · rw [CacheWorld.brought, hbrought, total_append, total_cons, total_nil, hreleases]
    exact h.stored d
  · rw [List.pairwise_append]
    refine ⟨h.order, List.pairwise_singleton _ _, fun m' _ m'' hm'' d hd ↦ ?_⟩
    obtain rfl := List.mem_singleton.1 hm''
    exact absurd (hbrings d) hd
  · rw [CacheWorld.brought, hbrought] at hd
    exact h.pointers d hd

/-- A reply that is read leaves the ones that are not. -/
theorem CacheWorld.Counted.unread_perm (h : w.Counted this K heap) {x : Delivery κ}
    (hx : x ∈ w.unread) : w.unread.Perm
      (x :: CacheWorld.unread { w with received := x.1.id :: w.received }) := by
  have hone : w.unread.countP (fun y ↦ y.1.id = x.1.id) ≤ 1 := by
    have hle := h.numbered x.1.id
    rw [CacheWorld.waiting, asked_append, asked_append, asked, List.countP_map] at hle
    exact Nat.le_trans (Nat.le_trans (Nat.le_add_right _ _) (Nat.le_add_right _ _)) hle
  have hunread : CacheWorld.unread { w with received := x.1.id :: w.received } =
      w.unread.filter fun y ↦ y.1.id ≠ x.1.id := by
    rw [CacheWorld.unread, CacheWorld.unread, List.filter_filter]
    exact List.filter_congr fun y _ ↦ by simp
  rw [hunread]
  exact perm_cons_filter_ne (fun y : Delivery κ ↦ y.1.id) hx hone

/-- **A client reads its reply.** -/
theorem CacheWorld.Counted.read (h : w.Counted this K heap) {x : Delivery κ} (hx : x ∈ w.unread)
    {computing : List (GetMessage κ)} {holding : List (κ × ℕ)}
    (hcomputing : ∀ g ∈ computing, g ∈ w.computing ∨ g = x.1)
    (htells : ∀ key, total (fun g ↦ if this.equalKey g.key key = true then 1 else 0) computing =
      tells this key x +
        total (fun g ↦ if this.equalKey g.key key = true then 1 else 0) w.computing)
    (hholding : ∀ u ∈ holding, u ∈ w.holding ∨ (u.1 = x.1.key ∧ x.2 = .datas u.2))
    (hhands : ∀ d, total (fun u ↦ if u.2 = d then 1 else 0) holding =
      handsOut d x + total (fun u ↦ if u.2 = d then 1 else 0) w.holding) :
    CacheWorld.Counted this K heap
      { w with received := x.1.id :: w.received, computing := computing, holding := holding } := by
  have hperm := h.unread_perm hx
  have hsub {y : Delivery κ}
      (hy : y ∈ CacheWorld.unread { w with received := x.1.id :: w.received }) : y ∈ w.unread :=
    hperm.mem_iff.2 (List.mem_cons_of_mem _ hy)
  have hasked (id : ℕ) : asked id w.waiting = (if x.1.id = id then 1 else 0) +
      asked id (CacheWorld.waiting { w with received := x.1.id :: w.received }) := by
    have hcount : asked id (w.unread.map Prod.fst) = (if x.1.id = id then 1 else 0) +
        asked id
          ((CacheWorld.unread { w with received := x.1.id :: w.received }).map Prod.fst) := by
      rw [asked, (hperm.map Prod.fst).countP_eq, List.map_cons, List.countP_cons, Nat.add_comm]
      simp [asked]
    rw [CacheWorld.waiting, CacheWorld.waiting, asked_append, asked_append, asked_append,
      asked_append, hcount]
    show _ = _ + (_ + asked id w.cache.localQueue + asked id (w.queue.flatMap _))
    omega
  have hid : asked x.1.id w.waiting ≠ 0 := by rw [hasked, if_pos rfl]; omega
  have huses {key : κ} {d : ℕ} (hu : CacheWorld.Uses
      { w with received := x.1.id :: w.received, computing := computing, holding := holding }
      key d) :
      w.Uses key d := by
    obtain hu | ⟨y, hy, hrest⟩ | hu := hu
    · exact (hholding _ hu).imp id fun hu ↦ Or.inl ⟨x, hx, hu.1.symm, hu.2⟩
    · exact Or.inr (Or.inl ⟨y, hsub hy, hrest⟩)
    · exact Or.inr (Or.inr hu)
  refine ⟨h.kept, h.faults, h.queued, fun y hy ↦ h.replied y (hsub hy), fun g hg ↦ ?_,
    fun u hu ↦ ?_, fun id ↦ ?_, fun id hne ↦ ?_, ?_, fun key hkey ↦ ?_, h.places, fun d ↦ ?_,
    fun key d hu ↦ h.located key d (huses hu), fun key d hu ↦ h.awaited key d (huses hu), h.order,
    h.pointers⟩
  · exact (hcomputing g hg).elim (h.computing g) fun hg ↦ hg ▸ h.replied x hx
  · exact (hholding u hu).elim (h.holding u) fun hu ↦ hu.1 ▸ h.replied x hx
  · have hle := h.numbered id
    rw [hasked] at hle
    exact Nat.le_trans (Nat.le_add_left _ _) hle
  · have hle := h.numbered id
    rw [hasked] at hle
    have hne' : asked id
      (CacheWorld.waiting { w with received := x.1.id :: w.received }) ≠ 0 := hne
    obtain ⟨hread, hlt⟩ := h.fresh id (by rw [hasked]; omega)
    refine ⟨fun hmem ↦ ?_, hlt⟩
    obtain rfl | hmem := List.mem_cons.1 hmem
    · rw [if_pos rfl] at hle
      omega
    · exact hread hmem
  · exact List.forall_mem_cons.2 ⟨(h.fresh _ hid).2, h.received⟩
  · have heq := h.refreshing key hkey
    rw [CacheWorld.outstanding, total_perm _ hperm, total_cons] at heq
    rw [heq]
    show _ = total (tells this key) (CacheWorld.unread { w with received := _ }) +
      total _ computing + total _ w.queue
    rw [htells]
    omega
  · have heq := h.stored d
    rw [CacheWorld.holders, total_perm _ hperm, total_cons] at heq
    show w.cache.stored d + w.brought d = total _ holding +
      total (handsOut d) (CacheWorld.unread { w with received := _ }) + total _ w.queue
    rw [heq, hhands]
    omega

/-- Nobody uses a pointer that has just been allocated. -/
theorem CacheWorld.Counted.unused (h : w.Counted this K heap) {d : ℕ}
    (hplaces : w.cache.places d = 0)
    (hbrought : w.brought d = 0) :
    w.holders d + total (CacheMessage.releases d) w.queue = 0 := by
  have hstored := h.stored d
  rw [Cache.stored, total_entryStored_eq_zero hplaces, hbrought] at hstored
  exact hstored.symm

/-- **A client sends its INSERT**, and holds what it has found. -/
theorem CacheWorld.Counted.compute (hK : ProperKeys this K) (h : w.Counted this K heap) {i : ℕ}
    {datas : Option ℕ} (hallocates : Allocates heap w (.compute i datas)) :
    (w.step this conf (.compute i datas)).Counted this K heap := by
  rw [CacheWorld.step]
  split
  · exact h
  rename_i g hsome
  obtain ⟨l₁, l₂, hl, herase⟩ := exists_split_of_getElem? hsome
  have hg : K g.key := h.computing g (by simp [hl])
  -- what is new about a pointer, if the INSERT brings one
  have hnew {d : ℕ} (hd : datas = some d) : heap d ∧ w.cache.places d = 0 ∧ w.brought d = 0 := by
    subst hd
    exact hallocates
  have hunused {d : ℕ} (hd : datas = some d) := h.unused (hnew hd).2.1 (hnew hd).2.2
  have hbrought (d : ℕ) : total (CacheMessage.brings d) (w.queue ++ [.insert g.key datas]) =
      w.brought d + if datas = some d then 1 else 0 := by
    rw [total_append]
    rfl
  have huses {key : κ} {d : ℕ} (hu : CacheWorld.Uses { w with
      queue := w.queue ++ [.insert g.key datas]
      computing := w.computing.eraseIdx i
      holding := datas.toList.map (fun d ↦ (g.key, d)) ++ w.holding } key d) :
      (datas = some d ∧ key = g.key) ∨ (datas ≠ some d ∧ w.Uses key d) := by
    have hold : w.Uses key d → datas ≠ some d := fun hu hd ↦ hu.ne_zero (hunused hd)
    obtain hu | hu | hu := hu
    · obtain hu | hu := List.mem_append.1 hu
      · obtain ⟨d', hd', heq⟩ := List.mem_map.1 hu
        obtain ⟨rfl, rfl⟩ := Prod.mk.inj heq
        exact Or.inl ⟨Option.mem_toList.1 hd', rfl⟩
      · exact Or.inr ⟨hold (Or.inl hu), Or.inl hu⟩
    · exact Or.inr ⟨hold (Or.inr (Or.inl hu)), Or.inr (Or.inl hu)⟩
    · obtain hu | hu := List.mem_append.1 hu
      · exact Or.inr ⟨hold (Or.inr (Or.inr hu)), Or.inr (Or.inr hu)⟩
      · cases List.mem_singleton.1 hu
  refine ⟨h.kept, h.faults, ?_, h.replied, ?_, ?_, fun id ↦ ?_, fun id hid ↦ ?_, h.received,
    fun key hkey ↦ ?_, fun d ↦ ?_, fun d ↦ ?_, fun key d hu e he hplace ↦ ?_,
    fun key d hu k hk ↦ ?_, ?_, fun d hd ↦ ?_⟩
  · rw [List.forall_mem_append]
    exact ⟨h.queued, by simpa [CacheMessage.key?] using hg⟩
  · exact fun g' hg' ↦ h.computing g' (List.mem_of_mem_eraseIdx hg')
  · rw [List.forall_mem_append]
    exact ⟨by simpa using fun _ _ ↦ hg, h.holding⟩
  · have hle := h.numbered id
    simpa [CacheWorld.waiting, CacheWorld.unread, CacheMessage.gets] using hle
  · refine h.fresh id ?_
    simpa [CacheWorld.waiting, CacheWorld.unread, CacheMessage.gets] using hid
  · rw [h.refreshing key hkey, CacheWorld.outstanding, total_split hl, herase]
    show _ = total (tells this key) w.unread + total _ (l₁ ++ l₂) + total _ (w.queue ++ [_])
    rw [total_append _ w.queue, total_cons, total_nil, CacheMessage.completes]
    omega
  · have hle := h.places d
    rw [CacheWorld.brought, hbrought]
    split_ifs with hd
    · have hzero := (hnew hd).2
      show w.cache.places d + _ ≤ 1
      omega
    · exact hle
  · have heq := h.stored d
    rw [CacheWorld.brought, hbrought, CacheWorld.holders, total_append, total_append, total_cons,
      total_nil]
    rw [CacheWorld.holders] at heq
    have hhold : total (fun u : κ × ℕ ↦ if u.2 = d then 1 else 0)
        (datas.toList.map fun d ↦ (g.key, d)) = if datas = some d then 1 else 0 := by
      cases datas <;> simp
    rw [hhold]
    show w.cache.stored d + _ = _ + total (handsOut d) w.unread + (_ + (0 + 0))
    omega
  · obtain ⟨hd, -⟩ | ⟨-, hu⟩ := huses hu
    · have hle : e.places d ≤ w.cache.places d := apply_le_total he
      exact absurd (hnew hd).2.1 (by omega)
    · exact h.located key d hu e he hplace
  · obtain hk | hk := List.mem_append.1 hk
    · obtain ⟨hd, -⟩ | ⟨-, hu⟩ := huses hu
      · exact absurd (hnew hd).2.2 (CacheWorld.brought_ne_zero hk)
      · exact h.awaited key d hu k hk
    · obtain ⟨rfl, rfl⟩ := CacheMessage.insert.inj (List.mem_singleton.1 hk)
      obtain ⟨-, rfl⟩ | ⟨hne, -⟩ := huses hu
      · exact hK.refl hg
      · exact absurd rfl hne
  · rw [List.pairwise_append]
    refine ⟨h.order, List.pairwise_singleton _ _, fun m hm m' hm' d hd ↦ ?_⟩
    obtain rfl := List.mem_singleton.1 hm'
    have hdatas : datas = some d := of_not_not fun hne ↦ hd (if_neg hne)
    have hle := apply_le_total (f := CacheMessage.releases d) hm
    have hzero := hunused hdatas
    omega
  · rw [CacheWorld.brought, hbrought] at hd
    split_ifs at hd with hdatas
    · exact (hnew hdatas).1
    · exact h.pointers d hd

/-- **A connection is freed.** -/
theorem CacheWorld.Counted.free (h : w.Counted this K heap) (i : ℕ) :
    (w.step this conf (.freeConnection i)).Counted this K heap := by
  rw [CacheWorld.step]
  split
  · exact h
  rename_i key d hsome
  obtain ⟨l₁, l₂, hl, herase⟩ := exists_split_of_getElem? hsome
  have huses {key' : κ} {d' : ℕ} (hu : CacheWorld.Uses { w with
      queue := w.queue ++ [.free key d]
      holding := w.holding.eraseIdx i } key' d') : w.Uses key' d' := by
    obtain hu | hu | hu := hu
    · exact Or.inl (List.mem_of_mem_eraseIdx hu)
    · exact Or.inr (Or.inl hu)
    · obtain hu | hu := List.mem_append.1 hu
      · exact Or.inr (Or.inr hu)
      · obtain ⟨rfl, rfl⟩ := CacheMessage.free.inj (List.mem_singleton.1 hu)
        exact Or.inl (by simp [hl])
  have hbrought (d' : ℕ) : total (CacheMessage.brings d') (w.queue ++ [.free key d]) =
      w.brought d' := by
    rw [total_append]
    rfl
  refine ⟨h.kept, h.faults, ?_, h.replied, h.computing, ?_, fun id ↦ ?_, fun id hid ↦ ?_,
    h.received, fun k hk ↦ ?_, fun d' ↦ ?_, fun d' ↦ ?_, fun k d' hu ↦ h.located k d' (huses hu),
    fun k d' hu k' hk' ↦ h.awaited k d' (huses hu) k' ?_, ?_, fun d' hd' ↦ ?_⟩
  · rw [List.forall_mem_append]
    refine ⟨h.queued, ?_⟩
    simpa [CacheMessage.key?] using h.holding (key, d) (by simp [hl])
  · exact fun u hu ↦ h.holding u (List.mem_of_mem_eraseIdx hu)
  · have hle := h.numbered id
    simpa [CacheWorld.waiting, CacheWorld.unread, CacheMessage.gets] using hle
  · refine h.fresh id ?_
    simpa [CacheWorld.waiting, CacheWorld.unread, CacheMessage.gets] using hid
  · rw [h.refreshing k hk, CacheWorld.outstanding, CacheWorld.outstanding, total_append]
    rfl
  · rw [CacheWorld.brought, hbrought]
    exact h.places d'
  · have heq := h.stored d'
    rw [CacheWorld.holders, total_split hl] at heq
    show w.cache.stored d' + total _ (w.queue ++ [.free key d]) = total _ (w.holding.eraseIdx i) +
      total (handsOut d') w.unread + total _ (w.queue ++ [.free key d])
    rw [hbrought, heq, herase, total_append _ w.queue, total_cons, total_nil,
      CacheMessage.releases]
    have hcomm : (if d' = d then 1 else 0) = if d = d' then 1 else 0 := by simp only [eq_comm]
    rw [hcomm]
    show (if d = d' then 1 else 0) + _ + _ + _ = _
    omega
  · obtain hk' | hk' := List.mem_append.1 hk'
    · exact hk'
    · cases List.mem_singleton.1 hk'
  · rw [List.pairwise_append]
    refine ⟨h.order, List.pairwise_singleton _ _, fun m _ m' hm' d' hd' ↦ ?_⟩
    obtain rfl := List.mem_singleton.1 hm'
    exact absurd rfl hd'
  · rw [CacheWorld.brought, hbrought] at hd'
    exact h.pointers d' hd'

/-! ### The step of the manager -/

theorem CacheMessage.Keyed.of_key? {m : CacheMessage κ} (h : ∀ key ∈ m.key?, K key) :
    m.Keyed K := by
  cases m with
  | get g => exact h _ rfl
  | insert key datas => exact h _ rfl
  | free | refresh | reset => trivial

/-- Datas are in one entry. -/
theorem Cache.eq_of_places {cache : Cache κ} {d : ℕ} (hone : cache.places d ≤ 1)
    {e e' : CacheEntry κ} (he : e ∈ cache.hash) (he' : e' ∈ cache.hash) (hplace : e.places d ≠ 0)
    (hplace' : e'.places d ≠ 0) : e = e' := by
  obtain ⟨l₁, l₂, hl⟩ := List.append_of_mem he
  rw [Cache.places, total_split hl] at hone
  have hrest {e' : CacheEntry κ} (he' : e' ∈ l₁ ++ l₂) : e'.places d = 0 := by
    have hle := apply_le_total (f := CacheEntry.places d) he'
    omega
  rw [hl, List.mem_append, List.mem_cons] at he'
  obtain he' | rfl | he' := he'
  · exact absurd (hrest (List.mem_append_left _ he')) hplace'
  · rfl
  · exact absurd (hrest (List.mem_append_right _ he')) hplace'

theorem asked_ne_zero {g : GetMessage κ} {l : List (GetMessage κ)} (h : g ∈ l) :
    asked g.id l ≠ 0 := by
  rw [asked, Ne, List.countP_eq_zero]
  exact fun hnone ↦ hnone g h (decide_eq_true rfl)

theorem CacheWorld.Counted.key_of_uses (h : w.Counted this K heap) {key : κ} {d : ℕ}
    (hu : w.Uses key d) : K key := by
  obtain hu | ⟨x, hx, rfl, -⟩ | hu := hu
  · exact h.holding _ hu
  · exact h.replied x hx
  · exact h.queued _ hu key rfl

/-- The message the manager takes finds what it is about. -/
theorem CacheWorld.Counted.expected (hK : ProperKeys this K) (h : w.Counted this K heap)
    {m : CacheMessage κ} {queue : List (CacheMessage κ)} (hqueue : w.queue = m :: queue) :
    m.Expected this K w.cache := by
  have hkeys := h.queued m (by simp [hqueue])
  cases m with
  | get g => exact hkeys _ rfl
  | insert key datas =>
    have hkey : K key := hkeys _ rfl
    refine ⟨hkey, ?_⟩
    rw [h.refreshing key hkey, CacheWorld.outstanding, hqueue, total_cons, CacheMessage.completes,
      if_pos (hK.refl hkey)]
    omega
  | free key d =>
    refine ⟨hkeys _ rfl, ?_⟩
    have huse : w.Uses key d := Or.inr (Or.inr (by simp [hqueue]))
    have horder := h.order
    rw [hqueue, List.pairwise_cons] at horder
    -- the INSERT of the datas would be before the FREE
    have hbrought : w.brought d = 0 := by
      rw [CacheWorld.brought, hqueue]
      refine total_eq_zero fun m hm ↦ ?_
      obtain rfl | hm := List.mem_cons.1 hm
      · rfl
      · by_contra hne
        have hzero := horder.1 m hm d hne
        rw [CacheMessage.releases, if_pos rfl] at hzero
        exact absurd hzero (by decide)
    have hstored := h.stored d
    have hne := huse.ne_zero
    obtain ⟨e, he, hplace⟩ := exists_of_total_ne_zero
      (show w.cache.stored d ≠ 0 by omega)
    refine ⟨e, he, h.located key d huse e he fun hzero ↦ hplace ?_, hplace⟩
    exact total_stored_eq_zero hzero
  | refresh | reset => trivial

/-- A GET that is answered had no reply before. -/
theorem CacheWorld.Counted.unread_append (h : w.Counted this K heap) {m : CacheMessage κ}
    {queue : List (CacheMessage κ)} (hqueue : w.queue = m :: queue) {deliveries : List (Delivery κ)}
    (hreplied : ∀ x ∈ deliveries, x.1 ∈ w.cache.localQueue ++ m.gets) :
    (w.replies ++ deliveries).filter (fun x ↦ x.1.id ∉ w.received) = w.unread ++ deliveries := by
  have hnew : ∀ x ∈ deliveries, x.1.id ∉ w.received := by
    intro x hx
    refine (h.fresh x.1.id (asked_ne_zero ?_)).1
    rw [CacheWorld.waiting, hqueue, List.flatMap_cons, List.mem_append, List.mem_append,
      List.mem_append]
    exact (List.mem_append.1 (hreplied x hx)).elim (fun hx ↦ Or.inl (Or.inr hx))
      fun hx ↦ Or.inr (Or.inl hx)
  rw [List.filter_append, CacheWorld.unread]
  exact congrArg _ (List.filter_eq_self.2 fun x hx ↦ decide_eq_true (hnew x hx))

/-- **The manager takes a message.** -/
theorem CacheWorld.Counted.manage (hK : ProperKeys this K) (hheap : PointersDiffer heap)
    (h : w.Counted this K heap) (now : Int) (clock : CacheEntry κ → Int) :
    (w.step this conf (.manage now clock)).Counted this K heap := by
  cases hqueue : w.queue with
  | nil => simpa only [CacheWorld.step, hqueue] using h
  | cons m queue =>
    have hkeyed := CacheMessage.Keyed.of_key? (h.queued m (by simp [hqueue]))
    have hone (d : ℕ) : w.cache.places d ≤ 1 := Nat.le_trans (Nat.le_add_right _ _) (h.places d)
    have hturn := turn_cacheManager conf now hK h.kept hone hheap clock
      (fun d hd ↦ h.pointers d (by omega)) (h.expected hK hqueue)
    have hkept := kept_cacheManager conf now hK h.kept clock hkeyed
    obtain ⟨hasked, hreplied⟩ := asked_cacheManager_le conf now hK h.kept clock hkeyed
    simp only [CacheWorld.step, hqueue]
    generalize cacheManager this conf now clock w.cache m = r at hturn hkept hasked hreplied ⊢
    have hunread : CacheWorld.unread { w with
        cache := r.1
        queue := queue
        replies := w.replies ++ r.2
        taken := w.taken ++ m.gets } = w.unread ++ r.2 := h.unread_append hqueue hreplied
    have hwaiting (id : ℕ) : asked id (CacheWorld.waiting { w with
        cache := r.1
        queue := queue
        replies := w.replies ++ r.2
        taken := w.taken ++ m.gets }) ≤ asked id w.waiting := by
      have hle := hasked id
      rw [CacheWorld.waiting, CacheWorld.waiting, hunread, hqueue, List.map_append,
        List.flatMap_cons]
      simp only [asked_append]
      omega
    have huses {key : κ} {d : ℕ} (hu : CacheWorld.Uses { w with
        cache := r.1
        queue := queue
        replies := w.replies ++ r.2
        taken := w.taken ++ m.gets } key d) :
        w.Uses key d ∨ ∃ x ∈ r.2, x.1.key = key ∧ x.2 = .datas d := by
      obtain hu | ⟨x, hx, hrest⟩ | hu := hu
      · exact Or.inl (Or.inl hu)
      · rw [hunread] at hx
        obtain hx | hx := List.mem_append.1 hx
        · exact Or.inl (Or.inr (Or.inl ⟨x, hx, hrest⟩))
        · exact Or.inr ⟨x, hx, hrest⟩
      · exact Or.inl (Or.inr (Or.inr (by rw [hqueue]; exact List.mem_cons_of_mem _ hu)))
    have hbrought (d : ℕ) : w.brought d = m.brings d + total (CacheMessage.brings d) queue := by
      rw [CacheWorld.brought, hqueue, total_cons]
    have hplaces (d : ℕ) : r.1.places d + total (CacheMessage.brings d) queue ≤ 1 := by
      have hle := h.places d
      have hle' := hturn.places d
      rw [hbrought] at hle
      omega
    refine ⟨hkept, hturn.faults.trans h.faults, fun m' hm' ↦ h.queued m' (by simp [hqueue, hm']),
      ?_, h.computing, h.holding, fun id ↦ Nat.le_trans (hwaiting id) (h.numbered id),
      fun id hid ↦ ?_, h.received, fun key hkey ↦ ?_, hplaces, fun d ↦ ?_,
      fun key d hu e he hplace ↦ ?_, fun key d hu k hk ↦ ?_, ?_, fun d hd ↦ ?_⟩
    · rw [hunread, List.forall_mem_append]
      refine ⟨h.replied, fun x hx ↦ ?_⟩
      obtain hx | hx := List.mem_append.1 (hreplied x hx)
      · exact h.kept.waiting _ hx
      · exact hkeyed.of_gets hx
    · have hle := hwaiting id
      exact h.fresh id (by omega)
    · have heq := h.refreshing key hkey
      have hnew := hturn.refreshing key hkey
      rw [CacheWorld.outstanding, hqueue, total_cons] at heq
      rw [CacheWorld.outstanding, hunread, total_append]
      show r.1.refreshes this key = _ + _ + total _ w.computing + total _ queue
      omega
    · have heq := h.stored d
      have hnew := hturn.stored d
      rw [hbrought, CacheWorld.holders, hqueue, total_cons] at heq
      rw [CacheWorld.holders, hunread, total_append]
      show r.1.stored d + total _ queue = total _ w.holding + _ + total _ queue
      omega
    · obtain hold | ⟨x, hx, rfl, hd⟩ := huses hu
      · obtain ⟨e', he', hkey', hplace'⟩ | ⟨k, rfl, hequal⟩ := hturn.source e he d hplace
        · exact hkey' ▸ h.located key d hold e' he' hplace'
        · exact hK.trans (hkept.keys e he) hkeyed (h.key_of_uses hold) hequal
            (h.awaited key d hold k (by simp [hqueue]))
      · obtain ⟨e', he', hequal, hplace'⟩ := hturn.handed x hx d hd
        rw [Cache.eq_of_places (Nat.le_trans (Nat.le_add_right _ _) (hplaces d)) he he' hplace
          hplace']
        exact hequal
    · obtain hu | ⟨x, hx, rfl, hd⟩ := huses hu
      · exact h.awaited key d hu k (by rw [hqueue]; exact List.mem_cons_of_mem _ hk)
      · -- the datas that have been handed out are in the table
        obtain ⟨e', he', -, hplace'⟩ := hturn.handed x hx d hd
        have hle : e'.places d ≤ r.1.places d := apply_le_total he'
        have hle' := hplaces d
        have hne := CacheWorld.brought_ne_zero (w := { w with queue := queue }) hk
        rw [CacheWorld.brought] at hne
        exact absurd hne (show total (CacheMessage.brings d) queue ≠ 0 → False by omega)
    · have horder := h.order
      rw [hqueue, List.pairwise_cons] at horder
      exact horder.2
    · refine h.pointers d ?_
      have hle := hturn.places d
      have hd' : r.1.places d + total (CacheMessage.brings d) queue ≠ 0 := hd
      rw [hbrought]
      omega

/-! ### Runs -/

/-- **One step of a run.** -/
theorem CacheWorld.Counted.step (hK : ProperKeys this K) (hheap : PointersDiffer heap)
    (h : w.Counted this K heap) {e : CacheEvent κ} (henabled : w.enabled e)
    (hfollowing : Following heap K w e) : (w.step this conf e).Counted this K heap := by
  obtain ⟨hasks, hallocates⟩ := hfollowing
  cases e with
  | get key =>
    refine h.push (fun _ ↦ rfl) (fun _ ↦ rfl) (fun _ ↦ rfl) ?_ (Nat.le_succ _) fun id ↦ ?_
    · exact fun k hk ↦ Option.some.inj hk ▸ hasks
    · rw [CacheMessage.gets, asked, List.countP_singleton]
      split_ifs with hid
      · have hid : w.requests = id := by simpa using hid
        exact ⟨Nat.le_refl _, fun _ ↦ ⟨Nat.le_of_eq hid, hid ▸ Nat.lt_succ_self _⟩⟩
      · exact ⟨Nat.zero_le _, fun hne ↦ absurd rfl hne⟩
  | manage now clock => exact h.manage hK hheap now clock
  | receive i =>
    obtain ⟨⟨g, reply⟩, hsome, hid⟩ := henabled
    have hx : (g, reply) ∈ w.unread :=
      List.mem_filter.2 ⟨List.mem_of_getElem? hsome, decide_eq_true hid⟩
    rw [CacheWorld.step, Option.mem_def.1 hsome]
    cases reply with
    | nullMessage =>
      refine h.read hx (fun g' hg' ↦ (List.mem_cons.1 hg').symm) (fun key ↦ ?_)
        (fun u hu ↦ Or.inl hu) fun d ↦ ?_
      · simp [tells]
      · simp [handsOut]
    | nullQueueDatas =>
      refine h.read hx (fun g' hg' ↦ Or.inl hg') (fun key ↦ ?_) (fun u hu ↦ Or.inl hu) fun d ↦ ?_
      · simp [tells]
      · simp [handsOut]
    | datas d =>
      refine h.read hx (fun g' hg' ↦ Or.inl hg') (fun key ↦ ?_) (fun u hu ↦ ?_) fun d' ↦ ?_
      · simp [tells]
      · obtain rfl | hu := List.mem_cons.1 hu
        · exact Or.inr ⟨rfl, rfl⟩
        · exact Or.inl hu
      · simp [handsOut]
  | compute i datas => exact h.compute hK hallocates
  | freeConnection i => exact h.free i
  | refresh | reset =>
    exact h.push (fun _ ↦ rfl) (fun _ ↦ rfl) (fun _ ↦ rfl) (fun _ hk ↦ by cases hk) (Nat.le_refl _)
      fun _ ↦ ⟨Nat.zero_le _, fun hne ↦ absurd rfl hne⟩

/-- **Every state of a run.** -/
theorem CacheWorld.counted_of_reach {built : κ → Prop} (hK : ProperKeys this fun k ↦ built k ∧ K k)
    (hheap : PointersDiffer heap)
    (h : (cacheMachine this conf built).Reach (Following heap K) w) :
    w.Counted this (fun k ↦ built k ∧ K k) heap := by
  refine h.invariant (fun s hs ↦ ?_) fun s e hs
    (he : s.enabled e ∧ e.AsksFor built) hok ↦ hs.step hK hheap he.1 ⟨?_, hok.2⟩
  · obtain rfl := hs
    exact CacheWorld.counted_start
  · cases e with
    | get key => exact ⟨he.2, hok.1⟩
    | manage | receive | compute | freeConnection | refresh | reset => trivial

/-- The usage of a content is the number of the uses of its datas. -/
theorem CacheWorld.Counted.usage_eq (h : w.Counted this K heap) {e : CacheEntry κ}
    (he : e ∈ w.cache.hash) {c : CacheEntryContent} (hc : c ∈ e.datas) {d : ℕ}
    (hd : c.datas = some d) : c.usage = w.holders d + total (CacheMessage.releases d) w.queue := by
  obtain ⟨l₁, l₂, hl⟩ := List.append_of_mem he
  obtain ⟨c₁, c₂, hcs⟩ := List.append_of_mem hc
  have hplace : c.place d = 1 := if_pos hd
  have hplaces := h.places d
  rw [Cache.places, total_split hl, CacheEntry.places, total_split hcs, hplace] at hplaces
  -- the datas are nowhere else
  have hothers : total (CacheEntryContent.stored d) (c₁ ++ c₂) = 0 :=
    total_stored_eq_zero (by omega)
  have hentries : total (CacheEntry.stored d) (l₁ ++ l₂) = 0 :=
    total_entryStored_eq_zero (by omega)
  have hstored := h.stored d
  rw [Cache.stored, total_split hl, hentries, CacheEntry.stored, total_split hcs, hothers,
    CacheEntryContent.stored, if_pos hd] at hstored
  omega

/-- An entry is refreshing for one client, and the other ones for nobody. -/
theorem CacheWorld.Counted.outstanding_eq (hK : ProperKeys this K) (h : w.Counted this K heap)
    {e : CacheEntry κ} (he : e ∈ w.cache.hash) :
    w.outstanding this e.key = if e.refreshing = true then 1 else 0 := by
  have hkey := h.kept.keys e he
  obtain ⟨l₁, l₂, hl⟩ := List.append_of_mem he
  have hrest : total (CacheEntry.refreshes this e.key) (l₁ ++ l₂) = 0 := by
    refine total_eq_zero fun e' he' ↦ if_neg fun hrefreshes ↦ ?_
    have hdistinct := h.kept.distinct
    rw [hl, List.map_append, List.map_cons, List.pairwise_append, List.pairwise_cons] at hdistinct
    have hkey' := h.kept.keys e' (mem_of_split hl he')
    obtain he' | he' := List.mem_append.1 he'
    · rw [hdistinct.2.2 e'.key (List.mem_map_of_mem he') e.key List.mem_cons_self] at hrefreshes
      exact absurd hrefreshes.2 (by decide)
    · have hne := hdistinct.2.1.1 e'.key (List.mem_map_of_mem he')
      rw [hK.symm hkey' hkey hrefreshes.2] at hne
      exact absurd hne (by decide)
  rw [← h.refreshing e.key hkey, Cache.refreshes, total_split hl, hrest, CacheEntry.refreshes,
    Nat.add_zero]
  simp [hK.refl hkey]

/-- What a step frees is held by nobody. -/
theorem CacheWorld.Counted.freed (hK : ProperKeys this K) (hheap : PointersDiffer heap)
    (h : w.Counted this K heap) (e : CacheEvent κ) :
    ∃ new, (w.step this conf e).cache.freed = w.cache.freed ++ new ∧
      ∀ d ∈ new, w.holders d = 0 := by
  have hquiet : ∀ {w' : CacheWorld κ}, w'.cache = w.cache →
      ∃ new, w'.cache.freed = w.cache.freed ++ new ∧ ∀ d ∈ new, w.holders d = 0 :=
    fun hcache ↦ ⟨[], by simp [hcache]⟩
  cases e with
  | manage now clock =>
    cases hqueue : w.queue with
    | nil => exact hquiet (by simp only [CacheWorld.step, hqueue])
    | cons m queue =>
      have hone (d : ℕ) : w.cache.places d ≤ 1 := Nat.le_trans (Nat.le_add_right _ _) (h.places d)
      have hturn := turn_cacheManager conf now hK h.kept hone hheap clock
        (fun d hd ↦ h.pointers d (by omega)) (h.expected hK hqueue)
      obtain ⟨new, hfreed, hnew⟩ := hturn.freed
      refine ⟨new, by simpa only [CacheWorld.step, hqueue] using hfreed, fun d hd ↦ ?_⟩
      -- what is stored after the turn is what remains in use
      obtain ⟨hzero, hplace⟩ := hnew d hd
      have hplaces := h.places d
      have hstored := h.stored d
      have hturned := hturn.stored d
      rw [CacheWorld.brought, hqueue, total_cons] at hplaces hstored
      rw [total_cons] at hstored
      omega
  | receive i =>
    refine hquiet ?_
    rw [CacheWorld.step]
    split
    · rfl
    · split <;> rfl
  | compute i datas =>
    refine hquiet ?_
    rw [CacheWorld.step]
    split <;> rfl
  | freeConnection i =>
    refine hquiet ?_
    rw [CacheWorld.step]
    split <;> rfl
  | get | refresh | reset => exact hquiet rfl

end

/-- **The ACL cache does not free datas in use**, in every run that looks up keys among which
`compare_acls` is symmetric, with whatever clock. An entry is refreshing for exactly one client, and
otherwise has datas; who is parked waits for such an entry; the usage of a content is at least the
number of connections that hold its datas; and a step frees what nobody holds. -/
theorem acl_cache_safe (order : ByteOrder) (conf : Params) {K : AclKey → Prop}
    (hsymm : ∀ a b, K a → K b → compareAcls a b = true → compareAcls b a = true)
    {heap : ℕ → Prop} (hheap : PointersDiffer heap) {w : CacheWorld AclKey}
    (h : (aclCacheMachine order conf).Reach (Following heap K) w) :
    (∀ e ∈ w.cache.hash, e.refreshing = true ∨ e.datas ≠ []) ∧
      (∀ e ∈ w.cache.hash,
        w.outstanding (aclCacheClass order) e.key = if e.refreshing = true then 1 else 0) ∧
      w.cache.faults = [] ∧
      (∀ g ∈ w.cache.localQueue, ∃ e ∈ w.cache.hash, e.refreshing = true ∧
        compareAcls e.key g.key = true) ∧
      (∀ e ∈ w.cache.hash, ∀ c ∈ e.datas, ∀ d, c.datas = some d → w.holders d ≤ c.usage) ∧
      ∀ e, ∃ new, ((aclCacheMachine order conf).step w e).cache.freed = w.cache.freed ++ new ∧
        ∀ d ∈ new, w.holders d = 0 := by
  have hK := properKeys_aclCacheClass order hsymm
  have hcounted := CacheWorld.counted_of_reach hK hheap h
  refine ⟨fun e he ↦ ?_, fun e he ↦ hcounted.outstanding_eq hK he, hcounted.faults,
    hcounted.kept.parked, fun e he c hc d hd ↦ ?_, hcounted.freed hK hheap⟩
  · cases hrefreshing : e.refreshing with
    | true => exact Or.inl rfl
    | false => exact Or.inr (hcounted.kept.datas e he hrefreshing)
  · rw [hcounted.usage_eq he hc hd]
    exact Nat.le_add_right _ _

/-- Two lookups of one flow, the second from the cache, after which the first connection is freed
and the entry expires for a third lookup. -/
def sharedLookups : List (CacheEvent AclKey) :=
  [.get secondLookup.key, .manage 0 fun _ ↦ 0, .receive 0, .compute 0 (some 5),
    .manage 0 fun _ ↦ 0, .get secondLookup.key, .manage 1 fun _ ↦ 1, .receive 1,
    .freeConnection 1, .manage 1 fun _ ↦ 1, .get secondLookup.key, .manage 100 fun _ ↦ 100]

/-- The datas that the second connection holds are kept over the expiry. -/
theorem shared_datas_kept :
    let w := (aclCacheMachine .little Params.default).run CacheWorld.start sharedLookups
    (w.holders 5 = 1 ∧
        w.cache.hash.map (fun e ↦ e.datas.map CacheEntryContent.datas) = [[some 5]]) ∧
      ∀ e ∈ w.cache.hash, ∀ c ∈ e.datas, ∀ d, c.datas = some d → w.holders d ≤ c.usage := by
  have hbuilt : secondLookup.key.Built := Connection.web_built 1026
  have hpath : (aclCacheMachine .little Params.default).Path (Following (· = 5)
      (· = secondLookup.key)) CacheWorld.start sharedLookups :=
    ⟨⟨trivial, hbuilt⟩, ⟨rfl, trivial⟩, ⟨by decide +kernel, trivial⟩, ⟨trivial, trivial⟩,
      ⟨by decide +kernel, trivial⟩, ⟨trivial, trivial⟩,
      ⟨by decide +kernel, trivial⟩, ⟨trivial, rfl, by decide +kernel, by decide +kernel⟩,
      ⟨by decide +kernel, trivial⟩, ⟨trivial, trivial⟩, ⟨trivial, hbuilt⟩, ⟨rfl, trivial⟩,
      ⟨by decide +kernel, trivial⟩, ⟨trivial, trivial⟩,
      ⟨by decide +kernel, trivial⟩, ⟨trivial, trivial⟩,
      ⟨by decide +kernel, trivial⟩, ⟨trivial, trivial⟩,
      ⟨by decide +kernel, trivial⟩, ⟨trivial, trivial⟩, ⟨trivial, hbuilt⟩, ⟨rfl, trivial⟩,
      ⟨by decide +kernel, trivial⟩, ⟨trivial, trivial⟩, trivial⟩
  have hsymm : ∀ a b, a = secondLookup.key → b = secondLookup.key →
      compareAcls a b = true → compareAcls b a = true := by
    rintro _ _ rfl rfl h
    exact h
  have hheap : PointersDiffer (· = 5) :=
    ⟨fun ha hb _ ↦ ha.trans hb.symm, fun ha ↦ ha ▸ by decide⟩
  intro w
  have hreach : (aclCacheMachine .little Params.default).Reach
      (Following (· = 5) (· = secondLookup.key)) w := Machine.reach_run _ rfl _ hpath
  refine ⟨⟨by decide +kernel, by decide +kernel⟩, ?_⟩
  exact (acl_cache_safe .little Params.default hsymm hheap hreach).2.2.2.2.1

end Nufw
