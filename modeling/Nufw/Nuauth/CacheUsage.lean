import Nufw.Nuauth.CacheRun

/-!
# Usage of cached datas

What one turn of the cache manager does to the usage counts. For every pointer, the usage that the
entries store for it, over all generations, goes up by what the turn hands out and by the INSERT
that brings it, and goes down by the FREE that gives it back (`Turn.stored`); the entries that are
refreshing for a key go up by the clients that are told to look for themselves and down by their
INSERTs (`Turn.refreshing`). Nothing is freed while usage is stored for it (`Turn.freed`).

A FREE finds its content by the difference of two pointers as an `int`. `PointersDiffer` says that
the pointers in play differ modulo `2 ^ 32`, `NULL` among them.
-/

namespace Nufw

variable {κ : Type}

/-! ### Pointers -/

/-- Distinct pointers of the set differ modulo `2 ^ 32`, also from `NULL`. -/
structure PointersDiffer (heap : ℕ → Prop) : Prop where
  inj : ∀ {a b}, heap a → heap b → a % 2 ^ 32 = b % 2 ^ 32 → a = b
  ne_null : ∀ {a}, heap a → a % 2 ^ 32 ≠ 0

/-- The content holds the datas. -/
def CacheEntryContent.place (d : ℕ) (c : CacheEntryContent) : ℕ :=
  if c.datas = some d then 1 else 0

/-- The usage the content stores for the datas. -/
def CacheEntryContent.stored (d : ℕ) (c : CacheEntryContent) : ℕ :=
  if c.datas = some d then c.usage else 0

/-- How many contents of the entry hold the datas. -/
def CacheEntry.places (d : ℕ) (e : CacheEntry κ) : ℕ := total (CacheEntryContent.place d) e.datas

/-- The usage the entry stores for the datas. -/
def CacheEntry.stored (d : ℕ) (e : CacheEntry κ) : ℕ := total (CacheEntryContent.stored d) e.datas

/-- How many contents of the table hold the datas. -/
def Cache.places (cache : Cache κ) (d : ℕ) : ℕ := total (CacheEntry.places d) cache.hash

/-- The usage the table stores for the datas. -/
def Cache.stored (cache : Cache κ) (d : ℕ) : ℕ := total (CacheEntry.stored d) cache.hash

/-- The entry is refreshing for the key. -/
def CacheEntry.refreshes (this : CacheClass κ) (key : κ) (e : CacheEntry κ) : ℕ :=
  if e.refreshing = true ∧ this.equalKey e.key key = true then 1 else 0

/-- How many entries are refreshing for the key. -/
def Cache.refreshes (this : CacheClass κ) (cache : Cache κ) (key : κ) : ℕ :=
  total (CacheEntry.refreshes this key) cache.hash

theorem CacheEntryContent.stored_eq_zero {d : ℕ} {c : CacheEntryContent} (h : c.place d = 0) :
    c.stored d = 0 := by
  rw [place] at h
  rw [CacheEntryContent.stored]
  split_ifs at h ⊢
  rfl

theorem total_stored_eq_zero {d : ℕ} {l : List CacheEntryContent}
    (h : total (CacheEntryContent.place d) l = 0) : total (CacheEntryContent.stored d) l = 0 := by
  refine total_eq_zero fun c hc ↦ CacheEntryContent.stored_eq_zero ?_
  have hle := apply_le_total (f := CacheEntryContent.place d) hc
  omega

theorem total_entryStored_eq_zero {d : ℕ} {l : List (CacheEntry κ)}
    (h : total (CacheEntry.places d) l = 0) : total (CacheEntry.stored d) l = 0 := by
  refine total_eq_zero fun e he ↦ total_stored_eq_zero ?_
  have hle := apply_le_total (f := CacheEntry.places d) he
  exact Nat.eq_zero_of_le_zero (h ▸ hle)

/-- The pointers of some contents are those they hold. -/
theorem mem_contentPointers {d : ℕ} {l : List CacheEntryContent} :
    d ∈ contentPointers l ↔ total (CacheEntryContent.place d) l ≠ 0 := by
  rw [contentPointers, List.mem_filterMap]
  refine ⟨fun ⟨c, hc, hd⟩ hzero ↦ ?_, fun h ↦ ?_⟩
  · have hle := apply_le_total (f := CacheEntryContent.place d) hc
    rw [hzero, CacheEntryContent.place, if_pos hd] at hle
    exact absurd hle (by decide)
  · obtain ⟨c, hc, hne⟩ := exists_of_total_ne_zero h
    refine ⟨c, hc, ?_⟩
    rw [CacheEntryContent.place] at hne
    exact of_not_not fun hd ↦ hne (if_neg hd)

/-- The contents that are used and those that are not. -/
theorem total_used_add (f : CacheEntryContent → ℕ) (l : List CacheEntryContent) :
    total f (l.filter (·.usage ≠ 0)) + total f (l.filter (·.usage = 0)) = total f l := by
  have hnot : l.filter (fun c ↦ decide (c.usage = 0)) =
      l.filter fun c ↦ !decide (c.usage ≠ 0) := List.filter_congr fun c _ ↦ by simp
  rw [hnot]
  exact total_filter_add f _ l

/-- Contents whose usage is zero store nothing. -/
theorem total_stored_used (d : ℕ) (l : List CacheEntryContent) :
    total (CacheEntryContent.stored d) (l.filter (·.usage ≠ 0)) =
      total (CacheEntryContent.stored d) l := by
  have hzero : total (CacheEntryContent.stored d) (l.filter (·.usage = 0)) = 0 := by
    refine total_eq_zero fun c hc ↦ ?_
    have husage : c.usage = 0 := by simpa using (List.mem_filter.1 hc).2
    rw [CacheEntryContent.stored, husage, ite_self]
  have hadd := total_used_add (CacheEntryContent.stored d) l
  omega

/-! ### A FREE -/

section

variable {heap : ℕ → Prop} (hheap : PointersDiffer heap)

include hheap

/-- Among the pointers in play, a content is compared by its datas. -/
theorem cacheEntryContentCompare_iff {c : CacheEntryContent} {d : ℕ} (hd : heap d)
    (hc : ∀ d' ∈ c.datas, heap d') : cacheEntryContentCompare c d = true ↔ c.datas = some d := by
  rw [cacheEntryContentCompare, decide_eq_true_eq]
  cases hdatas : c.datas with
  | none =>
    refine ⟨fun h ↦ absurd h (hheap.ne_null hd), fun h ↦ ?_⟩
    cases h
  | some d' =>
    refine ⟨fun h ↦ ?_, fun h ↦ ?_⟩
    · rw [hheap.inj hd (hc d' hdatas) h]
    · rw [Option.some.inj h]
      rfl

theorem place_eq_zero_of_compare {c : CacheEntryContent} {d : ℕ} (hd : heap d)
    (hc : ∀ d' ∈ c.datas, heap d') (h : cacheEntryContentCompare c d = false) :
    c.place d = 0 := by
  refine if_neg fun hdatas ↦ ?_
  rw [(cacheEntryContentCompare_iff hheap hd hc).2 hdatas] at h
  cases h

/-- The contents before the one that is found do not hold the datas. -/
theorem total_place_eq_zero_of_compare {l : List CacheEntryContent} {d : ℕ} (hd : heap d)
    (hl : ∀ c ∈ l, ∀ d' ∈ c.datas, heap d')
    (h : ∀ c ∈ l, cacheEntryContentCompare c d = false) :
    total (CacheEntryContent.place d) l = 0 :=
  total_eq_zero fun c hc ↦ place_eq_zero_of_compare hheap hd (hl c hc) (h c hc)

/-- What a FREE leaves in the contents of an entry. -/
structure Given (d : ℕ) (l : List CacheEntryContent) (r : List CacheEntryContent × List ℕ) :
    Prop where
  stored : ∀ d', total (CacheEntryContent.stored d') r.1 + (if d' = d then 1 else 0) =
    total (CacheEntryContent.stored d') l
  places : ∀ d', total (CacheEntryContent.place d') r.1 ≤ total (CacheEntryContent.place d') l
  freed : ∀ d' ∈ r.2, d' = d ∧ total (CacheEntryContent.stored d') r.1 = 0

omit hheap in
/-- The usage of the content that holds the datas goes down by one. -/
theorem Given.decrease {d : ℕ} (l₁ l₂ : List CacheEntryContent) {c : CacheEntryContent}
    (hc : c.datas = some d) (husage : c.usage ≠ 0) :
    Given d (l₁ ++ c :: l₂) (l₁ ++ { c with usage := c.usage - 1 } :: l₂, []) where
  stored d' := by
    have hstored : CacheEntryContent.stored d' { c with usage := c.usage - 1 } +
        (if d' = d then 1 else 0) = c.stored d' := by
      simp only [CacheEntryContent.stored, hc, Option.some.injEq]
      split_ifs <;> omega
    simp only [total_append, total_cons]
    omega
  places d' := by
    simp only [total_append, total_cons]
    exact Nat.le_refl _
  freed d' hd' := absurd hd' List.not_mem_nil

omit hheap in
/-- The content goes with its last use. -/
theorem Given.drop {d : ℕ} (l₁ l₂ : List CacheEntryContent) {c : CacheEntryContent}
    (hc : c.datas = some d) (husage : c.usage = 1)
    (hplaces : total (CacheEntryContent.place d) (l₁ ++ c :: l₂) ≤ 1) :
    Given d (l₁ ++ c :: l₂) (l₁ ++ l₂, c.datas.toList) where
  stored d' := by
    have hstored : (if d' = d then 1 else 0) = c.stored d' := by
      simp only [CacheEntryContent.stored, hc, Option.some.injEq, husage, eq_comm]
    simp only [total_append, total_cons]
    omega
  places d' := by
    simp only [total_append, total_cons]
    omega
  freed d' hd' := by
    obtain rfl : d' = d := by simpa [hc] using hd'
    refine ⟨rfl, total_stored_eq_zero ?_⟩
    have hplace : c.place d' = 1 := if_pos hc
    simp only [total_append, total_cons] at hplaces ⊢
    omega

/-- **A FREE of datas that are in use**, whose only content is in the entry. -/
theorem given_cacheMessageDestroy {l : List CacheEntryContent} {d : ℕ} (hd : heap d)
    (hl : ∀ c ∈ l, ∀ d' ∈ c.datas, heap d') (hplaces : total (CacheEntryContent.place d) l ≤ 1)
    (hstored : total (CacheEntryContent.stored d) l ≠ 0) :
    Given d l (cacheMessageDestroy d l) := by
  -- the content that is found is the only one, so that its usage is what is stored
  have husage : ∀ l₁ l₂ c, l = l₁ ++ c :: l₂ → c.datas = some d → c.usage ≠ 0 := by
    intro l₁ l₂ c hsplit hc hzero
    have hplace : c.place d = 1 := if_pos hc
    have hrest : total (CacheEntryContent.place d) (l₁ ++ l₂) = 0 := by
      rw [total_split hsplit] at hplaces
      omega
    rw [total_split hsplit, total_stored_eq_zero hrest, CacheEntryContent.stored,
      if_pos hc] at hstored
    exact hstored (by omega)
  cases l with
  | nil => exact absurd rfl hstored
  | cons content list =>
    rw [List.forall_mem_cons] at hl
    rw [cacheMessageDestroy]
    split_ifs with hcompare
    · have hc := (cacheEntryContentCompare_iff hheap hd hl.1).1 hcompare
      exact Given.decrease [] list hc (husage [] list content rfl hc)
    · split
      · rename_i hnone
        refine absurd (total_stored_eq_zero ?_) hstored
        rw [total_cons, place_eq_zero_of_compare hheap hd hl.1 (by simpa using hcompare),
          total_place_eq_zero_of_compare hheap hd hl.2 (by simpa using hnone)]
      · rename_i found hsome
        obtain ⟨l₁, l₂, rfl, hfound, hfirst⟩ := exists_split_of_find? hsome
        have hc := (cacheEntryContentCompare_iff hheap hd (hl.2 found (by simp))).1 hfound
        have hne := husage (content :: l₁) l₂ found rfl hc
        split_ifs with hone
        · rw [updateFirst_split hfirst hfound]
          exact Given.decrease (content :: l₁) l₂ hc hne
        · rw [eraseP_split hfirst hfound]
          exact Given.drop (content :: l₁) l₂ hc (by omega) hplaces

end

/-! ### One turn of the manager -/

/-- The message brings the datas into the cache. -/
def CacheMessage.brings (d : ℕ) : CacheMessage κ → ℕ
  | .insert _ datas => if datas = some d then 1 else 0
  | _ => 0

/-- The message gives the datas back. -/
def CacheMessage.releases (d : ℕ) : CacheMessage κ → ℕ
  | .free _ datas => if d = datas then 1 else 0
  | _ => 0

/-- The message ends a refresh for the key. -/
def CacheMessage.completes (this : CacheClass κ) (key : κ) : CacheMessage κ → ℕ
  | .insert k _ => if this.equalKey k key = true then 1 else 0
  | _ => 0

/-- The reply hands out the datas. -/
def handsOut (d : ℕ) (delivery : Delivery κ) : ℕ :=
  if delivery.2 = .datas d then 1 else 0

/-- The client is told to look for the key itself. -/
def tells (this : CacheClass κ) (key : κ) (delivery : Delivery κ) : ℕ :=
  if delivery.2 = .nullMessage ∧ this.equalKey delivery.1.key key = true then 1 else 0

/-- **What one turn of the manager does** to usage, to refreshes and to memory. -/
structure Turn (this : CacheClass κ) (K : κ → Prop) (cache : Cache κ) (message : CacheMessage κ)
    (r : Cache κ × List (Delivery κ)) : Prop where
  faults : r.1.faults = cache.faults
  places : ∀ d, r.1.places d ≤ cache.places d + message.brings d
  stored : ∀ d, r.1.stored d + message.releases d =
    cache.stored d + message.brings d + total (handsOut d) r.2
  refreshing : ∀ key, K key → r.1.refreshes this key + message.completes this key =
    cache.refreshes this key + total (tells this key) r.2
  /-- Datas stay under the key they have been brought for. -/
  source : ∀ e ∈ r.1.hash, ∀ d, e.places d ≠ 0 →
    (∃ e' ∈ cache.hash, e'.key = e.key ∧ e'.places d ≠ 0) ∨
      ∃ key, message = .insert key (some d) ∧ this.equalKey e.key key = true
  handed : ∀ x ∈ r.2, ∀ d, x.2 = .datas d →
    ∃ e ∈ r.1.hash, this.equalKey e.key x.1.key = true ∧ e.places d ≠ 0
  freed : ∃ new, r.1.freed = cache.freed ++ new ∧
    ∀ d ∈ new, r.1.stored d = 0 ∧ cache.places d ≠ 0

section

variable {this : CacheClass κ} {K : κ → Prop} {cache : Cache κ} {message : CacheMessage κ}

/-- The table has not changed. -/
theorem Turn.quiet {cache' : Cache κ} (hhash : cache'.hash = cache.hash)
    (hfaults : cache'.faults = cache.faults) (hfreed : cache'.freed = cache.freed)
    (hbrings : ∀ d, message.brings d = 0) (hreleases : ∀ d, message.releases d = 0)
    (hcompletes : ∀ key, message.completes this key = 0) :
    Turn this K cache message (cache', []) where
  faults := hfaults
  places d := by rw [Cache.places, Cache.places, hhash, hbrings]; exact Nat.le_refl _
  stored d := by rw [Cache.stored, Cache.stored, hhash, hbrings, hreleases]; rfl
  refreshing key _ := by rw [Cache.refreshes, Cache.refreshes, hhash, hcompletes]; rfl
  source e he d hd := Or.inl ⟨e, hhash ▸ he, rfl, hd⟩
  handed x hx := absurd hx List.not_mem_nil
  freed := ⟨[], by simp [hfreed]⟩

/-- One entry has changed. -/
theorem Turn.replace {cache' : Cache κ} {out : List (Delivery κ)} {new : List ℕ}
    {l₁ l₂ : List (CacheEntry κ)} {e e' : CacheEntry κ} (hl : cache.hash = l₁ ++ e :: l₂)
    (hl' : cache'.hash = l₁ ++ e' :: l₂) (hkey : e'.key = e.key)
    (hone : ∀ d, cache.places d ≤ 1) (hfaults : cache'.faults = cache.faults)
    (hplaces : ∀ d, e'.places d ≤ e.places d + message.brings d)
    (hstored : ∀ d, e'.stored d + message.releases d =
      e.stored d + message.brings d + total (handsOut d) out)
    (hrefreshes : ∀ key, K key → e'.refreshes this key + message.completes this key =
      e.refreshes this key + total (tells this key) out)
    (hbrings : ∀ d, message.brings d ≠ 0 →
      ∃ key, message = .insert key (some d) ∧ this.equalKey e.key key = true)
    (hhanded : ∀ x ∈ out, ∀ d, x.2 = .datas d →
      this.equalKey e.key x.1.key = true ∧ e'.places d ≠ 0)
    (hfreed : cache'.freed = cache.freed ++ new)
    (hnew : ∀ d ∈ new, e.places d ≠ 0 ∧ e'.stored d = 0) :
    Turn this K cache message (cache', out) where
  faults := hfaults
  places d := by
    show total (CacheEntry.places d) cache'.hash ≤ total (CacheEntry.places d) cache.hash + _
    rw [total_split hl, total_split hl']
    have hle := hplaces d
    omega
  stored d := by
    show total (CacheEntry.stored d) cache'.hash + _ =
      total (CacheEntry.stored d) cache.hash + _ + total (handsOut d) out
    rw [total_split hl, total_split hl']
    have heq := hstored d
    omega
  refreshing key hk := by
    show total (CacheEntry.refreshes this key) cache'.hash + _ =
      total (CacheEntry.refreshes this key) cache.hash + total (tells this key) out
    rw [total_split hl, total_split hl']
    have heq := hrefreshes key hk
    omega
  source c hc d hd := by
    rw [hl', List.mem_append, List.mem_cons] at hc
    obtain hc | rfl | hc := hc
    · exact Or.inl ⟨c, by simp [hl, hc], rfl, hd⟩
    · have hle := hplaces d
      rcases Nat.eq_zero_or_pos (e.places d) with hzero | hpos
      · obtain ⟨key, hmessage, hequal⟩ := hbrings d (by omega)
        exact Or.inr ⟨key, hmessage, hkey ▸ hequal⟩
      · exact Or.inl ⟨e, by simp [hl], hkey.symm, by omega⟩
    · exact Or.inl ⟨c, by simp [hl, hc], rfl, hd⟩
  handed x hx d hd := by
    obtain ⟨hequal, hplace⟩ := hhanded x hx d hd
    exact ⟨e', by simp [hl'], hkey ▸ hequal, hplace⟩
  freed := by
    refine ⟨new, hfreed, fun d hd ↦ ?_⟩
    obtain ⟨hplace, hzero⟩ := hnew d hd
    have hle := hone d
    rw [Cache.places, total_split hl] at hle
    have hrest : total (CacheEntry.stored d) (l₁ ++ l₂) = 0 :=
      total_entryStored_eq_zero (by omega)
    show total (CacheEntry.stored d) cache'.hash = 0 ∧ total (CacheEntry.places d) cache.hash ≠ 0
    rw [total_split hl, total_split hl', hrest]
    omega

variable (conf : Params) (now : Int) (hK : ProperKeys this K) (h : cache.Kept this K)
  (hone : ∀ d, cache.places d ≤ 1)

include hK h

omit h in
/-- Keys that are equal are told the same. -/
theorem ProperKeys.equalKey_iff {a b key : κ} (ha : K a) (hb : K b) (hkey : K key)
    (hab : this.equalKey a b = true) :
    this.equalKey a key = true ↔ this.equalKey b key = true :=
  ⟨hK.trans hb ha hkey (hK.symm ha hb hab), hK.trans ha hb hkey hab⟩

omit h in
theorem turn_cacheInsert {g : GetMessage κ} (hg : K g.key) :
    Turn this K cache (.get g) (cacheInsert this conf now g cache) where
  faults := rfl
  places d := by simp [cacheInsert, Cache.places, CacheEntry.places, CacheMessage.brings]
  stored d := by
    simp [cacheInsert, Cache.stored, CacheEntry.stored, CacheMessage.brings,
      CacheMessage.releases, handsOut]
  refreshing key _ := by
    simp only [cacheInsert, Cache.refreshes, CacheEntry.refreshes, CacheMessage.completes, tells,
      total_cons, total_nil, hK.duplicate hg, true_and]
    omega
  source e he d hd := by
    rw [cacheInsert, List.mem_cons] at he
    obtain rfl | he := he
    · exact absurd rfl hd
    · exact Or.inl ⟨e, he, rfl, hd⟩
  handed x hx d hd := by
    obtain rfl := List.mem_singleton.1 hx
    cases hd
  freed := ⟨[], by simp [cacheInsert]⟩

include hone

omit hK h in
/-- Datas that are handed out from the entry are used once more. -/
theorem turn_hit {g : GetMessage κ} {entry : CacheEntry κ} {item : CacheEntryContent}
    {list : List CacheEntryContent} {l₁ l₂ : List (CacheEntry κ)} (reply : CacheReply)
    (hl : cache.hash = l₁ ++ entry :: l₂) (hdatas : entry.datas = item :: list)
    (hequal : this.equalKey entry.key g.key = true)
    (hreply : ∀ d, item.datas = some d ↔ reply = .datas d) (hnull : reply ≠ .nullMessage) :
    Turn this K cache (.get g)
      ({ cache with hash := l₁ ++
          { entry with datas := { item with usage := item.usage + 1 } :: list } :: l₂ },
        [(g, reply)]) := by
  refine Turn.replace hl rfl rfl hone rfl (fun d ↦ ?_) (fun d ↦ ?_) (fun key _ ↦ ?_)
    (fun d hd ↦ absurd rfl hd) (fun x hx d hd ↦ ?_) (List.append_nil _).symm
    fun d hd ↦ absurd hd List.not_mem_nil
  · rw [CacheEntry.places, CacheEntry.places, hdatas]
    exact Nat.le_add_right _ _
  · have hhead : CacheEntryContent.stored d { item with usage := item.usage + 1 } =
        item.stored d + handsOut d (g, reply) := by
      simp only [CacheEntryContent.stored, handsOut, hreply d]
      split_ifs <;> rfl
    rw [CacheEntry.stored, CacheEntry.stored, hdatas, total_cons, total_cons, total_cons, hhead]
    show _ + 0 = _ + 0 + (_ + 0)
    omega
  · simp [CacheEntry.refreshes, CacheMessage.completes, tells, hnull]
  · obtain rfl := List.mem_singleton.1 hx
    refine ⟨hequal, ?_⟩
    rw [CacheEntry.places, total_cons, CacheEntryContent.place, if_pos ((hreply d).2 hd)]
    omega

theorem turn_cacheGet {g : GetMessage κ} (hg : K g.key) {entry : CacheEntry κ}
    (hsome : cache.hash.find? (this.holds g.key) = some entry) :
    Turn this K cache (.get g) (cacheGet this now entry g cache) := by
  obtain ⟨l₁, l₂, hl, hholds, hfirst⟩ := exists_split_of_find? hsome
  have hentry : K entry.key := h.keys entry (by simp [hl])
  have hequal := (hK.holds_iff hg hentry).1 hholds
  have hupdate (e : CacheEntry κ) :
      updateFirst (this.holds g.key) (fun _ ↦ e) cache.hash = l₁ ++ e :: l₂ := by
    rw [hl, updateFirst_split hfirst hholds]
  rw [cacheGet]
  simp only [hupdate]
  split_ifs with hrefreshing hold
  · exact Turn.quiet rfl rfl rfl (fun _ ↦ rfl) (fun _ ↦ rfl) fun _ ↦ rfl
  · -- what is dropped stores nothing
    have hused (d : ℕ) := total_used_add (CacheEntryContent.place d) entry.datas
    refine Turn.replace hl rfl rfl hone rfl (fun d ↦ ?_) (fun d ↦ ?_) (fun key hkey ↦ ?_)
      (fun d hd ↦ absurd rfl hd) (fun x hx d hd ↦ ?_) rfl fun d hd ↦ ?_
    · show total _ (entry.datas.filter _) ≤ total _ entry.datas + 0
      rw [← hused d]
      omega
    · exact total_stored_used d entry.datas
    · simp only [CacheEntry.refreshes, CacheMessage.completes, tells, total_cons, total_nil,
        hrefreshing, hK.equalKey_iff hentry hg hkey hequal, true_and, false_and, if_false,
        Bool.false_eq_true]
      omega
    · obtain rfl := List.mem_singleton.1 hx
      cases hd
    · have hplace := mem_contentPointers.1 hd
      have hle : entry.places d ≤ 1 := by
        have hle := hone d
        rw [Cache.places, total_split hl] at hle
        omega
      rw [CacheEntry.places, ← hused d] at hle
      refine ⟨?_, total_stored_eq_zero (l := entry.datas.filter _) (by omega)⟩
      rw [CacheEntry.places, ← hused d]
      omega
  · split
    · exact absurd ‹_› (h.datas entry (by simp [hl]) (Bool.eq_false_iff.2 hrefreshing))
    · rename_i item list hdatas
      obtain ⟨datas, usage⟩ := item
      cases datas with
      | none => exact turn_hit hone .nullQueueDatas hl hdatas hequal (by simp) (by decide)
      | some d => exact turn_hit hone (.datas d) hl hdatas hequal (by simp) (by simp)

omit hK h hone in
theorem mem_flatMap_pushDatas {messages : List (GetMessage κ)} {datas : Option ℕ}
    {x : Delivery κ} (hx : x ∈ messages.flatMap fun g ↦ pushDatas g datas) :
    x.1 ∈ messages ∧ ∃ d, datas = some d ∧ x.2 = .datas d := by
  obtain ⟨g, hg, hx⟩ := List.mem_flatMap.1 hx
  cases datas with
  | none => exact absurd hx List.not_mem_nil
  | some d =>
    obtain rfl := List.mem_singleton.1 hx
    exact ⟨hg, d, rfl, rfl⟩

omit hK h hone in
theorem total_handsOut_pushDatas (d : ℕ) (datas : Option ℕ) (messages : List (GetMessage κ)) :
    total (handsOut d) (messages.flatMap fun g ↦ pushDatas g datas) =
      if datas = some d then messages.length else 0 := by
  induction messages with
  | nil => simp
  | cons g messages ih =>
    rw [List.flatMap_cons, total_append, ih, List.length_cons]
    cases datas with
    | none => rfl
    | some d' =>
      simp only [pushDatas, Option.map_some, Option.toList_some, total_cons, total_nil, handsOut,
        CacheReply.datas.injEq, Option.some.injEq]
      split_ifs <;> omega

/-- **An INSERT** ends the refresh, and serves those who wait for it. -/
theorem turn_cacheRefresh {entry : CacheEntry κ} {key : κ} (hkey : K key) (datas : Option ℕ)
    (hsome : cache.hash.find? (this.holds key) = some entry)
    (hrefreshing : entry.refreshing = true) :
    Turn this K cache (.insert key datas) (cacheRefresh this conf now entry key datas cache) := by
  obtain ⟨l₁, l₂, hl, hholds, hfirst⟩ := exists_split_of_find? hsome
  have hentry : K entry.key := h.keys entry (by simp [hl])
  have hequal := (hK.holds_iff hkey hentry).1 hholds
  have hupdate := updateFirst_split hfirst hholds
  rw [cacheRefresh]
  refine Turn.replace hl ((congrArg _ hl).trans (hupdate _ l₂)) rfl hone rfl (fun d ↦ ?_)
    (fun d ↦ ?_) (fun k hk ↦ ?_) (fun d hd ↦ ?_) (fun x hx d hd ↦ ?_) (List.append_nil _).symm
    fun d hd ↦ absurd hd List.not_mem_nil
  · rw [CacheEntry.places, total_cons, Nat.add_comm]
    exact Nat.le_refl _
  · have hhead : CacheEntryContent.stored d ⟨datas, 1 + (cache.localQueue.filter
        fun g ↦ this.equalKey key g.key).length⟩ = CacheMessage.brings d (.insert key datas) +
          total (handsOut d) ((cache.localQueue.filter fun g ↦ this.equalKey key g.key).flatMap
            fun g ↦ pushDatas g datas) := by
      rw [total_handsOut_pushDatas, CacheEntryContent.stored, CacheMessage.brings]
      split_ifs <;> rfl
    rw [CacheEntry.stored, total_cons, hhead]
    show _ + 0 = total _ entry.datas + _ + _
    omega
  · have htells : total (tells this k) ((cache.localQueue.filter fun g ↦
        this.equalKey key g.key).flatMap fun g ↦ pushDatas g datas) = 0 := by
      refine total_eq_zero fun x hx ↦ if_neg fun hnull ↦ ?_
      obtain ⟨-, d, -, hd⟩ := mem_flatMap_pushDatas hx
      rw [hd] at hnull
      cases hnull.1
    rw [htells]
    simp only [CacheEntry.refreshes, CacheMessage.completes, hrefreshing,
      hK.equalKey_iff hentry hkey hk hequal, true_and, false_and, if_false, Bool.false_eq_true]
    omega
  · rw [CacheMessage.brings] at hd
    have hdatas : datas = some d := of_not_not fun hne ↦ hd (if_neg hne)
    exact ⟨key, by rw [hdatas], hequal⟩
  · obtain ⟨hg, d', hd', hx'⟩ := mem_flatMap_pushDatas hx
    rw [hx'] at hd
    obtain rfl := CacheReply.datas.inj hd
    obtain ⟨hg, hequal'⟩ := List.mem_filter.1 hg
    refine ⟨hK.trans hentry hkey (h.waiting _ hg) hequal hequal', ?_⟩
    rw [CacheEntry.places, total_cons, CacheEntryContent.place, if_pos hd']
    omega

/-- **A FREE** of datas that the entry of its key stores usage for. -/
theorem turn_free {heap : ℕ → Prop} (hheap : PointersDiffer heap) (clock : CacheEntry κ → Int)
    (hpointers : ∀ d, cache.places d ≠ 0 → heap d) {key : κ} (hkey : K key) {d : ℕ}
    {entry : CacheEntry κ} (hentry : entry ∈ cache.hash)
    (hequal : this.equalKey entry.key key = true) (hstored : entry.stored d ≠ 0) :
    Turn this K cache (.free key d) (cacheManager this conf now clock cache (.free key d)) := by
  have hsome := h.find?_eq hK hkey hentry hequal
  obtain ⟨l₁, l₂, hl, hholds, hfirst⟩ := exists_split_of_find? hsome
  have hupdate := updateFirst_split hfirst hholds
  have hle (d : ℕ) : entry.places d ≤ cache.places d := apply_le_total hentry
  have hcontents : ∀ c ∈ entry.datas, ∀ d' ∈ c.datas, heap d' := by
    intro c hc d' hd'
    refine hpointers d' fun hzero ↦ ?_
    have hplace := apply_le_total (f := CacheEntryContent.place d') hc
    rw [CacheEntryContent.place, if_pos (Option.mem_def.1 hd')] at hplace
    have hplaces := hle d'
    rw [CacheEntry.places] at hplaces
    omega
  have hplaces : entry.places d ≠ 0 := fun hzero ↦ hstored (total_stored_eq_zero hzero)
  have hle' := hle d
  have hone' := hone d
  obtain ⟨hgiven, hfewer, hfreed⟩ := given_cacheMessageDestroy hheap
    (hpointers d (by omega)) hcontents (by rw [← CacheEntry.places]; omega) hstored
  rw [cacheManager, hsome]
  refine Turn.replace hl ((congrArg _ hl).trans (hupdate _ l₂)) rfl hone rfl (fun d' ↦ ?_)
    (fun d' ↦ ?_) (fun _ _ ↦ rfl) (fun _ hd ↦ absurd rfl hd)
    (fun x hx ↦ absurd hx List.not_mem_nil) rfl fun d' hd' ↦ ?_
  · exact hfewer d'
  · exact hgiven d'
  · obtain ⟨rfl, hzero⟩ := hfreed d' hd'
    exact ⟨hplaces, hzero⟩

omit hK h hone in
/-- An entry that is old is not refreshing, and stores no usage. -/
theorem cacheEntryIsOld_eq {e : CacheEntry κ} (hold : cacheEntryIsOld now e = true) :
    e.refreshing = false ∧ ∃ c : CacheEntryContent, e.datas = [c] ∧ c.usage = 0 := by
  rw [cacheEntryIsOld] at hold
  split_ifs at hold with hkeep
  rw [not_or] at hkeep
  refine ⟨Bool.eq_false_iff.2 hkeep.1, ?_⟩
  split at hold
  · rename_i c hdatas
    exact ⟨c, hdatas, of_decide_eq_true hold⟩
  · cases hold

omit hK h in
/-- **A REFRESH** drops entries whose datas are not in use. -/
theorem turn_refresh (clock : CacheEntry κ → Int) :
    Turn this K cache .refresh (cacheManager this conf now clock cache .refresh) := by
  have hkept : ∀ f : CacheEntry κ → ℕ, (∀ e, cacheEntryIsOld (clock e) e = true → f e = 0) →
      total f (cache.hash.filter fun e ↦ !cacheEntryIsOld (clock e) e) = total f cache.hash := by
    intro f hf
    have hzero : total f (cache.hash.filter fun e ↦ cacheEntryIsOld (clock e) e) = 0 :=
      total_eq_zero fun e he ↦ hf e (List.mem_filter.1 he).2
    have hadd := total_filter_add f (fun e ↦ cacheEntryIsOld (clock e) e) cache.hash
    omega
  have hstored (d : ℕ) : (cacheManager this conf now clock cache .refresh).1.stored d =
      cache.stored d := by
    refine hkept _ fun e hold ↦ ?_
    obtain ⟨-, c, hc, husage⟩ := cacheEntryIsOld_eq (clock e) hold
    rw [CacheEntry.stored, hc, total_cons, total_nil, CacheEntryContent.stored, husage, ite_self]
  refine ⟨rfl, fun d ↦ ?_, fun d ↦ ?_, fun key _ ↦ ?_, fun e he d hd ↦ ?_, ?_, _, rfl, ?_⟩
  · have hadd := total_filter_add (CacheEntry.places d)
      (fun e ↦ cacheEntryIsOld (clock e) e) cache.hash
    show total _ (cache.hash.filter fun e ↦ !cacheEntryIsOld (clock e) e) ≤ total _ cache.hash + 0
    omega
  · exact hstored d
  · refine hkept _ fun e hold ↦ if_neg fun hrefreshing ↦ ?_
    rw [(cacheEntryIsOld_eq (clock e) hold).1] at hrefreshing
    exact absurd hrefreshing.1 (by decide)
  · exact Or.inl ⟨e, (List.mem_filter.1 he).1, rfl, hd⟩
  · exact fun x hx ↦ absurd hx List.not_mem_nil
  · intro d hd
    obtain ⟨e, he, hpointer⟩ := List.mem_flatMap.1 hd
    have hplace : e.places d ≠ 0 := mem_contentPointers.1 hpointer
    have hold := List.mem_filter.1 he
    obtain ⟨-, c, hc, husage⟩ := cacheEntryIsOld_eq (clock e) hold.2
    refine ⟨?_, ?_⟩
    · -- the entry stores nothing, and no other one holds the datas
      rw [hstored d]
      obtain ⟨l₁, l₂, hl⟩ := List.append_of_mem hold.1
      have hle := hone d
      rw [Cache.places, total_split hl] at hle
      have hrest : total (CacheEntry.stored d) (l₁ ++ l₂) = 0 :=
        total_entryStored_eq_zero (by omega)
      rw [Cache.stored, total_split hl, hrest, CacheEntry.stored, hc, total_cons, total_nil,
        CacheEntryContent.stored, husage, ite_self]
    · have hle : e.places d ≤ cache.places d := apply_le_total hold.1
      omega

omit hK h hone in
theorem turn_reset (clock : CacheEntry κ → Int) :
    Turn this K cache .reset (cacheManager this conf now clock cache .reset) := by
  have hsame : ∀ f : CacheEntry κ → ℕ, (∀ e, f { e with refreshTimestamp := 0 } = f e) →
      total f (cache.hash.map fun e ↦ { e with refreshTimestamp := 0 }) = total f cache.hash := by
    intro f hf
    rw [total, List.map_map]
    exact congrArg List.sum (List.map_congr_left fun e _ ↦ hf e)
  refine ⟨rfl, fun d ↦ ?_, fun d ↦ ?_, fun key _ ↦ ?_, fun e he d hd ↦ ?_, ?_, [],
    by simp [cacheManager], ?_⟩
  · exact Nat.le_of_eq (hsame (CacheEntry.places d) fun _ ↦ rfl)
  · exact hsame (CacheEntry.stored d) fun _ ↦ rfl
  · exact hsame (CacheEntry.refreshes this key) fun _ ↦ rfl
  · obtain ⟨e', he', rfl⟩ := List.mem_map.1 he
    exact Or.inl ⟨e', he', rfl, hd⟩
  · exact fun x hx ↦ absurd hx List.not_mem_nil
  · exact fun d hd ↦ absurd hd List.not_mem_nil

/-- The message finds what it is about: an INSERT an entry that is refreshing, and a FREE the usage
of its datas. -/
def CacheMessage.Expected (this : CacheClass κ) (K : κ → Prop) (cache : Cache κ) :
    CacheMessage κ → Prop
  | .get g => K g.key
  | .insert key _ => K key ∧ cache.refreshes this key ≠ 0
  | .free key d => K key ∧
      ∃ e ∈ cache.hash, this.equalKey e.key key = true ∧ e.stored d ≠ 0
  | _ => True

/-- **One turn of the manager**, on a message that finds what it is about. -/
theorem turn_cacheManager {heap : ℕ → Prop} (hheap : PointersDiffer heap)
    (clock : CacheEntry κ → Int) (hpointers : ∀ d, cache.places d ≠ 0 → heap d)
    (hexpected : message.Expected this K cache) :
    Turn this K cache message (cacheManager this conf now clock cache message) := by
  cases message with
  | get g =>
    rw [cacheManager]
    split
    · exact turn_cacheInsert conf now hK hexpected
    · exact turn_cacheGet now hK h hone hexpected ‹_›
  | insert key datas =>
    obtain ⟨hkey, hne⟩ := hexpected
    obtain ⟨e, he, hrefreshes⟩ := exists_of_total_ne_zero hne
    obtain ⟨hrefreshing, hequal⟩ := of_not_not fun hnot ↦ hrefreshes (if_neg hnot)
    have hsome := h.find?_eq hK hkey he hequal
    rw [cacheManager, hsome]
    show Turn this K cache _ (if e.refreshing = true then _ else _)
    rw [if_pos hrefreshing]
    exact turn_cacheRefresh conf now hK h hone hkey datas hsome hrefreshing
  | free key d =>
    obtain ⟨hkey, e, he, hequal, hstored⟩ := hexpected
    exact turn_free conf now hK h hone hheap clock hpointers hkey he hequal hstored
  | refresh => exact turn_refresh conf now hone clock
  | reset => exact turn_reset conf now clock

omit hone in
/-- The manager keeps its invariant whatever the message. -/
theorem kept_cacheManager (clock : CacheEntry κ → Int) (hkeyed : message.Keyed K) :
    (cacheManager this conf now clock cache message).1.Kept this K := by
  cases message with
  | insert key datas =>
    rw [cacheManager]
    split
    · exact ⟨h.keys, h.distinct, h.waiting, h.parked, h.datas⟩
    · split_ifs
      · exact kept_cacheRefresh conf now hK h hkeyed datas ‹_›
      · exact ⟨h.keys, h.distinct, h.waiting, h.parked, h.datas⟩
  | get | free | refresh | reset =>
    exact (handled_cacheManager conf now hK h clock hkeyed fun _ _ ↦ rfl).kept

omit hone in
/-- A GET has at most one reply, and those that wait are those that have been asked. -/
theorem asked_cacheManager_le (clock : CacheEntry κ → Int) (hkeyed : message.Keyed K) :
    (∀ id, asked id (cacheManager this conf now clock cache message).1.localQueue +
      asked id ((cacheManager this conf now clock cache message).2.map Prod.fst) ≤
        asked id cache.localQueue + asked id message.gets) ∧
      ∀ x ∈ (cacheManager this conf now clock cache message).2,
        x.1 ∈ cache.localQueue ++ message.gets := by
  have hhandled := handled_cacheManager conf now hK h clock hkeyed
  cases message with
  | insert key datas =>
    cases datas with
    | some d =>
      obtain ⟨-, hbalance, -, hreplied⟩ := hhandled fun _ _ ↦ rfl
      exact ⟨fun id ↦ Nat.le_of_eq (hbalance id), hreplied⟩
    | none =>
      -- nobody hears of an INSERT without datas
      have hnone : ∀ l : List (GetMessage κ), (l.flatMap fun g ↦ pushDatas g none) = [] :=
        fun l ↦ List.flatMap_eq_nil_iff.2 fun _ _ ↦ rfl
      rw [cacheManager]
      split
      · simp
      · split_ifs
        · rw [cacheRefresh]
          simp only [hnone]
          refine ⟨fun id ↦ ?_, by simp⟩
          exact Nat.add_le_add_right (List.Sublist.countP_le List.filter_sublist) 0
        · simp
  | get | free | refresh | reset =>
    obtain ⟨-, hbalance, -, hreplied⟩ := hhandled fun _ _ ↦ rfl
    exact ⟨fun id ↦ Nat.le_of_eq (hbalance id), hreplied⟩

end

end Nufw
