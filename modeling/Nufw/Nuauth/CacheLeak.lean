import Nufw.Nuauth.CacheSafety

/-!
# What the ACL cache forgets to free

Once nobody uses the datas of an entry, their usage is zero and the next REFRESH after the entry has
expired should drop it. Two things stand in the way, both at an INSERT. Datas that are `NULL` are
counted like the others, but a connection without ACLs sends no FREE, so that their usage never goes
down. And a FREE that comes while the entry is refreshing leaves the most recent datas in the list,
unused, behind the ones that the INSERT then puts in front: `cache_entry_is_old` takes the list for
one that is in use, since it has more than one element.

`Tidy` excludes both. In the runs that keep to it only the first content of an entry can be unused,
and every content has datas, whose usage is the number of their uses.
-/

namespace Nufw

variable {κ : Type}

/-! ### Tidy entries -/

/-- The INSERT brings datas, into an entry whose contents are all used. -/
def CacheMessage.Tidy (this : CacheClass κ) (cache : Cache κ) : CacheMessage κ → Prop
  | .insert key datas => datas ≠ none ∧
      ∀ e ∈ cache.hash.find? (this.holds key), ∀ c ∈ e.datas, c.usage ≠ 0
  | _ => True

instance (this : CacheClass κ) (cache : Cache κ) :
    (m : CacheMessage κ) → Decidable (m.Tidy this cache)
  | .insert key datas => inferInstanceAs (Decidable (datas ≠ none ∧
      ∀ e ∈ cache.hash.find? (this.holds key), ∀ c ∈ e.datas, c.usage ≠ 0))
  | .get _ | .free _ _ | .refresh | .reset => inferInstanceAs (Decidable True)

/-- The manager does not take an INSERT without datas, nor one for an entry with a content that
nobody uses. -/
def Tidy (this : CacheClass κ) (w : CacheWorld κ) : CacheEvent κ → Prop
  | .manage _ _ => ∀ m ∈ w.queue.head?, m.Tidy this w.cache
  | _ => True

instance (this : CacheClass κ) (w : CacheWorld κ) : (e : CacheEvent κ) → Decidable (Tidy this w e)
  | .manage _ _ => inferInstanceAs (Decidable (∀ m ∈ w.queue.head?, m.Tidy this w.cache))
  | .get _ | .receive _ | .compute _ _ | .freeConnection _ | .refresh | .reset =>
    inferInstanceAs (Decidable True)

/-- Every content has datas, and only the most recent one may be unused. -/
structure CacheEntry.Neat (e : CacheEntry κ) : Prop where
  datas : ∀ c ∈ e.datas, c.datas ≠ none
  used : ∀ c ∈ e.datas.tail, c.usage ≠ 0

/-- A list of contents that a FREE has gone through. -/
theorem neat_cacheMessageDestroy {l : List CacheEntryContent} (d : ℕ)
    (hdatas : ∀ c ∈ l, c.datas ≠ none) (hused : ∀ c ∈ l.tail, c.usage ≠ 0) :
    (∀ c ∈ (cacheMessageDestroy d l).1, c.datas ≠ none) ∧
      ∀ c ∈ (cacheMessageDestroy d l).1.tail, c.usage ≠ 0 := by
  cases l with
  | nil => exact ⟨hdatas, hused⟩
  | cons content list =>
    rw [cacheMessageDestroy]
    rw [List.forall_mem_cons] at hdatas
    split_ifs
    · exact ⟨List.forall_mem_cons.2 ⟨hdatas.1, hdatas.2⟩, hused⟩
    · split
      · exact ⟨List.forall_mem_cons.2 hdatas, hused⟩
      · rename_i found hsome
        obtain ⟨l₁, l₂, rfl, hfound, hfirst⟩ := exists_split_of_find? hsome
        split_ifs with hone
        · rw [updateFirst_split hfirst hfound]
          refine ⟨List.forall_mem_cons.2 ⟨hdatas.1, ?_⟩, ?_⟩
          · exact forall_mem_replace rfl hdatas.2 (hdatas.2 found (by simp))
          · exact forall_mem_replace rfl hused (show found.usage - 1 ≠ 0 by omega)
        · rw [eraseP_split hfirst hfound]
          refine ⟨List.forall_mem_cons.2 ⟨hdatas.1, fun c hc ↦ ?_⟩, fun c hc ↦ ?_⟩
          · exact hdatas.2 c (mem_of_split rfl hc)
          · exact hused c (mem_of_split rfl hc)

section

variable {this : CacheClass κ} {K : κ → Prop} {cache : Cache κ} (conf : Params)

/-- **One turn of the manager** leaves the entries neat. -/
theorem neat_cacheManager (h : ∀ e ∈ cache.hash, e.Neat) (now : Int) (clock : CacheEntry κ → Int)
    {m : CacheMessage κ} (htidy : m.Tidy this cache) :
    ∀ e ∈ (cacheManager this conf now clock cache m).1.hash, e.Neat := by
  cases m with
  | get g =>
    rw [cacheManager]
    split
    · rw [cacheInsert, List.forall_mem_cons]
      exact ⟨⟨fun c hc ↦ absurd hc List.not_mem_nil, fun c hc ↦ absurd hc List.not_mem_nil⟩, h⟩
    · rename_i entry hsome
      obtain ⟨l₁, l₂, hl, hholds, hfirst⟩ := exists_split_of_find? hsome
      have hentry := h entry (by simp [hl])
      have hupdate (e : CacheEntry κ) :
          updateFirst (this.holds g.key) (fun _ ↦ e) cache.hash = l₁ ++ e :: l₂ := by
        rw [hl, updateFirst_split hfirst hholds]
      rw [cacheGet]
      simp only [hupdate]
      split_ifs
      · exact h
      · refine forall_mem_replace hl h ⟨fun c hc ↦ ?_, fun c hc ↦ ?_⟩
        · exact hentry.datas c (List.mem_filter.1 hc).1
        · simpa using (List.mem_filter.1 (List.mem_of_mem_tail hc)).2
      · split
        · exact h
        · rename_i item list hdatas
          obtain ⟨hnone, hused⟩ := hentry
          rw [hdatas, List.forall_mem_cons] at hnone
          rw [hdatas] at hused
          exact forall_mem_replace hl h ⟨List.forall_mem_cons.2 ⟨hnone.1, hnone.2⟩, hused⟩
  | insert key datas =>
    rw [cacheManager]
    split
    · exact h
    · rename_i entry hsome
      split_ifs
      · obtain ⟨l₁, l₂, hl, hholds, hfirst⟩ := exists_split_of_find? hsome
        rw [cacheRefresh]
        show ∀ e ∈ updateFirst _ _ cache.hash, e.Neat
        rw [hl, updateFirst_split hfirst hholds]
        refine forall_mem_replace hl h ⟨List.forall_mem_cons.2 ⟨htidy.1, ?_⟩, ?_⟩
        · exact (h entry (by simp [hl])).datas
        · exact htidy.2 entry hsome
      · exact h
  | free key d =>
    rw [cacheManager]
    split
    · exact h
    · rename_i entry hsome
      obtain ⟨l₁, l₂, hl, hholds, hfirst⟩ := exists_split_of_find? hsome
      show ∀ e ∈ updateFirst _ _ cache.hash, e.Neat
      rw [hl, updateFirst_split hfirst hholds]
      obtain ⟨hdatas, hused⟩ := h entry (by simp [hl])
      obtain ⟨hdatas', hused'⟩ := neat_cacheMessageDestroy d hdatas hused
      exact forall_mem_replace hl h ⟨hdatas', hused'⟩
  | refresh => exact fun e he ↦ h e (List.mem_filter.1 he).1
  | reset => exact List.forall_mem_map.2 fun e he ↦ ⟨(h e he).datas, (h e he).used⟩

/-! ### Runs -/

/-- No connection holds a reply of the entry, or is to read one, and no message is on its way to
it. -/
def CacheWorld.Quiet (this : CacheClass κ) (w : CacheWorld κ) (e : CacheEntry κ) : Prop :=
  (∀ u ∈ w.holding, this.equalKey e.key u.1 = false) ∧
    (∀ x ∈ w.unread, this.equalKey e.key x.1.key = false) ∧
    ∀ m ∈ w.queue, ∀ key ∈ m.key?, this.equalKey e.key key = false

instance (w : CacheWorld κ) (e : CacheEntry κ) : Decidable (w.Quiet this e) :=
  inferInstanceAs (Decidable (_ ∧ _ ∧ _))

variable {conf} {heap : ℕ → Prop} {w : CacheWorld κ}

/-- **Every entry of a run is neat.** -/
theorem neat_of_reach {built : κ → Prop}
    (h : (cacheMachine this conf built).Reach (fun w e ↦ Following heap K w e ∧ Tidy this w e) w) :
    ∀ e ∈ w.cache.hash, e.Neat := by
  refine h.invariant (I := fun w ↦ ∀ e ∈ w.cache.hash, e.Neat) (fun s hs ↦ ?_)
    fun s e hs _ hok ↦ ?_
  · obtain rfl := hs
    exact fun e he ↦ absurd he List.not_mem_nil
  · have hquiet : ∀ {s' : CacheWorld κ}, s'.cache = s.cache → ∀ e ∈ s'.cache.hash, e.Neat :=
      fun hcache ↦ hcache ▸ hs
    cases e with
    | manage now clock =>
      cases hqueue : s.queue with
      | nil => exact hquiet (by simp only [cacheMachine, CacheWorld.step, hqueue])
      | cons m queue =>
        have hneat := neat_cacheManager conf hs now clock (hok.2 m (by rw [hqueue]; rfl))
        simpa only [cacheMachine, CacheWorld.step, hqueue] using hneat
    | receive i =>
      refine hquiet ?_
      show (s.step this conf (.receive i)).cache = s.cache
      rw [CacheWorld.step]
      split
      · rfl
      · split <;> rfl
    | compute i datas =>
      refine hquiet ?_
      show (s.step this conf (.compute i datas)).cache = s.cache
      rw [CacheWorld.step]
      split <;> rfl
    | freeConnection i =>
      refine hquiet ?_
      show (s.step this conf (.freeConnection i)).cache = s.cache
      rw [CacheWorld.step]
      split <;> rfl
    | get | refresh | reset => exact hquiet rfl

/-- Nobody uses the datas of a quiet entry. -/
theorem CacheWorld.Counted.unused_of_quiet (h : w.Counted this K heap) {e : CacheEntry κ}
    (he : e ∈ w.cache.hash) (hquiet : w.Quiet this e) {c : CacheEntryContent} (hc : c ∈ e.datas)
    (hdatas : c.datas ≠ none) : c.usage = 0 := by
  obtain ⟨d, hd⟩ := Option.ne_none_iff_exists'.1 hdatas
  have hplace : e.places d ≠ 0 := mem_contentPointers.1 (List.mem_filterMap.2 ⟨c, hc, hd⟩)
  have hnone : ∀ key, ¬w.Uses key d := by
    intro key hu
    have hequal := h.located key d hu e he hplace
    obtain hu | ⟨x, hx, rfl, -⟩ | hu := hu
    · exact absurd hequal (by simp [hquiet.1 _ hu])
    · exact absurd hequal (by simp [hquiet.2.1 x hx])
    · exact absurd hequal (by simp [hquiet.2.2 _ hu key rfl])
  rw [h.usage_eq he hc hd, CacheWorld.holders]
  have hholding : total (fun u : κ × ℕ ↦ if u.2 = d then 1 else 0) w.holding = 0 :=
    total_eq_zero fun u hu ↦ if_neg fun (hd : u.2 = d) ↦ hnone u.1 (Or.inl (hd ▸ hu))
  have hunread : total (handsOut d) w.unread = 0 :=
    total_eq_zero fun x hx ↦ if_neg fun hd ↦ hnone x.1.key (Or.inr (Or.inl ⟨x, hx, rfl, hd⟩))
  have hqueue : total (CacheMessage.releases d) w.queue = 0 := by
    refine total_eq_zero fun m hm ↦ ?_
    cases m with
    | free key d' => exact if_neg fun (hd : d = d') ↦ hnone key (Or.inr (Or.inr (hd ▸ hm)))
    | get | insert | refresh | reset => rfl
  omega

/-- An entry whose contents are all unused is old once its time is over. -/
theorem cacheEntryIsOld_of_unused {e : CacheEntry κ} (hneat : e.Neat)
    (hrefreshing : e.refreshing = false) (hdatas : e.datas ≠ [])
    (hunused : ∀ c ∈ e.datas, c.usage = 0) {now : Int} (hnow : e.refreshTimestamp < now) :
    cacheEntryIsOld now e = true := by
  rw [cacheEntryIsOld, if_neg (by simp [hrefreshing, hnow])]
  obtain ⟨-, hused⟩ := hneat
  cases hl : e.datas with
  | nil => exact absurd hl hdatas
  | cons c l =>
    rw [hl] at hunused hused
    cases l with
    | nil => exact decide_eq_true (hunused c (by simp))
    | cons c' l => exact absurd (hunused c' (by simp)) (hused c' (by simp))

end

/-- **The ACL cache does not leak**, in every run in which no INSERT without ACLs is taken, and none
for an entry with a content that nobody uses: the contents of a quiet entry are unused, and a
REFRESH after the time of the entry drops it. -/
theorem acl_cache_drops_quiet_entry (order : ByteOrder) (conf : Params) {K : AclKey → Prop}
    (hsymm : ∀ a b, K a → K b → compareAcls a b = true → compareAcls b a = true)
    {heap : ℕ → Prop} (hheap : PointersDiffer heap) {w : CacheWorld AclKey}
    (h : (aclCacheMachine order conf).Reach
      (fun w e ↦ Following heap K w e ∧ Tidy (aclCacheClass order) w e) w)
    {e : CacheEntry AclKey} (he : e ∈ w.cache.hash) (hquiet : w.Quiet (aclCacheClass order) e) :
    (∀ c ∈ e.datas, c.usage = 0) ∧
      (e.refreshing = false → ∀ now clock queue, w.queue = .refresh :: queue →
        e.refreshTimestamp < clock e →
          ∀ e' ∈ ((aclCacheMachine order conf).step w (.manage now clock)).cache.hash,
            compareAcls e.key e'.key = false) := by
  have hK := properKeys_aclCacheClass order hsymm
  have hcounted := CacheWorld.counted_of_reach hK hheap (h.mono fun _ _ hok ↦ hok.1)
  have hneat := neat_of_reach h
  have hunused : ∀ c ∈ e.datas, c.usage = 0 := fun c hc ↦
    hcounted.unused_of_quiet he hquiet hc ((hneat e he).datas c hc)
  refine ⟨hunused, fun hrefreshing now clock queue hqueue hnow e' he' ↦ ?_⟩
  have hold := cacheEntryIsOld_of_unused (hneat e he) hrefreshing
    (hcounted.kept.datas e he hrefreshing) hunused hnow
  have he' : e' ∈ w.cache.hash.filter fun e ↦ !cacheEntryIsOld (clock e) e := by
    simpa only [cacheMachine, CacheWorld.step, hqueue, cacheManager] using he'
  obtain ⟨hmem, hkeep⟩ := List.mem_filter.1 he'
  -- an entry with an equal key would be the same one
  refine Bool.eq_false_iff.2 fun hequal ↦ ?_
  have hkey := hcounted.kept.keys e he
  have hkey' := hcounted.kept.keys e' hmem
  have hfind := hcounted.kept.find?_eq hK hkey' he hequal
  rw [hcounted.kept.find?_eq hK hkey' hmem (hK.refl hkey')] at hfind
  rw [Option.some.inj hfind, hold] at hkeep
  cases hkeep

/-- A lookup that finds ACLs, whose connection is then freed. -/
def freedLookup : List (CacheEvent AclKey) :=
  [.get secondLookup.key, .manage 0 fun _ ↦ 0, .receive 0, .compute 0 (some 5),
    .manage 0 fun _ ↦ 0, .freeConnection 0, .manage 0 fun _ ↦ 0]

/-- The entry of the lookup goes with the next REFRESH after its time. -/
theorem freed_lookup_dropped :
    let w := (aclCacheMachine .little Params.default).step
      ((aclCacheMachine .little Params.default).run CacheWorld.start freedLookup) .refresh
    w.cache.hash.length = 1 ∧ ∀ e ∈ w.cache.hash, w.Quiet (aclCacheClass .little) e ∧
      (∀ c ∈ e.datas, c.usage = 0) ∧
      ∀ e' ∈ ((aclCacheMachine .little Params.default).step w
        (.manage 100 fun _ ↦ 100)).cache.hash, compareAcls e.key e'.key = false := by
  have hbuilt : secondLookup.key.Built := Connection.web_built 1026
  have hpath : (aclCacheMachine .little Params.default).Path
      (fun w e ↦ Following (· = 5) (· = secondLookup.key) w e ∧ Tidy (aclCacheClass .little) w e)
      CacheWorld.start freedLookup :=
    ⟨⟨trivial, hbuilt⟩, ⟨⟨rfl, trivial⟩, trivial⟩,
      ⟨by decide +kernel, trivial⟩, ⟨⟨trivial, trivial⟩, by decide +kernel⟩,
      ⟨by decide +kernel, trivial⟩, ⟨⟨trivial, trivial⟩, trivial⟩,
      ⟨by decide +kernel, trivial⟩,
        ⟨⟨trivial, rfl, by decide +kernel, by decide +kernel⟩, trivial⟩,
      ⟨by decide +kernel, trivial⟩, ⟨⟨trivial, trivial⟩, by decide +kernel⟩,
      ⟨by decide +kernel, trivial⟩, ⟨⟨trivial, trivial⟩, trivial⟩,
      ⟨by decide +kernel, trivial⟩, ⟨⟨trivial, trivial⟩, by decide +kernel⟩, trivial⟩
  have hsymm : ∀ a b, a = secondLookup.key → b = secondLookup.key →
      compareAcls a b = true → compareAcls b a = true := by
    rintro _ _ rfl rfl h
    exact h
  have hheap : PointersDiffer (· = 5) :=
    ⟨fun ha hb _ ↦ ha.trans hb.symm, fun ha ↦ ha ▸ by decide⟩
  intro w
  have hreach : (aclCacheMachine .little Params.default).Reach (fun w e ↦
      Following (· = 5) (· = secondLookup.key) w e ∧ Tidy (aclCacheClass .little) w e) w :=
    Machine.Reach.step (Machine.reach_run _ rfl _ hpath) ⟨trivial, trivial⟩
      ⟨⟨trivial, trivial⟩, trivial⟩
  have hquiet : ∀ e ∈ w.cache.hash, w.Quiet (aclCacheClass .little) e := by decide +kernel
  have hold : ∀ e ∈ w.cache.hash, e.refreshing = false ∧ e.refreshTimestamp < 100 := by
    decide +kernel
  refine ⟨by decide +kernel, fun e he ↦ ?_⟩
  obtain ⟨hunused, hdropped⟩ := acl_cache_drops_quiet_entry .little Params.default hsymm hheap
    hreach he (hquiet e he)
  have hrefresh : ∀ v : CacheWorld AclKey, v.queue.length = 0 →
      ((aclCacheMachine .little Params.default).step v .refresh).queue = [.refresh] := by
    intro v hv
    show v.queue ++ [.refresh] = [.refresh]
    rw [List.eq_nil_of_length_eq_zero hv, List.nil_append]
  have hqueue : w.queue = [.refresh] := hrefresh _ (by decide +kernel)
  exact ⟨hquiet e he, hunused, hdropped (hold e he).1 100 _ [] hqueue (hold e he).2⟩

/-- **The entry of a flow without ACLs stays for ever**: nobody holds anything, the usage of its
content is one, and a REFRESH after its time leaves it in the table. -/
theorem unmatched_entry_kept :
    let clock : CacheEntry AclKey → Int := fun _ ↦ 100
    let w := (aclCacheMachine .little Params.default).run CacheWorld.start
      [.get secondLookup.key, .manage 0 clock, .receive 0, .compute 0 none, .manage 0 clock,
        .refresh]
    (aclCacheMachine .little Params.default).Reach (Following (· = 5) (· = secondLookup.key)) w ∧
      (∃ e ∈ w.cache.hash, w.Quiet (aclCacheClass .little) e ∧ e.refreshing = false ∧
        e.refreshTimestamp < clock e ∧ ∃ c ∈ e.datas, c.usage ≠ 0) ∧
      ((aclCacheMachine .little Params.default).step w
        (.manage 100 clock)).cache.hash.length = 1 := by
  have hbuilt : secondLookup.key.Built := Connection.web_built 1026
  intro clock w
  refine ⟨(aclCacheMachine .little Params.default).reach_run rfl _ ?_, by decide +kernel,
    by decide +kernel⟩
  exact ⟨⟨trivial, hbuilt⟩, ⟨rfl, trivial⟩, ⟨by decide +kernel, trivial⟩, ⟨trivial, trivial⟩,
    ⟨by decide +kernel, trivial⟩, ⟨trivial, trivial⟩, ⟨by decide +kernel, trivial⟩,
    ⟨trivial, trivial⟩, ⟨by decide +kernel, trivial⟩, ⟨trivial, trivial⟩, ⟨trivial, trivial⟩,
    ⟨trivial, trivial⟩, trivial⟩

-- An old content that is given back while the entry is refreshing stays behind the new one, and the
-- entry is kept although nobody uses either.
example :
    let clock : CacheEntry AclKey → Int := fun _ ↦ 200
    let w := (aclCacheMachine .little Params.default).run CacheWorld.start
      [.get secondLookup.key, .manage 0 clock, .receive 0, .compute 0 (some 5), .manage 0 clock,
        .get secondLookup.key, .manage 100 clock, .receive 1, .freeConnection 0, .manage 100 clock,
        .compute 0 (some 6), .manage 100 clock, .freeConnection 0, .manage 100 clock, .refresh,
        .manage 200 clock]
    w.holding = [] ∧ w.cache.hash.map (fun e ↦ e.datas.map CacheEntryContent.usage) = [[0, 0]] := by
  decide +kernel

end Nufw
