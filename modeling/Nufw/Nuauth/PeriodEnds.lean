import Nufw.Nuauth.Period
import Mathlib.Order.Bounds.Basic

/-!
# The end of a period

A period is meant as the intersection of its items: it ends where the first of its items ends, and
has no end when none of them has. The loop of `get_end_of_period_for_time_t` holds the least end so
far, with `-1` both as its first value and as the end of an item without limit. An item without
limit behind a limited one lets the loop forget the limit, so the end is the right one in every
order only when no such pair of items exists (`period_combines_iff`).
-/

namespace Nufw

variable {conf : Params} {t : Int}

/-! ### The loop over the items -/

/-- The ends that the items give at a time. -/
def itemEnds (conf : Params) (t : Int) (items : List PeriodItem) : List Int :=
  items.map fun item ↦ getEndOfPeriodItemForTime conf item t

/-- What a round of the loop keeps of the result and of the end of an item. -/
def narrow (result provend : Int) : Int :=
  if result = -1 ∨ provend < result then provend else result

/-- The loop is a fold, unless an item is out of its period. -/
theorem endOfItems_eq (items : List PeriodItem) (result : Int) :
    endOfItems conf t items result =
      if 0 ∈ itemEnds conf t items then 0 else (itemEnds conf t items).foldl narrow result := by
  induction items generalizing result with
  | nil => rfl
  | cons item items ih =>
    rw [endOfItems, itemEnds, List.map_cons, List.foldl_cons]
    by_cases h0 : getEndOfPeriodItemForTime conf item t = 0
    · rw [if_pos h0, if_pos (List.mem_cons.2 (Or.inl h0.symm))]
    · rw [if_neg h0, ih]
      refine if_congr ?_ rfl rfl
      rw [List.mem_cons]
      exact ⟨Or.inr, fun h ↦ h.resolve_left fun h ↦ h0 h.symm⟩

theorem narrow_eq_or (result provend : Int) :
    narrow result provend = result ∨ narrow result provend = provend := by
  unfold narrow
  split
  · exact Or.inr rfl
  · exact Or.inl rfl

/-- The fold takes its value from the ends, or keeps the first one. -/
theorem foldl_narrow_mem (ends : List Int) (result : Int) :
    ends.foldl narrow result = result ∨ ends.foldl narrow result ∈ ends := by
  induction ends generalizing result with
  | nil => exact Or.inl rfl
  | cons e ends ih =>
    rw [List.foldl_cons]
    rcases ih (narrow result e) with h | h
    · rw [h]
      rcases narrow_eq_or result e with h' | h'
      · exact Or.inl h'
      · rw [h']
        exact Or.inr List.mem_cons_self
    · exact Or.inr (List.mem_cons_of_mem e h)

/-- A limit is kept by ends that are not before it. -/
theorem foldl_narrow_eq_self {m : Int} (hm : m ≠ -1) {ends : List Int} (hle : ∀ e ∈ ends, m ≤ e) :
    ends.foldl narrow m = m := by
  induction ends with
  | nil => rfl
  | cons e ends ih =>
    have he : narrow m e = m := by
      have := hle e List.mem_cons_self
      rw [narrow, if_neg (by omega)]
    rw [List.foldl_cons, he]
    exact ih fun e' h ↦ hle e' (List.mem_cons_of_mem e h)

/-- The fold finds the least of the ends, `-1` counted as a number as the loop does. -/
theorem foldl_narrow_of_isLeast {m : Int} (hm : m ≠ -1) {ends : List Int}
    (hleast : IsLeast {e | e ∈ ends} m) {result : Int} (hr : result = -1 ∨ m ≤ result) :
    ends.foldl narrow result = m := by
  obtain ⟨before, behind, rfl⟩ := List.append_of_mem hleast.1
  have hbehind : ∀ e ∈ behind, m ≤ e := fun e h ↦ hleast.2 (by simp [h])
  have hbefore : ∀ e ∈ before, m ≤ e := fun e h ↦ hleast.2 (by simp [h])
  have hstep : narrow (before.foldl narrow result) m = m := by
    have : before.foldl narrow result = -1 ∨ m ≤ before.foldl narrow result := by
      rcases foldl_narrow_mem before result with h | h
      · rwa [h]
      · exact Or.inr (hbefore _ h)
    rw [narrow]
    split <;> omega
  rw [List.foldl_append, List.foldl_cons, hstep]
  exact foldl_narrow_eq_self hm hbehind

/-- A last item without limit takes the limit away. -/
theorem foldl_narrow_unlimited {ends : List Int} (hends : ∀ e ∈ ends, -1 ≤ e) :
    (ends ++ [-1]).foldl narrow (-1) = -1 := by
  rw [List.foldl_append, List.foldl_cons, List.foldl_nil]
  have : -1 ≤ ends.foldl narrow (-1) := by
    rcases foldl_narrow_mem ends (-1) with h | h
    · rw [h]
    · exact hends _ h
  rw [narrow]
  split <;> omega

/-! ### The intersection of the items -/

/-- The end of the intersection of items with the given ends. -/
structure IsIntersection (ends : List Int) (r : Int) : Prop where
  outside : 0 ∈ ends → r = 0
  finite : 0 ∉ ends → (∃ e ∈ ends, e ≠ -1) → IsLeast {e | e ∈ ends ∧ e ≠ -1} r
  unlimited : r = -1 ↔ ∀ e ∈ ends, e = -1

/-- The ends for which the loop cannot lose a limit: an item is out of its period, all items have a
limit, none has, or one ended before the epoch. -/
def KeepsLimit (ends : List Int) : Prop :=
  0 ∈ ends ∨ -1 ∉ ends ∨ (∀ e ∈ ends, e = -1) ∨ ∃ e ∈ ends, e < -1

theorem IsIntersection.unique {ends : List Int} {r r' : Int} (h : IsIntersection ends r)
    (h' : IsIntersection ends r') : r = r' := by
  by_cases h0 : 0 ∈ ends
  · rw [h.outside h0, h'.outside h0]
  by_cases hfinite : ∃ e ∈ ends, e ≠ -1
  · exact (h.finite h0 hfinite).unique (h'.finite h0 hfinite)
  · have hall : ∀ e ∈ ends, e = -1 := by
      intro e he
      by_contra hne
      exact hfinite ⟨e, he, hne⟩
    rw [h.unlimited.2 hall, h'.unlimited.2 hall]

theorem IsIntersection.perm {ends ends' : List Int} {r : Int} (h : IsIntersection ends r)
    (hp : ends.Perm ends') : IsIntersection ends' r where
  outside h0 := h.outside (hp.mem_iff.2 h0)
  finite h0 hfinite := by
    obtain ⟨e, he, hne⟩ := hfinite
    have := h.finite (fun h ↦ h0 (hp.mem_iff.1 h)) ⟨e, hp.mem_iff.2 he, hne⟩
    simpa only [hp.mem_iff] using this
  unlimited := by simpa only [hp.mem_iff] using h.unlimited

/-- Every list of ends but the empty one has a least one. -/
theorem exists_isLeast {ends : List Int} {e : Int} (he : e ∈ ends) :
    ∃ m, IsLeast {e | e ∈ ends} m := by
  obtain ⟨m, hm⟩ := Option.isSome_iff_exists.1 (List.isSome_min?_of_mem he)
  rw [List.min?_eq_some_iff] at hm
  exact ⟨m, hm.1, hm.2⟩

theorem isIntersection_of_keepsLimit {ends : List Int} (h : KeepsLimit ends) :
    IsIntersection ends (if 0 ∈ ends then 0 else ends.foldl narrow (-1)) := by
  by_cases h0 : 0 ∈ ends
  · rw [if_pos h0]
    refine ⟨fun _ ↦ rfl, fun h ↦ absurd h0 h, by omega, ?_⟩
    intro hall
    exact absurd (hall 0 h0) (by omega)
  rw [if_neg h0]
  by_cases hall : ∀ e ∈ ends, e = -1
  · -- the fold never leaves its first value
    have hr : ends.foldl narrow (-1) = -1 := by
      rcases foldl_narrow_mem ends (-1) with h | h
      · exact h
      · exact hall _ h
    refine ⟨fun h ↦ absurd h h0, ?_, fun _ ↦ hall, fun _ ↦ hr⟩
    rintro - ⟨e, he, hne⟩
    exact absurd (hall e he) hne
  obtain ⟨e, he, hne⟩ : ∃ e ∈ ends, e ≠ -1 := by
    by_contra hno
    exact hall fun e he ↦ by_contra fun hne ↦ hno ⟨e, he, hne⟩
  obtain ⟨m, hm⟩ := exists_isLeast he
  have hm1 : m ≠ -1 := by
    rintro rfl
    rcases h with h | h | h | ⟨e', he', hlt⟩
    · exact h0 h
    · exact h hm.1
    · exact hall h
    · have := hm.2 he'
      omega
  rw [foldl_narrow_of_isLeast hm1 hm (Or.inl rfl)]
  refine ⟨fun h ↦ absurd h h0, ?_, fun h ↦ absurd h hm1, fun h ↦ absurd h hall⟩
  rintro - -
  exact ⟨⟨hm.1, hm1⟩, fun e he ↦ hm.2 he.1⟩

/-! ### Periods by name -/

/-- The end of a period at a time is the end of the intersection of its items, in whatever order
they stand. -/
structure PeriodCombines (conf : Params) (period : Bytes) (t : Int) : Prop where
  unknown : conf.periods.lookup period = none → getEndOfPeriodForTimeT conf period t = 0
  known : ∀ items, conf.periods.lookup period = some items →
    IsIntersection (itemEnds conf t items) (getEndOfPeriodForTimeT conf period t)
  anyOrder : ∀ items items', conf.periods.lookup period = some items → items.Perm items' →
    getEndOfPeriodForTimeT { conf with periods := (period, items') :: conf.periods } period t =
      getEndOfPeriodForTimeT conf period t

theorem getEndOfPeriodForTimeT_eq {period : Bytes} {items : List PeriodItem}
    (h : conf.periods.lookup period = some items) :
    getEndOfPeriodForTimeT conf period t =
      if 0 ∈ itemEnds conf t items then 0 else (itemEnds conf t items).foldl narrow (-1) := by
  rw [getEndOfPeriodForTimeT, h]
  exact endOfItems_eq items (-1)

theorem getEndOfPeriodForTimeT_cons (period : Bytes) (items : List PeriodItem) :
    getEndOfPeriodForTimeT { conf with periods := (period, items) :: conf.periods } period t =
      if 0 ∈ itemEnds conf t items then 0 else (itemEnds conf t items).foldl narrow (-1) := by
  have hlookup : ((period, items) :: conf.periods).lookup period = some items :=
    List.lookup_cons_self
  rw [getEndOfPeriodForTimeT, hlookup]
  exact endOfItems_eq items (-1)

/-- A permutation of the items can put an item without limit last. -/
theorem exists_perm_unlimited {items : List PeriodItem} (h : -1 ∈ itemEnds conf t items) :
    ∃ items', items.Perm items' ∧ ∃ ends, itemEnds conf t items' = ends ++ [-1] ∧
      ∀ e ∈ ends, e ∈ itemEnds conf t items := by
  obtain ⟨item, hitem, hend⟩ := List.mem_map.1 h
  obtain ⟨before, behind, rfl⟩ := List.append_of_mem hitem
  have hp : (before ++ item :: behind).Perm ((before ++ behind) ++ [item]) :=
    List.perm_middle.trans (List.perm_append_singleton item (before ++ behind)).symm
  refine ⟨_, hp, itemEnds conf t (before ++ behind), ?_, ?_⟩
  · rw [itemEnds, List.map_append, List.map_singleton, hend]
    rfl
  · intro e he
    obtain ⟨item', hitem', rfl⟩ := List.mem_map.1 he
    refine List.mem_map_of_mem ?_
    rcases List.mem_append.1 hitem' with h | h
    · exact List.mem_append_left _ h
    · exact List.mem_append_right _ (List.mem_cons_of_mem item h)

/-- **A period ends with the first of its items, in every order of them, exactly when its items do
not mix limited with unlimited ones** at that time, unless one of them ended before the epoch. -/
theorem period_combines_iff (conf : Params) (period : Bytes) (t : Int) :
    PeriodCombines conf period t ↔
      ∀ items, conf.periods.lookup period = some items → KeepsLimit (itemEnds conf t items) := by
  constructor
  · intro h items hitems
    by_contra hno
    rw [KeepsLimit, not_or, not_or, not_or, not_not] at hno
    obtain ⟨h0, hunlimited, hlimited, hlow⟩ := hno
    obtain ⟨items', hp, ends, heq, hends⟩ := exists_perm_unlimited hunlimited
    have hend : getEndOfPeriodForTimeT conf period t = -1 := by
      have h0' : 0 ∉ itemEnds conf t items' := fun h' ↦
        h0 ((hp.map fun item ↦ getEndOfPeriodItemForTime conf item t).mem_iff.2 h')
      rw [← h.anyOrder items items' hitems hp, getEndOfPeriodForTimeT_cons, if_neg h0', heq]
      refine foldl_narrow_unlimited fun e he ↦ ?_
      by_contra hlt
      exact hlow ⟨e, hends e he, by omega⟩
    exact hlimited ((h.known items hitems).unlimited.1 hend)
  · intro h
    refine ⟨?_, ?_, ?_⟩
    · intro hnone
      rw [getEndOfPeriodForTimeT, hnone]
    · intro items hitems
      rw [getEndOfPeriodForTimeT_eq hitems]
      exact isIntersection_of_keepsLimit (h items hitems)
    · intro items items' hitems hp
      have hends := hp.map fun item ↦ getEndOfPeriodItemForTime conf item t
      have hkeeps : KeepsLimit (itemEnds conf t items') := by
        simpa only [KeepsLimit, itemEnds, hends.mem_iff] using h items hitems
      rw [getEndOfPeriodForTimeT_cons, getEndOfPeriodForTimeT_eq hitems]
      exact (isIntersection_of_keepsLimit hkeeps).unique
        ((isIntersection_of_keepsLimit (h items hitems)).perm hends)

/-- The working days of the time from the first of January 2008 on. -/
def mixedPeriod : Params :=
  { Params.default with
    periods := [([119], [⟨0, -1, -1, 1, 5, -1, -1⟩, ⟨0, 1199145600, -1, -1, -1, -1, -1⟩])] }

/-- On the Thursday of the second week, the period ends with the week and not never. -/
theorem mixedPeriod_not_combines : ¬ PeriodCombines mixedPeriod [119] 1199966400 := by
  intro h
  have hend : getEndOfPeriodForTimeT mixedPeriod [119] 1199966400 = -1 := by decide +kernel
  have hunlimited := (h.known _ rfl).unlimited.1 hend 1200096000 (by decide +kernel)
  exact absurd hunlimited (by decide)

end Nufw
