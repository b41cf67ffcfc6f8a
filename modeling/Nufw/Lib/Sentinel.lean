import Mathlib.Data.List.Basic

/-!
# Arrays that end with a mark

A loop over an array that has no length and ends with a mark. `searchUntil` is such a search; it
returns `none` when it leaves the array. If an entry before the end can be the mark too, it hides
what follows it (`searchUntil_ne_true_iff`).
-/

variable {α : Type*}

/-- Search for a value, up to the mark. -/
def searchUntil [DecidableEq α] (mark value : α) : List α → Option Bool
  | [] => none
  | item :: items =>
    if item = mark then some false
    else if item = value then some true
    else searchUntil mark value items

section

variable [DecidableEq α] {mark value : α}

/-- The search ends in an array that has the mark. -/
theorem searchUntil_isSome {items : List α} (h : mark ∈ items) :
    ∃ found, searchUntil mark value items = some found := by
  induction items with
  | nil => cases h
  | cons item items ih =>
    rw [searchUntil]
    by_cases hmark : item = mark
    · exact ⟨false, if_pos hmark⟩
    · rw [if_neg hmark]
      by_cases hvalue : item = value
      · exact ⟨true, if_pos hvalue⟩
      · rw [if_neg hvalue]
        exact ih ((List.mem_cons.1 h).resolve_left (Ne.symm hmark))

/-- The mark itself is never found. -/
theorem searchUntil_mark_ne_true (items : List α) : searchUntil mark mark items ≠ some true := by
  induction items with
  | nil => exact nofun
  | cons item items ih =>
    rw [searchUntil]
    by_cases hmark : item = mark
    · rw [if_pos hmark]
      exact nofun
    · rw [if_neg hmark, if_neg hmark]
      exact ih

/-- What is found is there. -/
theorem mem_of_searchUntil {items : List α} (h : searchUntil mark value items = some true) :
    value ∈ items := by
  induction items with
  | nil => cases h
  | cons item items ih =>
    rw [searchUntil] at h
    by_cases hmark : item = mark
    · rw [if_pos hmark] at h
      cases h
    rw [if_neg hmark] at h
    by_cases hvalue : item = value
    · exact hvalue ▸ List.mem_cons_self
    · rw [if_neg hvalue] at h
      exact List.mem_cons_of_mem item (ih h)

/-- **What is there is missed exactly if** the mark stands before it. -/
theorem searchUntil_ne_true_iff {items : List α} (hmem : value ∈ items) :
    searchUntil mark value items ≠ some true ↔
      ∃ before after, items = before ++ mark :: after ∧ value ∉ before := by
  induction items with
  | nil => cases hmem
  | cons item items ih =>
    rw [searchUntil]
    by_cases hmark : item = mark
    · rw [if_pos hmark]
      exact iff_of_true nofun ⟨[], items, by rw [hmark, List.nil_append], List.not_mem_nil⟩
    rw [if_neg hmark]
    by_cases hvalue : item = value
    · rw [if_pos hvalue]
      refine iff_of_false (fun h ↦ h rfl) ?_
      rintro ⟨before, after, heq, hbefore⟩
      rcases before with _ | ⟨b, before⟩
      · exact hmark (List.cons.inj heq).1
      · exact hbefore ((List.cons.inj heq).1 ▸ hvalue ▸ List.mem_cons_self)
    rw [if_neg hvalue, ih ((List.mem_cons.1 hmem).resolve_left (Ne.symm hvalue))]
    constructor
    · rintro ⟨before, after, rfl, hbefore⟩
      refine ⟨item :: before, after, rfl, fun h ↦ ?_⟩
      rcases List.mem_cons.1 h with h | h
      · exact hvalue h.symm
      · exact hbefore h
    · rintro ⟨before, after, heq, hbefore⟩
      rcases before with _ | ⟨b, before⟩
      · exact absurd (List.cons.inj heq).1 hmark
      · exact ⟨before, after, (List.cons.inj heq).2, fun h ↦ hbefore (List.mem_cons_of_mem b h)⟩

end
