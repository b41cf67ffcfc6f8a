import Mathlib.Tactic.Common
import Mathlib.Algebra.Order.Ring.Int
import Mathlib.Data.List.Basic
import Mathlib.Data.List.Induction

/-!
# Search trees

A balanced search tree, as the list of its values from left to right. `insert` replaces a value that
compares equal. So of the values that have been inserted those are left that no later one replaces
(`mem_build`).
-/

namespace SearchTree

variable {α : Type*} {cmp : α → α → Ordering} {l : List α} {a x : α}

/-- Put a value into the tree, in place of one that is equal to it. -/
def insert (cmp : α → α → Ordering) (a : α) : List α → List α
  | [] => [a]
  | b :: l =>
    match cmp a b with
    | .lt => a :: b :: l
    | .eq => a :: l
    | .gt => b :: insert cmp a l

/-- The values are in order. -/
abbrev Ordered (cmp : α → α → Ordering) (l : List α) : Prop := l.Pairwise fun a b ↦ cmp a b = .lt

section

variable [Std.TransCmp cmp]

theorem mem_insert (h : Ordered cmp l) : x ∈ insert cmp a l ↔ x = a ∨ x ∈ l ∧ cmp a x ≠ .eq := by
  induction l with
  | nil => simp [insert]
  | cons b l ih =>
    obtain ⟨hb, hl⟩ := List.pairwise_cons.1 h
    rw [insert]
    split
    · rename_i hlt
      rw [List.mem_cons]
      refine or_congr_right ⟨fun hx ↦ ⟨hx, ?_⟩, And.left⟩
      obtain rfl | hx := List.mem_cons.1 hx
      · rw [hlt]
        decide
      · rw [Std.TransCmp.lt_trans hlt (hb x hx)]
        decide
    · rename_i heq
      rw [List.mem_cons]
      refine or_congr_right ⟨fun hx ↦ ⟨List.mem_cons_of_mem _ hx, ?_⟩, fun hx ↦ ?_⟩
      · rw [Std.TransCmp.lt_of_eq_of_lt heq (hb x hx)]
        decide
      · refine (List.mem_cons.1 hx.1).resolve_left ?_
        rintro rfl
        exact hx.2 heq
    · rename_i hgt
      rw [List.mem_cons, ih hl, List.mem_cons]
      constructor
      · rintro (rfl | rfl | hx)
        · exact Or.inr ⟨Or.inl rfl, by rw [hgt]; decide⟩
        · exact Or.inl rfl
        · exact Or.inr ⟨Or.inr hx.1, hx.2⟩
      · rintro (rfl | ⟨rfl | hx, hne⟩)
        · exact Or.inr (Or.inl rfl)
        · exact Or.inl rfl
        · exact Or.inr (Or.inr ⟨hx, hne⟩)

theorem ordered_insert (h : Ordered cmp l) : Ordered cmp (insert cmp a l) := by
  induction l with
  | nil => exact List.pairwise_singleton _ _
  | cons b l ih =>
    obtain ⟨hb, hl⟩ := List.pairwise_cons.1 h
    rw [insert]
    split
    · rename_i hlt
      refine List.pairwise_cons.2 ⟨fun x hx ↦ ?_, h⟩
      obtain rfl | hx := List.mem_cons.1 hx
      · exact hlt
      · exact Std.TransCmp.lt_trans hlt (hb x hx)
    · rename_i heq
      exact List.pairwise_cons.2 ⟨fun x hx ↦ Std.TransCmp.lt_of_eq_of_lt heq (hb x hx), hl⟩
    · rename_i hgt
      refine List.pairwise_cons.2 ⟨fun x hx ↦ ?_, ih hl⟩
      obtain rfl | hx := (mem_insert hl).1 hx
      · exact Std.OrientedCmp.lt_of_gt hgt
      · exact hb x hx.1

end

/-- The tree after the values have been inserted one after the other. -/
def build (cmp : α → α → Ordering) (l : List α) : List α := l.foldl (fun t a ↦ insert cmp a t) []

theorem build_concat (l : List α) (a : α) : build cmp (l ++ [a]) = insert cmp a (build cmp l) := by
  rw [build, List.foldl_append]
  rfl

theorem ordered_build [Std.TransCmp cmp] (l : List α) : Ordered cmp (build cmp l) := by
  induction l using List.reverseRecOn with
  | nil => exact List.Pairwise.nil
  | append_singleton l a ih =>
    rw [build_concat]
    exact ordered_insert ih

/-- **What is left of the values**: those that are not replaced. -/
theorem mem_build [Std.TransCmp cmp] :
    x ∈ build cmp l ↔ ∃ l₁ l₂, l = l₁ ++ x :: l₂ ∧ ∀ y ∈ l₂, cmp y x ≠ .eq := by
  induction l using List.reverseRecOn with
  | nil => simp [build]
  | append_singleton l a ih =>
    rw [build_concat, mem_insert (ordered_build l), ih]
    constructor
    · rintro (rfl | ⟨⟨l₁, l₂, rfl, hl₂⟩, hne⟩)
      · exact ⟨l, [], rfl, by simp⟩
      · refine ⟨l₁, l₂ ++ [a], by simp, fun y hy ↦ ?_⟩
        obtain hy | hy := List.mem_append.1 hy
        · exact hl₂ y hy
        · obtain rfl := List.mem_singleton.1 hy
          exact hne
    · rintro ⟨l₁, l₂, hl, hl₂⟩
      -- the last value is the one just inserted, or stands behind
      obtain rfl | ⟨l₂, b, rfl⟩ := l₂.eq_nil_or_concat'
      · exact Or.inl (List.append_singleton_inj.1 hl).2.symm
      · rw [← List.cons_append, ← List.append_assoc] at hl
        obtain ⟨rfl, rfl⟩ := List.append_singleton_inj.1 hl
        exact Or.inr ⟨⟨l₁, l₂, rfl, fun y hy ↦ hl₂ y (List.mem_append_left _ hy)⟩, hl₂ a (by simp)⟩

end SearchTree
