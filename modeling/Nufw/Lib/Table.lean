import Mathlib.Tactic.Common
import Mathlib.Algebra.Order.Ring.Int
import Mathlib.Data.List.Basic
import Mathlib.Algebra.BigOperators.Group.List.Basic

/-!
# Tables and resources held in lists

A hash table as the list of its entries, in no particular order. Looking a key up is `List.find?`,
stealing an entry is `List.eraseP`, and `updateFirst` changes the entry in place. All three act on
the first entry that satisfies a predicate, so that once a lookup has found an entry the list is
split around it (`List.find?_eq_some_iff_append`) and the other two are computed on the split.

`total f l` is the sum of `f` over the elements of a list: the amount of a resource that the
elements hold together.
-/

variable {α : Type*}

/-- Change the first element that satisfies `p`. -/
def updateFirst (p : α → Bool) (f : α → α) : List α → List α
  | [] => []
  | a :: l => if p a then f a :: l else a :: updateFirst p f l

theorem updateFirst_split {p : α → Bool} {l₁ : List α} (h : ∀ b ∈ l₁, p b = false) {a : α}
    (ha : p a = true) (f : α → α) (l₂ : List α) :
    updateFirst p f (l₁ ++ a :: l₂) = l₁ ++ f a :: l₂ := by
  induction l₁ with
  | nil => rw [List.nil_append, updateFirst, if_pos ha, List.nil_append]
  | cons b l₁ ih =>
    rw [List.forall_mem_cons] at h
    rw [List.cons_append, updateFirst, if_neg (by simp [h.1]), ih h.2, List.cons_append]

theorem eraseP_split {p : α → Bool} {l₁ : List α} (h : ∀ b ∈ l₁, p b = false) {a : α}
    (ha : p a = true) (l₂ : List α) : (l₁ ++ a :: l₂).eraseP p = l₁ ++ l₂ := by
  rw [List.eraseP_append_right _ (by simpa using h), List.eraseP_cons_of_pos ha]

/-- A successful lookup splits the table around the entry. -/
theorem exists_split_of_find? {p : α → Bool} {l : List α} {a : α} (h : l.find? p = some a) :
    ∃ l₁ l₂, l = l₁ ++ a :: l₂ ∧ p a = true ∧ ∀ b ∈ l₁, p b = false := by
  obtain ⟨ha, l₁, l₂, hl, hb⟩ := List.find?_eq_some_iff_append.1 h
  exact ⟨l₁, l₂, hl, ha, by simpa using hb⟩

/-- An entry is found under its key, if no other has it. -/
theorem find?_of_mem_of_nodup {β : Type*} [DecidableEq β] {f : α → β} {l : List α}
    (h : (l.map f).Nodup) {a : α} (ha : a ∈ l) : l.find? (fun b ↦ f b = f a) = some a := by
  induction l with
  | nil => cases ha
  | cons b l ih =>
    obtain ⟨hnot, hl⟩ := List.nodup_cons.1 h
    rcases List.mem_cons.1 ha with rfl | ha
    · exact List.find?_cons_of_pos (by simp)
    · have hne : f b ≠ f a := fun hba ↦ hnot (hba ▸ List.mem_map_of_mem ha)
      rw [List.find?_cons_of_neg (by simp [hne])]
      exact ih hl ha

/-- A key that occurs once: taking out its entry is taking out all of them. -/
theorem eraseP_eq_filter_of_nodup {β : Type*} [DecidableEq β] {f : α → β} {l : List α}
    (h : (l.map f).Nodup) (k : β) :
    (l.eraseP fun a ↦ f a = k) = l.filter fun a ↦ f a ≠ k := by
  induction l with
  | nil => rfl
  | cons a l ih =>
    obtain ⟨hnot, hl⟩ := List.nodup_cons.1 h
    by_cases ha : f a = k
    · rw [List.eraseP_cons_of_pos (by simp [ha]), List.filter_cons_of_neg (by simp [ha])]
      refine (List.filter_eq_self.2 fun b hb ↦ ?_).symm
      have hne : f b ≠ k := fun hkey ↦ hnot (ha ▸ hkey ▸ List.mem_map_of_mem hb)
      exact decide_eq_true hne
    · rw [List.eraseP_cons_of_neg (by simp [ha]), List.filter_cons_of_pos (by simp [ha]), ih hl]

/-- A key that occurs once is gone with its entry. -/
theorem find?_eraseP_of_nodup {β : Type*} [DecidableEq β] {f : α → β} {l : List α}
    (h : (l.map f).Nodup) (k : β) :
    (l.eraseP fun a ↦ f a = k).find? (fun a ↦ f a = k) = none := by
  rw [eraseP_eq_filter_of_nodup h]
  refine List.find?_eq_none.2 fun a ha hkey ↦ ?_
  exact of_decide_eq_true (List.mem_filter.1 ha).2 (of_decide_eq_true hkey)

/-- What is left when an entry is taken out was in the table. -/
theorem mem_of_split {l l₁ l₂ : List α} {a b : α} (h : l = l₁ ++ a :: l₂) (hb : b ∈ l₁ ++ l₂) :
    b ∈ l := by
  rw [h, List.mem_append, List.mem_cons]
  rcases List.mem_append.1 hb with hb | hb
  · exact Or.inl hb
  · exact Or.inr (Or.inr hb)

/-- What holds of all entries holds of them after one is replaced by an entry that has it. -/
theorem forall_mem_replace {P : α → Prop} {l l₁ l₂ : List α} {a b : α} (h : l = l₁ ++ a :: l₂)
    (hl : ∀ c ∈ l, P c) (hb : P b) : ∀ c ∈ l₁ ++ b :: l₂, P c := by
  rw [h, List.forall_mem_append, List.forall_mem_cons] at hl
  rw [List.forall_mem_append, List.forall_mem_cons]
  exact ⟨hl.1, hb, hl.2.2⟩

/-- Taking an element out by its position splits the list around it. -/
theorem exists_split_of_getElem? {l : List α} {i : ℕ} {a : α} (h : l[i]? = some a) :
    ∃ l₁ l₂, l = l₁ ++ a :: l₂ ∧ l.eraseIdx i = l₁ ++ l₂ := by
  obtain ⟨hi, ha⟩ := List.getElem?_eq_some_iff.1 h
  refine ⟨l.take i, l.drop (i + 1), ?_, List.eraseIdx_eq_take_drop_succ l i⟩
  rw [← ha, List.getElem_cons_drop, List.take_append_drop]

/-- The total of `f` over a list. -/
def total (f : α → ℕ) (l : List α) : ℕ := (l.map f).sum

@[simp] theorem total_nil (f : α → ℕ) : total f [] = 0 := rfl

@[simp] theorem total_cons (f : α → ℕ) (a : α) (l : List α) :
    total f (a :: l) = f a + total f l := by
  simp [total]

@[simp] theorem total_append (f : α → ℕ) (l₁ l₂ : List α) :
    total f (l₁ ++ l₂) = total f l₁ + total f l₂ := by
  simp [total]

theorem total_eq_zero {f : α → ℕ} {l : List α} (h : ∀ a ∈ l, f a = 0) : total f l = 0 := by
  induction l with
  | nil => rfl
  | cons a l ih =>
    rw [List.forall_mem_cons] at h
    rw [total_cons, h.1, ih h.2]

theorem exists_of_total_ne_zero {f : α → ℕ} {l : List α} (h : total f l ≠ 0) :
    ∃ a ∈ l, f a ≠ 0 := by
  by_contra hcon
  push Not at hcon
  exact h (total_eq_zero hcon)

theorem apply_le_total {f : α → ℕ} {l : List α} {a : α} (h : a ∈ l) : f a ≤ total f l := by
  obtain ⟨l₁, l₂, rfl⟩ := List.append_of_mem h
  simp only [total_append, total_cons]
  omega

theorem total_perm (f : α → ℕ) {l l' : List α} (h : l.Perm l') : total f l = total f l' :=
  (h.map f).sum_eq

theorem total_congr {f g : α → ℕ} {l : List α} (h : ∀ a ∈ l, f a = g a) :
    total f l = total g l := by
  induction l with
  | nil => rfl
  | cons a l ih =>
    rw [List.forall_mem_cons] at h
    rw [total_cons, total_cons, h.1, ih h.2]

/-- An element and what is left of the list when it is taken out. -/
theorem total_split {l l₁ l₂ : List α} {a : α} (h : l = l₁ ++ a :: l₂) (f : α → ℕ) :
    total f l = f a + total f (l₁ ++ l₂) := by
  rw [h]
  simp only [total_append, total_cons]
  omega

/-- What satisfies a predicate and what does not. -/
theorem total_filter_add (f : α → ℕ) (p : α → Bool) (l : List α) :
    total f (l.filter p) + total f (l.filter fun a ↦ !p a) = total f l := by
  induction l with
  | nil => rfl
  | cons a l ih =>
    cases h : p a
    · rw [List.filter_cons_of_neg (by simp [h]), List.filter_cons_of_pos (by simp [h]), total_cons,
        total_cons]
      omega
    · rw [List.filter_cons_of_pos h, List.filter_cons_of_neg (by simp [h]), total_cons, total_cons]
      omega

theorem countP_eq_total (p : α → Bool) (l : List α) :
    l.countP p = total (fun a ↦ if p a then 1 else 0) l := by
  induction l with
  | nil => rfl
  | cons a l ih => rw [List.countP_cons, total_cons, ih, Nat.add_comm]

/-- A list and the one element of it that has a given label. -/
theorem perm_cons_filter_ne {β : Type*} [DecidableEq β] (f : α → β) {l : List α} {a : α}
    (ha : a ∈ l) (hone : l.countP (fun b ↦ f b = f a) ≤ 1) :
    l.Perm (a :: l.filter fun b ↦ f b ≠ f a) := by
  obtain ⟨l₁, l₂, rfl⟩ := List.append_of_mem ha
  rw [List.countP_append, List.countP_cons_of_pos (by simp)] at hone
  have hkeep : ∀ {l : List α}, l.countP (fun b ↦ f b = f a) = 0 →
      (l.filter fun b ↦ f b ≠ f a) = l := by
    intro l hl
    rw [List.countP_eq_zero] at hl
    exact List.filter_eq_self.2 fun b hb ↦ by simpa using hl b hb
  rw [List.filter_append, List.filter_cons_of_neg (by simp), hkeep (by omega), hkeep (by omega)]
  exact List.perm_middle
