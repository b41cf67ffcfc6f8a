import Mathlib.Data.List.Perm.Basic
import Mathlib.Logic.Function.Basic

/-!
# Hash tables with chains

A table of buckets, each of them a list; a new element is put in front of the bucket that its hash
says. A table that is built by adding has in a bucket the elements with its hash
(`mem_ofList`), over all buckets each element as often as it was added (`perm_entries_ofList`), and
is searched in one bucket (`isSome_find?_ofList`).
-/

variable {α : Type*}

/-- A table of buckets. -/
abbrev Buckets (α : Type*) := ℕ → List α

namespace Buckets

/-- The table without elements. -/
def empty : Buckets α := fun _ ↦ []

/-- Put an element in front of its bucket. -/
def add (hash : α → ℕ) (t : Buckets α) (a : α) : Buckets α :=
  Function.update t (hash a) (a :: t (hash a))

/-- The table with some elements. -/
def ofList (hash : α → ℕ) (l : List α) : Buckets α := l.foldl (add hash) empty

/-- The elements of the first `n` buckets. -/
def entries (n : ℕ) (t : Buckets α) : List α := (List.range n).flatMap t

variable {hash : α → ℕ}

theorem mem_add {t : Buckets α} {a b : α} {i : ℕ} :
    b ∈ add hash t a i ↔ (b = a ∧ hash a = i) ∨ b ∈ t i := by
  rw [add]
  by_cases hi : i = hash a
  · rw [hi, Function.update_self, List.mem_cons]
    simp
  · rw [Function.update_of_ne hi]
    simp [Ne.symm hi]

theorem mem_foldl_add {t : Buckets α} {l : List α} {b : α} {i : ℕ} :
    b ∈ l.foldl (add hash) t i ↔ (b ∈ l ∧ hash b = i) ∨ b ∈ t i := by
  induction l generalizing t with
  | nil => simp
  | cons a l ih =>
    rw [List.foldl_cons, ih, mem_add, List.mem_cons]
    constructor
    · rintro (⟨hb, hi⟩ | ⟨rfl, hi⟩ | hb)
      · exact Or.inl ⟨Or.inr hb, hi⟩
      · exact Or.inl ⟨Or.inl rfl, hi⟩
      · exact Or.inr hb
    · rintro (⟨rfl | hb, hi⟩ | hb)
      · exact Or.inr (Or.inl ⟨rfl, hi⟩)
      · exact Or.inl ⟨hb, hi⟩
      · exact Or.inr (Or.inr hb)

/-- **A bucket has the elements with its hash.** -/
theorem mem_ofList {l : List α} {b : α} {i : ℕ} :
    b ∈ ofList hash l i ↔ b ∈ l ∧ hash b = i := by
  rw [ofList, mem_foldl_add]
  exact or_iff_left List.not_mem_nil

theorem perm_flatMap_add {is : List ℕ} (his : is.Nodup) {t : Buckets α} {a : α}
    (ha : hash a ∈ is) : (is.flatMap (add hash t a)).Perm (a :: is.flatMap t) := by
  induction is with
  | nil => cases ha
  | cons i is ih =>
    obtain ⟨hi, his⟩ := List.nodup_cons.1 his
    rw [List.flatMap_cons, List.flatMap_cons]
    rcases List.mem_cons.1 ha with rfl | ha
    · have hrest : is.flatMap (add hash t a) = is.flatMap t :=
        List.flatMap_congr fun j hj ↦
          Function.update_of_ne (fun h : j = hash a ↦ hi (h ▸ hj)) _ _
      rw [hrest, add, Function.update_self, List.cons_append]
    · have hne : i ≠ hash a := fun h ↦ hi (h ▸ ha)
      rw [add, Function.update_of_ne hne, ← add]
      exact ((ih his ha).append_left (t i)).trans List.perm_middle

theorem perm_entries_foldl {n : ℕ} (hn : ∀ a, hash a < n) (t : Buckets α) (l : List α) :
    (entries n (l.foldl (add hash) t)).Perm (l ++ entries n t) := by
  induction l generalizing t with
  | nil => exact List.Perm.refl _
  | cons a l ih =>
    rw [List.foldl_cons, List.cons_append]
    refine (ih _).trans (List.Perm.trans ?_ List.perm_middle)
    exact (perm_flatMap_add List.nodup_range (List.mem_range.2 (hn a))).append_left l

/-- **The buckets have every element as often as it was added.** -/
theorem perm_entries_ofList {n : ℕ} (hn : ∀ a, hash a < n) (l : List α) :
    (entries n (ofList hash l)).Perm l := by
  have hperm := perm_entries_foldl hn (empty : Buckets α) l
  have hempty : entries n (empty : Buckets α) = [] :=
    List.flatMap_eq_nil_iff.2 fun _ _ ↦ rfl
  rwa [hempty, List.append_nil] at hperm

/-- **A search in one bucket** finds an element exactly if one was added, when all the elements that
are looked for have the hash of the bucket. -/
theorem isSome_find?_ofList {p : α → Bool} {i : ℕ} (hp : ∀ a, p a = true → hash a = i)
    (l : List α) : ((ofList hash l i).find? p).isSome = true ↔ ∃ a ∈ l, p a = true := by
  rw [List.find?_isSome]
  constructor
  · rintro ⟨a, ha, hpa⟩
    exact ⟨a, (mem_ofList.1 ha).1, hpa⟩
  · rintro ⟨a, ha, hpa⟩
    exact ⟨a, mem_ofList.2 ⟨ha, hp a hpa⟩, hpa⟩

/-- What is found was added, and is what was looked for. -/
theorem of_find?_ofList {p : α → Bool} {i : ℕ} {l : List α} {a : α}
    (h : (ofList hash l i).find? p = some a) : a ∈ l ∧ p a = true :=
  ⟨(mem_ofList.1 (List.mem_of_find?_eq_some h)).1, List.find?_some h⟩

end Buckets
