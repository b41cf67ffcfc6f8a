import Mathlib.Data.List.Nodup
import Mathlib.Logic.Function.Basic
import Mathlib.Tactic.Common
import Mathlib.Algebra.Order.Ring.Int

/-!
# Singly linked lists

Lists in a heap, as a C program has them: the nodes are at addresses, and each has the address of
the next one. A heap gives the node at an address, and nothing where no node is allocated, so that
reading or writing through a pointer that has been freed fails.

`Linked h l tail` says that the nodes of `l` stand in the heap one after the other, and that the
last of them points to `tail`. Such a segment does not look at other addresses (`linked_update`),
and can be cut anywhere (`linked_append`); the two things a program does to a list, taking a node
out and adding one at the end, follow from these.
-/

/-- A node: what it holds and the address of the next one. -/
structure LinkedNode (α : Type*) where
  data : α
  next : Option ℕ

/-- The nodes that are allocated. -/
abbrev NodeHeap (α : Type*) := ℕ → Option (LinkedNode α)

namespace NodeHeap

variable {α : Type*} {h : NodeHeap α} {l l₁ l₂ : List (ℕ × α)} {tail : Option ℕ} {a : ℕ} {x : α}

/-- Write a node. -/
def store (h : NodeHeap α) (a : ℕ) (n : LinkedNode α) : NodeHeap α := Function.update h a (some n)

/-- `free`. -/
def free (h : NodeHeap α) (a : ℕ) : NodeHeap α := Function.update h a none

/-- Let the node at `a` point to `next`. It has to be there. -/
def setNext (h : NodeHeap α) (a : ℕ) (next : Option ℕ) : Option (NodeHeap α) :=
  (h a).map fun n ↦ h.store a { n with next := next }

/-- Let the node before, if there is one, point to `next`. -/
def setNextOf (h : NodeHeap α) (previous next : Option ℕ) : Option (NodeHeap α) :=
  match previous with
  | some p => h.setNext p next
  | none => some h

/-- The address of the first node, or what comes after the list. -/
def first (l : List (ℕ × α)) (tail : Option ℕ) : Option ℕ :=
  match l with
  | [] => tail
  | (a, _) :: _ => some a

/-- The address of the last node. -/
def last (l : List (ℕ × α)) : Option ℕ := l.getLast?.map Prod.fst

/-- The nodes are there, each with the address of the one after it. -/
def Linked (h : NodeHeap α) : List (ℕ × α) → Option ℕ → Prop
  | [], _ => True
  | (a, x) :: l, tail => h a = some ⟨x, first l tail⟩ ∧ Linked h l tail

@[simp] theorem last_nil : last ([] : List (ℕ × α)) = none := rfl

@[simp] theorem last_concat (l : List (ℕ × α)) (n : ℕ × α) : last (l ++ [n]) = some n.1 := by
  rw [last, List.getLast?_concat]
  rfl

theorem last_append_cons (l₁ : List (ℕ × α)) (n : ℕ × α) (l₂ : List (ℕ × α)) :
    last (l₁ ++ n :: l₂) = last (n :: l₂) := by
  rw [last, last, List.getLast?_append_cons]

theorem last_eq_none_iff : last l = none ↔ l = [] := by
  rw [last, Option.map_eq_none_iff, List.getLast?_eq_none_iff]

theorem first_eq_none_iff : first l none = none ↔ l = [] := by
  cases l with
  | nil => simp [first]
  | cons n l => simp [first]

theorem first_append (l₁ l₂ : List (ℕ × α)) (tail : Option ℕ) :
    first (l₁ ++ l₂) tail = first l₁ (first l₂ tail) := by
  cases l₁ with
  | nil => rfl
  | cons n l₁ => rfl

/-- A list can be cut anywhere. -/
theorem linked_append :
    Linked h (l₁ ++ l₂) tail ↔ Linked h l₁ (first l₂ tail) ∧ Linked h l₂ tail := by
  induction l₁ with
  | nil => exact (and_iff_right trivial).symm
  | cons n l₁ ih => rw [List.cons_append, Linked, Linked, ih, first_append, and_assoc]

/-- A list does not look at other addresses. -/
theorem linked_update {n : Option (LinkedNode α)} (ha : a ∉ l.map Prod.fst) :
    Linked (Function.update h a n) l tail ↔ Linked h l tail := by
  induction l with
  | nil => exact Iff.rfl
  | cons b l ih =>
    rw [List.map_cons, List.mem_cons, not_or] at ha
    rw [Linked, Linked, ih ha.2, Function.update_of_ne (Ne.symm ha.1)]

/-- The addresses of a list are allocated. -/
theorem Linked.ne_none (hl : Linked h l tail) {n : ℕ × α} (hn : n ∈ l) : h n.1 ≠ none := by
  induction l with
  | nil => exact absurd hn List.not_mem_nil
  | cons b l ih =>
    obtain rfl | hn := List.mem_cons.1 hn
    · rw [hl.1]
      exact Option.some_ne_none _
    · exact ih hl.2 hn

/-- What is not allocated is in no list. -/
theorem Linked.notMem (hl : Linked h l tail) (ha : h a = none) : a ∉ l.map Prod.fst := by
  intro hmem
  obtain ⟨n, hn, rfl⟩ := List.mem_map.1 hmem
  exact hl.ne_none hn ha

/-- **The last node of a list is turned to another address.** -/
theorem Linked.setNext (hl : Linked h (l ++ [(a, x)]) tail) (hnodup : ((l ++ [(a, x)]).map
    Prod.fst).Nodup) (next : Option ℕ) :
    ∃ h', h.setNext a next = some h' ∧ Linked h' (l ++ [(a, x)]) next ∧
      ∀ b, b ≠ a → h' b = h b := by
  obtain ⟨hl, ha, -⟩ := linked_append.1 hl
  have hout : a ∉ l.map Prod.fst := by
    rw [List.map_append, List.nodup_append] at hnodup
    exact fun hmem ↦ hnodup.2.2 a hmem a (by simp) rfl
  refine ⟨h.store a ⟨x, next⟩, ?_, linked_append.2 ⟨(linked_update hout).2 hl, ?_, trivial⟩, ?_⟩
  · rw [NodeHeap.setNext, ha]
    rfl
  · exact Function.update_self ..
  · exact fun b hb ↦ Function.update_of_ne hb _ _

/-- **A node is taken out of a list**: the one before it is turned to the one after it. -/
theorem Linked.remove (hl : Linked h (l₁ ++ (a, x) :: l₂) none)
    (hnodup : ((l₁ ++ (a, x) :: l₂).map Prod.fst).Nodup) :
    ∃ h', h.setNextOf (last l₁) (first l₂ none) = some h' ∧
      Linked (h'.free a) (l₁ ++ l₂) none := by
  have hl' := linked_append.1 hl
  have hnext : h a = some ⟨x, first l₂ none⟩ := hl'.2.1
  have hout : a ∉ (l₁ ++ l₂).map Prod.fst := by
    rw [List.map_append, List.map_cons, List.nodup_middle] at hnodup
    rw [List.map_append]
    exact (List.nodup_cons.1 hnodup).1
  rw [List.map_append, List.mem_append, not_or] at hout
  rcases List.eq_nil_or_concat' l₁ with rfl | ⟨l, ⟨p, y⟩, rfl⟩
  · exact ⟨h, rfl, (linked_update hout.2).2 hl'.2.2⟩
  · have hsub : (l ++ [(p, y)]).Sublist (l ++ [(p, y)] ++ (a, x) :: l₂) :=
      List.sublist_append_left _ _
    obtain ⟨h', hset, hlinked, hframe⟩ := hl'.1.setNext (hnodup.sublist (hsub.map _))
      (first l₂ none)
    refine ⟨h', by rw [last_concat]; exact hset, linked_append.2 ⟨?_, ?_⟩⟩
    · exact (linked_update hout.1).2 hlinked
    · refine (linked_update hout.2).2 ?_
      -- the nodes behind are not touched
      have hp : p ∉ l₂.map Prod.fst := by
        intro hmem
        rw [List.map_append, List.nodup_append] at hnodup
        exact hnodup.2.2 p (by simp) p (by simp [hmem]) rfl
      obtain ⟨n, hn, rfl⟩ := Option.map_eq_some_iff.1 hset
      exact (linked_update hp).2 hl'.2.2

/-- **A node is added at the end.** -/
theorem Linked.concat (hl : Linked h l none) (hnodup : (l.map Prod.fst).Nodup) (ha : h a = none)
    (x : α) :
    ∃ h', (h.store a ⟨x, none⟩).setNextOf (last l) (some a) = some h' ∧
      Linked h' (l ++ [(a, x)]) none := by
  have hout := hl.notMem ha
  have hstored : Linked (h.store a ⟨x, none⟩) l none := (linked_update hout).2 hl
  have hself : h.store a ⟨x, none⟩ a = some ⟨x, none⟩ := Function.update_self ..
  rcases List.eq_nil_or_concat' l with rfl | ⟨l, ⟨p, y⟩, rfl⟩
  · exact ⟨_, rfl, hself, trivial⟩
  · obtain ⟨h', hset, hlinked, hframe⟩ := hstored.setNext hnodup (some a)
    refine ⟨h', by rw [last_concat]; exact hset, linked_append.2 ⟨hlinked, ?_, trivial⟩⟩
    rw [hframe a, hself]
    · rfl
    · rintro rfl
      exact hout (by simp)

/-- The nodes can be read from the heap in one way. -/
theorem Linked.unique (h₁ : Linked h l₁ none) (h₂ : Linked h l₂ none)
    (hfirst : first l₁ none = first l₂ none) : l₁ = l₂ := by
  induction l₁ generalizing l₂ with
  | nil => exact (first_eq_none_iff.1 hfirst.symm).symm
  | cons n l₁ ih =>
    cases l₂ with
    | nil => cases hfirst
    | cons m l₂ =>
      obtain ⟨a, x⟩ := n
      obtain ⟨b, y⟩ := m
      obtain rfl : a = b := Option.some.inj hfirst
      obtain ⟨hdata, hnext⟩ := LinkedNode.mk.inj (Option.some.inj (h₁.1.symm.trans h₂.1))
      rw [hdata, ih h₁.2 h₂.2 hnext]

end NodeHeap
