import Mathlib.Tactic.Common
import Mathlib.Algebra.Order.Ring.Int
import Mathlib.Data.List.Basic

/-!
# Loops with an early exit

`foldUntil stop step l s` runs `step` over `l` from `s` and leaves as soon as the state satisfies
`stop`, the shape of a C loop `for (...; cur != NULL && !done; ...)`. Nested loops that share their
exit condition flatten into one (`foldUntil_flatMap`), a run is seen through a projection
(`foldUntil_map`), and two runs are compared by a relation kept by every step (`foldUntil_rel`).
-/

variable {α β σ : Type*}

/-- Fold `step` over a list, leaving as soon as the state satisfies `stop`. -/
def foldUntil (stop : σ → Prop) [DecidablePred stop] (step : α → σ → σ) : List α → σ → σ
  | [], s => s
  | a :: l, s => if stop s then s else foldUntil stop step l (step a s)

section

variable {stop : σ → Prop} [DecidablePred stop] {step : α → σ → σ}

@[simp] theorem foldUntil_nil (s : σ) : foldUntil stop step [] s = s := rfl

/-- A state that satisfies the exit condition is the result. -/
theorem foldUntil_of_stop {s : σ} (h : stop s) (l : List α) : foldUntil stop step l s = s := by
  cases l with
  | nil => rfl
  | cons a l => rw [foldUntil, if_pos h]

theorem foldUntil_cons {s : σ} (h : ¬stop s) (a : α) (l : List α) :
    foldUntil stop step (a :: l) s = foldUntil stop step l (step a s) := by
  rw [foldUntil, if_neg h]

theorem foldUntil_append (l₁ l₂ : List α) (s : σ) :
    foldUntil stop step (l₁ ++ l₂) s = foldUntil stop step l₂ (foldUntil stop step l₁ s) := by
  induction l₁ generalizing s with
  | nil => rfl
  | cons a l₁ ih =>
    by_cases h : stop s
    · rw [foldUntil_of_stop h, foldUntil_of_stop h, foldUntil_of_stop h]
    · rw [List.cons_append, foldUntil_cons h, foldUntil_cons h, ih]

/-- **The invariant rule.** What every step keeps, the loop keeps. -/
theorem foldUntil_inv {I : σ → Prop} (hI : ∀ a s, I s → I (step a s)) :
    ∀ (l : List α) {s : σ}, I s → I (foldUntil stop step l s) := by
  intro l
  induction l with
  | nil => exact fun h ↦ h
  | cons a l ih =>
    intro s hs
    rw [foldUntil]
    split
    · exact hs
    · exact ih (hI a s hs)

/-- **Nested loops flatten.** When the body of the outer loop is itself a loop with the same exit
condition, on every state satisfying an invariant of the steps, both are one loop. -/
theorem foldUntil_flatMap {outer : β → σ → σ} {f : β → List α} {I : σ → Prop}
    (hI : ∀ a s, I s → I (step a s))
    (houter : ∀ b s, I s → ¬stop s → outer b s = foldUntil stop step (f b) s) :
    ∀ (l : List β) {s : σ}, I s →
      foldUntil stop outer l s = foldUntil stop step (l.flatMap f) s := by
  intro l
  induction l with
  | nil => exact fun _ ↦ rfl
  | cons b l ih =>
    intro s hs
    rw [List.flatMap_cons, foldUntil_append]
    by_cases h : stop s
    · rw [foldUntil_of_stop h, foldUntil_of_stop h, foldUntil_of_stop h]
    · rw [foldUntil_cons h, houter b s hs h, ih (foldUntil_inv hI _ hs)]

/-- **Two runs over one list.** A relation that determines the exit condition and is kept by every
step is kept by the loop. -/
theorem foldUntil_rel {R : σ → σ → Prop} (hstop : ∀ {s t}, R s t → (stop s ↔ stop t))
    (hstep : ∀ a {s t}, R s t → R (step a s) (step a t)) (l : List α) :
    ∀ {s t : σ}, R s t → R (foldUntil stop step l s) (foldUntil stop step l t) := by
  induction l with
  | nil => exact fun h ↦ h
  | cons a l ih =>
    intro s t hR
    by_cases h : stop s
    · rw [foldUntil_of_stop h, foldUntil_of_stop ((hstop hR).1 h)]
      exact hR
    · rw [foldUntil_cons h, foldUntil_cons fun ht ↦ h ((hstop hR).2 ht)]
      exact ih (hstep a hR)

/-- **A view of the run.** When a projection of the state determines the exit condition and is
changed by each step in its own terms, the run of the projection is the projection of the run. -/
theorem foldUntil_map {τ : Type*} {stop' : τ → Prop} [DecidablePred stop'] {step' : α → τ → τ}
    (f : σ → τ) (hstop : ∀ s, stop s ↔ stop' (f s)) (hstep : ∀ a s, f (step a s) = step' a (f s))
    (l : List α) (s : σ) : f (foldUntil stop step l s) = foldUntil stop' step' l (f s) := by
  induction l generalizing s with
  | nil => rfl
  | cons a l ih =>
    by_cases h : stop s
    · rw [foldUntil_of_stop h, foldUntil_of_stop ((hstop s).1 h)]
    · rw [foldUntil_cons h, foldUntil_cons fun h' ↦ h ((hstop s).2 h'), ih, hstep]

/-- Elements whose step does nothing can be left out. -/
theorem foldUntil_idle {l : List α} (hidle : ∀ a ∈ l, ∀ s, step a s = s) (s : σ) :
    foldUntil stop step l s = s := by
  induction l with
  | nil => rfl
  | cons a l ih =>
    by_cases h : stop s
    · exact foldUntil_of_stop h _
    · rw [foldUntil_cons h, hidle a List.mem_cons_self]
      exact ih fun b hb ↦ hidle b (List.mem_cons_of_mem _ hb)

/-- When the elements that act end the loop, only the first of them does. -/
theorem foldUntil_find? {p : α → Bool} (hidle : ∀ a s, p a = false → step a s = s)
    (hstop : ∀ a s, p a = true → stop (step a s)) (l : List α) {s : σ} (hs : ¬stop s) :
    foldUntil stop step l s = ((l.find? p).map (step · s)).getD s := by
  induction l with
  | nil => rfl
  | cons a l ih =>
    rw [foldUntil_cons hs]
    cases hp : p a with
    | true => rw [foldUntil_of_stop (hstop a s hp), List.find?_cons_of_pos hp]; rfl
    | false => rw [hidle a s hp, ih, List.find?_cons_of_neg (by simp [hp])]

end
