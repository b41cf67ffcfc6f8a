import Mathlib.Tactic.Common
import Mathlib.Algebra.Order.Ring.Int

/-!
# Loops that may not end

A loop of a program as a step function: from a state it goes on with another state, or leaves with a
result. `run` gives it some fuel. What a loop returns does not depend on the fuel
(`Returns.unique`), so that `Returns` is a partial function of the state; that it has a value is
that the loop ends. It does not end when there is an invariant of states that go on with states of
the same kind (`not_returns`), a state that leads to itself being the simplest one.
-/

namespace WhileLoop

variable {σ ρ : Type*} {step : σ → σ ⊕ ρ} {s s' : σ} {r r' : ρ}

/-- The loop, with fuel for some turns. -/
def run (step : σ → σ ⊕ ρ) : ℕ → σ → Option ρ
  | 0, _ => none
  | fuel + 1, s =>
    match step s with
    | .inl s' => run step fuel s'
    | .inr r => some r

/-- The loop ends, with this result. -/
def Returns (step : σ → σ ⊕ ρ) (s : σ) (r : ρ) : Prop := ∃ fuel, run step fuel s = some r

theorem run_of_inl (h : step s = .inl s') (fuel : ℕ) :
    run step (fuel + 1) s = run step fuel s' := by
  rw [run, h]

theorem run_of_inr (h : step s = .inr r) (fuel : ℕ) : run step (fuel + 1) s = some r := by
  rw [run, h]

/-- More fuel does not change the result. -/
theorem run_mono {fuel fuel' : ℕ} (h : run step fuel s = some r) (hle : fuel ≤ fuel') :
    run step fuel' s = some r := by
  induction fuel generalizing fuel' s with
  | zero => cases h
  | succ fuel ih =>
    obtain _ | fuel' := fuel'
    · cases hle
    · cases hstep : step s with
      | inl s' =>
        rw [run_of_inl hstep] at h ⊢
        exact ih h (Nat.le_of_succ_le_succ hle)
      | inr r' =>
        rw [run_of_inr hstep] at h ⊢
        exact h

/-- **The result is unique.** -/
theorem Returns.unique (h : Returns step s r) (h' : Returns step s r') : r = r' := by
  obtain ⟨fuel, h⟩ := h
  obtain ⟨fuel', h'⟩ := h'
  have hmax := run_mono h (Nat.le_max_left fuel fuel')
  rw [run_mono h' (Nat.le_max_right fuel fuel')] at hmax
  exact (Option.some.inj hmax).symm

theorem returns_of_inr (h : step s = .inr r) : Returns step s r := ⟨1, run_of_inr h 0⟩

theorem returns_iff_of_inl (h : step s = .inl s') : Returns step s r ↔ Returns step s' r := by
  constructor
  · rintro ⟨_ | fuel, hrun⟩
    · cases hrun
    · rw [run_of_inl h] at hrun
      exact ⟨fuel, hrun⟩
  · rintro ⟨fuel, hrun⟩
    refine ⟨fuel + 1, ?_⟩
    rw [run_of_inl h]
    exact hrun

/-- **The rule for loops that do not end.** -/
theorem not_returns {I : σ → Prop} (hI : ∀ s, I s → ∃ s', step s = .inl s' ∧ I s') (hs : I s)
    (r : ρ) : ¬Returns step s r := by
  rintro ⟨fuel, hrun⟩
  induction fuel generalizing s with
  | zero => cases hrun
  | succ fuel ih =>
    obtain ⟨s', hstep, hs'⟩ := hI s hs
    rw [run_of_inl hstep] at hrun
    exact ih hs' hrun

end WhileLoop
