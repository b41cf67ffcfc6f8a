import Mathlib.Tactic.Common
import Mathlib.Algebra.Order.Ring.Int

/-!
# Machines and their runs

A machine is a step function with a guard that says which events can happen. `Reach M ok s` says
that a run leads to `s` in which every step, besides being enabled, satisfies `ok`: with `ok`
always true this is reachability, and a proper `ok` restricts the runs one talks about without
touching the machine.

The rule for safety is `Reach.invariant`. A concrete run is given by its list of events
(`reach_run`).
-/

/-- A machine over states `σ` and events `ε`. -/
structure Machine (σ ε : Type*) where
  /-- The states a run can start from. -/
  init : σ → Prop
  /-- The event can happen in the state. -/
  enabled : σ → ε → Prop
  /-- What the event does. -/
  step : σ → ε → σ

namespace Machine

variable {σ ε : Type*} {M : Machine σ ε} {ok ok' : σ → ε → Prop} {s : σ}

/-- Some run whose steps all satisfy `ok` leads to the state. -/
inductive Reach (M : Machine σ ε) (ok : σ → ε → Prop) : σ → Prop
  | init {s : σ} (h : M.init s) : Reach M ok s
  | step {s : σ} {e : ε} (h : Reach M ok s) (he : M.enabled s e) (hok : ok s e) :
    Reach M ok (M.step s e)

/-- Some run leads to the state. -/
abbrev Reachable (M : Machine σ ε) : σ → Prop := Reach M fun _ _ ↦ True

/-- **The invariant rule.** -/
theorem Reach.invariant {I : σ → Prop} (hinit : ∀ s, M.init s → I s)
    (hstep : ∀ s e, I s → M.enabled s e → ok s e → I (M.step s e)) (h : Reach M ok s) : I s := by
  induction h with
  | init h => exact hinit _ h
  | step _ he hok ih => exact hstep _ _ ih he hok

/-- Fewer runs reach fewer states. -/
theorem Reach.mono (hok : ∀ s e, ok s e → ok' s e) (h : Reach M ok s) : Reach M ok' s := by
  induction h with
  | init h => exact .init h
  | step _ he h ih => exact .step ih he (hok _ _ h)

/-- The events can happen in turn, each satisfying `ok`. -/
def Path (M : Machine σ ε) (ok : σ → ε → Prop) : σ → List ε → Prop
  | _, [] => True
  | s, e :: es => M.enabled s e ∧ ok s e ∧ Path M ok (M.step s e) es

/-- The state after a list of events. -/
def run (M : Machine σ ε) (s : σ) (es : List ε) : σ := es.foldl M.step s

theorem Reach.path {es : List ε} (h : Reach M ok s) (hes : Path M ok s es) :
    Reach M ok (M.run s es) := by
  induction es generalizing s with
  | nil => exact h
  | cons e es ih => exact ih (h.step hes.1 hes.2.1) hes.2.2

/-- A concrete run, from its start. -/
theorem reach_run (M : Machine σ ε) (hs : M.init s) (es : List ε) (hes : Path M ok s es) :
    Reach M ok (M.run s es) :=
  (Reach.init hs).path hes

end Machine
