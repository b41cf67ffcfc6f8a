import Mathlib.Data.List.Induction
import Nufw.Lib.Transition

/-!
# Runs and their histories

What a state owes to the events that led to it: `Path.history` is the invariant rule for properties
of a state and of the events so far.
-/

namespace Machine

variable {σ ε : Type*} {M : Machine σ ε} {ok ok' : σ → ε → Prop} {s : σ} {es es' : List ε}

theorem run_append (M : Machine σ ε) (s : σ) (es es' : List ε) :
    M.run s (es ++ es') = M.run (M.run s es) es' := List.foldl_append

theorem run_concat (M : Machine σ ε) (s : σ) (es : List ε) (e : ε) :
    M.run s (es ++ [e]) = M.step (M.run s es) e := M.run_append s es [e]

theorem path_append : Path M ok s (es ++ es') ↔ Path M ok s es ∧ Path M ok (M.run s es) es' := by
  induction es generalizing s with
  | nil => exact ⟨fun h ↦ ⟨trivial, h⟩, fun h ↦ h.2⟩
  | cons e es ih =>
    show _ ∧ _ ∧ Path M ok _ (es ++ es') ↔ (_ ∧ _ ∧ Path M ok _ es) ∧ _
    rw [ih, and_assoc, and_assoc]
    rfl

/-- A run whose steps satisfy more. -/
theorem Path.mono (hok : ∀ s e, ok s e → ok' s e) (h : Path M ok s es) : Path M ok' s es := by
  induction es generalizing s with
  | nil => exact trivial
  | cons e es ih => exact ⟨h.1, hok s e h.2.1, ih h.2.2⟩

theorem path_concat {e : ε} (h : Path M ok s es) (he : M.enabled (M.run s es) e)
    (hok : ok (M.run s es) e) : Path M ok s (es ++ [e]) :=
  path_append.2 ⟨h, he, hok, trivial⟩

/-- **The rule for histories.** A property of the state and of the events that led to it, which
holds at first and which every event keeps, holds after every run. -/
theorem Path.history {I : List ε → σ → Prop} (hinit : I [] s)
    (hstep : ∀ es e, Path M ok s es → I es (M.run s es) → M.enabled (M.run s es) e →
      ok (M.run s es) e → I (es ++ [e]) (M.step (M.run s es) e))
    (h : Path M ok s es) : I es (M.run s es) := by
  induction es using List.reverseRecOn with
  | nil => exact hinit
  | append_singleton es e ih =>
    obtain ⟨hes, henabled, hok, -⟩ := path_append.1 h
    rw [run_concat]
    exact hstep es e hes (ih hes) henabled hok

/-- **A machine whose events are events of another machine** has its runs. -/
theorem Path.map {ε' : Type*} {M' : Machine σ ε'} (f : ε' → ε)
    (henabled : ∀ s e, M'.enabled s e → M.enabled s (f e))
    (hstep : ∀ s e, M'.step s e = M.step s (f e)) {ok : σ → ε' → Prop} {es : List ε'}
    (h : Path M' ok s es) :
    Path M (fun _ _ ↦ True) s (es.map f) ∧ M'.run s es = M.run s (es.map f) := by
  induction es generalizing s with
  | nil => exact ⟨trivial, rfl⟩
  | cons e es ih =>
    obtain ⟨he, -, hes⟩ := h
    rw [hstep] at hes
    obtain ⟨hpath, hrun⟩ := ih hes
    refine ⟨⟨henabled s e he, trivial, hpath⟩, ?_⟩
    show M'.run (M'.step s e) es = _
    rw [hstep]
    exact hrun

end Machine
