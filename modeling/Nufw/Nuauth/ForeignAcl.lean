import Nufw.Nuauth.PrioToNok

/-!
# ACLs that do not concern the user

What happens to the verdict when an ACL that names neither the user nor one of its groups is
removed from the list. As long as the ACL does not ask for more authentication quality than the
connection has, all its probes are misses and nothing happens. Otherwise `take_decision` takes it
for a refusal without looking for a match:

* with `prio_to_nok` set to `0` a refusal does not end the loops, and nothing happens either;
* with `1` it ends them, so that the removal is seen when the rest of the list accepts;
* with `2` it ends them unless an earlier ACL did, so that the removal is seen when the first ACL
  that counts comes later and accepts.

`foreign_acl_removal_iff` is the exact condition, on the list itself.
-/

namespace Nufw

variable {conf : Params} {now : Int} {c : Connection}

/-! ### Comparing verdicts -/

/-- Two decided connections have the same verdict: accepted together, and then with the same
expiration. -/
def SameVerdict (d d' : Connection) : Prop :=
  (d.decision = .accept ↔ d'.decision = .accept) ∧ (d.decision = .accept → d.expire = d'.expire)

/-- `SameVerdict`, on outcomes. -/
def Outcome.Same (o o' : Outcome) : Prop :=
  (o.Accepted ↔ o'.Accepted) ∧ (o.Accepted → o.expire = o'.expire)

theorem Outcome.Same.refl (o : Outcome) : o.Same o := ⟨Iff.rfl, fun _ ↦ rfl⟩

theorem Outcome.same_of_not_accepted {o o' : Outcome} (h : ¬o.Accepted) :
    o.Same o' ↔ ¬o'.Accepted :=
  ⟨fun hs h' ↦ h (hs.1.2 h'), fun h' ↦ ⟨⟨fun ho ↦ absurd ho h, fun ho ↦ absurd ho h'⟩,
    fun ho ↦ absurd ho h⟩⟩

/-- The decided connection for a given list of ACLs. -/
def decidedWith (conf : Params) (now : Int) (c : Connection) (acls : List (Option AclGroup)) :
    Connection :=
  decidedElement conf now { c with aclGroups := acls }

theorem sameVerdict_iff {acls acls' : List (Option AclGroup)} (hne : acls ≠ [])
    (hne' : acls' ≠ []) :
    SameVerdict (decidedWith conf now c acls) (decidedWith conf now c acls') ↔
      (runOutcome conf now (probes conf c acls) Outcome.start).Same
        (runOutcome conf now (probes conf c acls') Outcome.start) := by
  have haccept : ∀ acls : List (Option AclGroup), acls ≠ [] →
      ((decidedWith conf now c acls).decision = .accept ↔
        (runOutcome conf now (probes conf c acls) Outcome.start).Accepted) :=
    fun acls h ↦ decidedElement_accept_iff (c := { c with aclGroups := acls }) h
  have hexpire : ∀ acls : List (Option AclGroup), acls ≠ [] →
      (decidedWith conf now c acls).expire =
        (runOutcome conf now (probes conf c acls) Outcome.start).expire :=
    fun acls h ↦ decidedElement_expire_eq (c := { c with aclGroups := acls }) h
  rw [SameVerdict, Outcome.Same, haccept acls hne, haccept acls' hne', hexpire acls hne,
    hexpire acls' hne']

/-! ### Probes of a foreign ACL -/

/-- An element that the loops pass over: an ACL that does not name the user and does not ask for
too much quality. -/
def Silent (conf : Params) (c : Connection) (acl : Option AclGroup) : Prop :=
  ∃ a, acl = some a ∧ a.authQuality ≤ c.authQuality ∧ a.names conf c = false

/-- A probe that is not a miss. -/
def Probe.decisive : Probe → Bool
  | .miss _ => false
  | _ => true

theorem Silent.decisive_eq_false {acl : Option AclGroup} (h : Silent conf c acl) {p : Probe}
    (hp : p ∈ probesOf conf c acl) : p.decisive = false := by
  obtain ⟨a, rfl, hq, hn⟩ := h
  have hs := AclGroup.tooStrict_eq_false.2 hq
  cases p with
  | null => exact absurd (null_mem_probesOf.1 hp) (by simp)
  | strict b =>
    obtain ⟨hb, hb'⟩ := strict_mem_probesOf.1 hp
    rw [← Option.some.inj hb, hs] at hb'
    cases hb'
  | hit b =>
    obtain ⟨hb, -, hb'⟩ := hit_mem_probesOf.1 hp
    rw [← Option.some.inj hb, hn] at hb'
    cases hb'
  | miss b => rfl

theorem outcomeStep_of_not_decisive (p : Probe) (o : Outcome) (hp : p.decisive = false) :
    outcomeStep conf now p o = o := by
  cases p with
  | null => cases hp
  | strict a => cases hp
  | hit a => cases hp
  | miss a => rfl

theorem Silent.runOutcome_probesOf {acl : Option AclGroup} (h : Silent conf c acl) (o : Outcome) :
    runOutcome conf now (probesOf conf c acl) o = o :=
  foldUntil_idle (fun p hp o ↦ outcomeStep_of_not_decisive p o (h.decisive_eq_false hp)) o

theorem probes_append (l₁ l₂ : List (Option AclGroup)) :
    probes conf c (l₁ ++ l₂) = probes conf c l₁ ++ probes conf c l₂ := List.flatMap_append

theorem probes_cons (acl : Option AclGroup) (l : List (Option AclGroup)) :
    probes conf c (acl :: l) = probesOf conf c acl ++ probes conf c l := List.flatMap_cons

theorem runOutcome_append (ps qs : List Probe) (o : Outcome) :
    runOutcome conf now (ps ++ qs) o = runOutcome conf now qs (runOutcome conf now ps o) :=
  foldUntil_append ps qs o

/-- A foreign ACL of sufficient quality does nothing. -/
theorem runOutcome_remove_silent {a : Option AclGroup} (ha : Silent conf c a)
    (l₁ l₂ : List (Option AclGroup)) (o : Outcome) :
    runOutcome conf now (probes conf c (l₁ ++ a :: l₂)) o =
      runOutcome conf now (probes conf c (l₁ ++ l₂)) o := by
  rw [probes_append, probes_cons, runOutcome_append, runOutcome_append, ha.runOutcome_probesOf,
    probes_append, runOutcome_append]

theorem probesOf_of_tooStrict {a : AclGroup} (h : a.tooStrict c) :
    probesOf conf c (some a) = [.strict a] := by
  rw [probesOf, if_pos h]

/-! ### Priority to the acceptances -/

/-- Two outcomes that the rest of the loops does not distinguish when acceptances have priority. -/
structure Outcome.SameOk (o o' : Outcome) : Prop where
  test : o.test = o'.test
  expire : o.expire = o'.expire
  accept : o.answer = .accept ↔ o'.answer = .accept

theorem Outcome.SameOk.step (p : Probe) {o o' : Outcome} (h : o.SameOk o') :
    (outcomeStep conf now p o).SameOk (outcomeStep conf now p o') := by
  cases p with
  | null => exact ⟨rfl, h.expire, Iff.rfl⟩
  | strict a => exact ⟨by simp only [outcomeStep, h.test], h.expire, Iff.rfl⟩
  | miss a => exact h
  | hit a =>
    simp only [outcomeStep]
    split_ifs
    · exact ⟨by simp only [h.test], by simp only [h.expire], Iff.rfl⟩
    · exact ⟨rfl, by simp only [h.expire], Iff.rfl⟩
    · exact ⟨by simp only [h.test], h.expire, Iff.rfl⟩

/-- As long as the loops go on, no acceptance has been met. -/
theorem not_accept_of_not_decided (hprio : conf.prioToNok = 0) (ps : List Probe) {o : Outcome}
    (ho : o.test = .nodecide → o.answer ≠ .accept) :
    (runOutcome conf now ps o).test = .nodecide →
      (runOutcome conf now ps o).answer ≠ .accept := by
  refine foldUntil_inv (I := fun o : Outcome ↦ o.test = .nodecide → o.answer ≠ .accept) ?_ ps ho
  intro p o h
  cases p with
  | null => exact fun _ ↦ by simp [outcomeStep]
  | strict a => exact fun _ ↦ rejectOrDrop_ne_accept conf
  | miss a => exact h
  | hit a =>
    simp only [outcomeStep]
    split_ifs with ha hp
    · have htest : testAfter conf .accept o.test = .decided :=
        if_pos (Or.inr (Or.inl ⟨hprio, rfl⟩))
      exact fun ht ↦ absurd (htest.symm.trans ht) (by simp)
    · exact fun _ ↦ by simp
    · exact fun _ ↦ ha

/-- With priority to the acceptances, a refusal for lack of quality does not count. -/
theorem same_of_tooStrict_ok (hprio : conf.prioToNok = 0) {a : AclGroup} (ha : a.tooStrict c)
    (l₁ l₂ : List (Option AclGroup)) :
    (runOutcome conf now (probes conf c (l₁ ++ some a :: l₂)) Outcome.start).Same
      (runOutcome conf now (probes conf c (l₁ ++ l₂)) Outcome.start) := by
  rw [probes_append, probes_cons, probes_append, runOutcome_append, runOutcome_append,
    runOutcome_append, probesOf_of_tooStrict ha]
  have hinv : (runOutcome conf now (probes conf c l₁) Outcome.start).test = .nodecide → _ :=
    not_accept_of_not_decided hprio _ (by simp [Outcome.start])
  generalize runOutcome conf now (probes conf c l₁) Outcome.start = o at hinv
  by_cases hd : o.Decided
  · have hsame : runOutcome conf now [.strict a] o = o := foldUntil_of_stop hd _
    rw [hsame]
    exact Outcome.Same.refl _
  · have hstep : (runOutcome conf now [.strict a] o).SameOk o := by
      rw [runOutcome, foldUntil_cons hd, foldUntil_nil]
      refine ⟨?_, rfl, ?_⟩
      · exact if_neg (by simp [stopsOn, hprio, rejectOrDrop_ne_accept])
      · have hr := rejectOrDrop_ne_accept conf
        have ho := hinv (Outcome.not_decided_iff.1 hd)
        exact ⟨fun h ↦ absurd h hr, fun h ↦ absurd h ho⟩
    have hend : (runOutcome conf now (probes conf c l₂) (runOutcome conf now [.strict a] o)).SameOk
        (runOutcome conf now (probes conf c l₂) o) :=
      foldUntil_rel (R := Outcome.SameOk)
        (fun {s t} h ↦ by rw [Outcome.Decided, Outcome.Decided, h.test])
        (fun p {s t} h ↦ h.step p) (probes conf c l₂) hstep
    refine ⟨?_, fun _ ↦ hend.expire⟩
    exact and_congr hend.accept (by rw [hend.expire])

/-! ### Priority to the refusals -/

/-- The list accepts the connection when refusals have priority, `NULL` elements and ACLs without
an answer included: no element refuses, and the last ACL that names the user answers ACCEPT. -/
def AcceptsNok (conf : Params) (now : Int) (c : Connection) (acls : List (Option AclGroup)) :
    Prop :=
  (∀ acl ∈ acls, ∃ a, acl = some a ∧ a.authQuality ≤ c.authQuality ∧
    (a.names conf c → a.answer ≠ .drop ∧ a.answer ≠ .reject ∧
      (a.answer = .accept → a.inPeriod conf now))) ∧
  ∃ m₁ a m₂, acls = m₁ ++ some a :: m₂ ∧ a.names conf c ∧ a.answer = .accept ∧
    ∀ b, some b ∈ m₂ → b.names conf c = false

theorem lastAnswer_append (ps qs : List Probe) (d : Decision) :
    lastAnswer (ps ++ qs) d = lastAnswer qs (lastAnswer ps d) := by
  induction ps generalizing d with
  | nil => rfl
  | cons p ps ih => cases p <;> exact ih _

theorem lastAnswer_compare (a : AclGroup) (found : List Bool) (d : Decision) :
    lastAnswer (found.map (Probe.compare a)) d = if true ∈ found then a.answer else d := by
  induction found generalizing d with
  | nil => rfl
  | cons f found ih =>
    cases f with
    | true =>
      rw [List.map_cons, Probe.compare, if_pos rfl, lastAnswer, ih, ite_self]
      simp
    | false =>
      rw [List.map_cons, Probe.compare, if_neg (by simp), lastAnswer, ih]
      simp

theorem lastAnswer_probesOf {a : AclGroup} (hq : a.authQuality ≤ c.authQuality) (d : Decision) :
    lastAnswer (probesOf conf c (some a)) d = if a.names conf c then a.answer else d := by
  rw [probesOf, AclGroup.tooStrict_eq_false.2 hq, if_neg (by simp), lastAnswer_compare]
  simp only [true_mem_comparisons]

/-- The answer of the last hit, on the list. -/
theorem lastAnswer_probes {acls : List (Option AclGroup)}
    (hacls : ∀ acl ∈ acls, ∃ a, acl = some a ∧ a.authQuality ≤ c.authQuality) {d : Decision} :
    lastAnswer (probes conf c acls) d = .accept ↔
      (∃ m₁ a m₂, acls = m₁ ++ some a :: m₂ ∧ a.names conf c ∧ a.answer = .accept ∧
        ∀ b, some b ∈ m₂ → b.names conf c = false) ∨
      d = .accept ∧ ∀ b, some b ∈ acls → b.names conf c = false := by
  induction acls generalizing d with
  | nil => simp [probes, lastAnswer]
  | cons acl acls ih =>
    obtain ⟨a, rfl, hq⟩ := hacls acl List.mem_cons_self
    rw [probes_cons, lastAnswer_append, lastAnswer_probesOf hq,
      ih fun acl h ↦ hacls acl (List.mem_cons_of_mem _ h)]
    constructor
    · rintro (⟨m₁, b, m₂, rfl, h⟩ | ⟨hd, hno⟩)
      · exact Or.inl ⟨some a :: m₁, b, m₂, rfl, h⟩
      · split_ifs at hd with hn
        · exact Or.inl ⟨[], a, acls, rfl, hn, hd, hno⟩
        · refine Or.inr ⟨hd, fun b hb ↦ ?_⟩
          rcases List.mem_cons.1 hb with hb | hb
          · rw [Option.some.inj hb]
            simpa using hn
          · exact hno b hb
    · rintro (⟨m₁, b, m₂, hsplit, hn, hb, hno⟩ | ⟨hd, hno⟩)
      · cases m₁ with
        | nil =>
          obtain ⟨hab, rfl⟩ := List.cons.inj hsplit
          obtain rfl := Option.some.inj hab
          exact Or.inr ⟨by rw [if_pos hn, hb], hno⟩
        | cons x m₁ =>
          obtain ⟨-, rfl⟩ := List.cons.inj hsplit
          exact Or.inl ⟨m₁, b, m₂, rfl, hn, hb, hno⟩
      · refine Or.inr ⟨?_, fun b hb ↦ hno b (List.mem_cons_of_mem _ hb)⟩
        rw [if_neg (by simp [hno a List.mem_cons_self]), hd]

/-- The condition of `accepted_nok_iff`, on the list. -/
theorem acceptsNok_iff_probes {acls : List (Option AclGroup)} :
    ((∀ p ∈ probes conf c acls, p.Admissible conf now) ∧
        lastAnswer (probes conf c acls) .nodecide = .accept) ↔ AcceptsNok conf now c acls := by
  have hadm : (∀ p ∈ probes conf c acls, p.Admissible conf now) ↔
      ∀ acl ∈ acls, ∃ a, acl = some a ∧ a.authQuality ≤ c.authQuality ∧
        (a.names conf c → a.answer ≠ .drop ∧ a.answer ≠ .reject ∧
          (a.answer = .accept → a.inPeriod conf now)) := by
    constructor
    · intro h acl hacl
      cases acl with
      | none => exact (h .null (null_mem_probes.2 hacl)).elim
      | some a =>
        have hq : a.tooStrict c = false := by
          by_contra hs
          exact h (.strict a) (strict_mem_probes.2 ⟨hacl, by simpa using hs⟩)
        exact ⟨a, rfl, AclGroup.tooStrict_eq_false.1 hq, fun hn ↦
          h (.hit a) (hit_mem_probes.2 ⟨hacl, hq, hn⟩)⟩
    · intro h p hp
      cases p with
      | null =>
        obtain ⟨a, ha, -⟩ := h none (null_mem_probes.1 hp)
        cases ha
      | strict a =>
        obtain ⟨hmem, hs⟩ := strict_mem_probes.1 hp
        obtain ⟨b, hb, hq, -⟩ := h _ hmem
        rw [Option.some.inj hb, AclGroup.tooStrict_eq_false.2 hq] at hs
        cases hs
      | miss a => trivial
      | hit a =>
        obtain ⟨hmem, -, hn⟩ := hit_mem_probes.1 hp
        obtain ⟨b, hb, -, hans⟩ := h _ hmem
        obtain rfl := Option.some.inj hb
        exact hans hn
  rw [hadm, AcceptsNok]
  refine and_congr_right fun h ↦ ?_
  rw [lastAnswer_probes fun acl hacl ↦ (h acl hacl).imp fun a ha ↦ ⟨ha.1, ha.2.1⟩]
  simp

/-! ### The first match -/

/-- The list accepts the connection when the first match decides. -/
def AcceptsFirst (conf : Params) (now : Int) (c : Connection) (acls : List (Option AclGroup)) :
    Prop :=
  ∃ m₁ a m₂, acls = m₁ ++ some a :: m₂ ∧ (∀ acl ∈ m₁, Silent conf c acl) ∧
    a.authQuality ≤ c.authQuality ∧ a.names conf c ∧ a.answer = .accept ∧ a.inPeriod conf now

/-- What an element that is not silent amounts to. -/
def decidingProbe (c : Connection) : Option AclGroup → Probe
  | none => .null
  | some a => if a.tooStrict c then .strict a else .hit a

section First

variable (hprio : conf.prioToNok = 2)

include hprio

/-- **The first match, on probes.** -/
theorem runOutcome_first {o : Outcome} (ho : o.test = .nodecide) (ps : List Probe) :
    runOutcome conf now ps o =
      ((ps.find? Probe.decisive).map (outcomeStep conf now · o)).getD o := by
  refine foldUntil_find? outcomeStep_of_not_decisive ?_ ps (Outcome.not_decided_iff.2 ho)
  intro p o hp
  have htest : ∀ d, testAfter conf d o.test = .decided := fun d ↦ if_pos (Or.inr (Or.inr hprio))
  cases p with
  | null => exact rfl
  | strict a => exact htest _
  | miss a => cases hp
  | hit a =>
    simp only [outcomeStep]
    split_ifs
    · exact htest _
    · exact rfl
    · exact htest _

omit hprio in
theorem find?_decisive_silent {acls : List (Option AclGroup)}
    (h : ∀ acl ∈ acls, Silent conf c acl) : (probes conf c acls).find? Probe.decisive = none := by
  rw [List.find?_eq_none]
  intro p hp
  obtain ⟨acl, hacl, hmem⟩ := mem_probes.1 hp
  simp [(h acl hacl).decisive_eq_false hmem]

omit hprio in
/-- The first decisive probe of an element that is not silent. -/
theorem find?_decisive_not_silent {acl : Option AclGroup} (h : ¬Silent conf c acl) :
    (probesOf conf c acl).find? Probe.decisive = some (decidingProbe c acl) := by
  cases acl with
  | none => rfl
  | some a =>
    cases hs : a.tooStrict c with
    | true =>
      rw [probesOf_of_tooStrict hs, decidingProbe, if_pos hs]
      rfl
    | false =>
      rw [decidingProbe, if_neg (by simp [hs])]
      have hn : a.names conf c := by
        by_contra hn
        exact h ⟨a, rfl, AclGroup.tooStrict_eq_false.1 hs, by simpa using hn⟩
      cases hf : (probesOf conf c (some a)).find? Probe.decisive with
      | none =>
        exact absurd rfl (List.find?_eq_none.1 hf _ (hit_mem_probesOf.2 ⟨rfl, hs, hn⟩))
      | some p =>
        have hmem := List.mem_of_find?_eq_some hf
        have hdec := List.find?_some hf
        cases p with
        | null => exact absurd (null_mem_probesOf.1 hmem) (by simp)
        | strict b =>
          obtain ⟨hb, hbs⟩ := strict_mem_probesOf.1 hmem
          rw [← Option.some.inj hb, hs] at hbs
          cases hbs
        | miss b => cases hdec
        | hit b =>
          obtain ⟨hb, -⟩ := hit_mem_probesOf.1 hmem
          rw [Option.some.inj hb]

omit hprio in
/-- A hit accepts a fresh connection when its ACL does. -/
theorem accepted_hit_start (a : AclGroup) :
    (outcomeStep conf now (.hit a) Outcome.start).Accepted ↔
      a.answer = .accept ∧ a.inPeriod conf now := by
  simp only [outcomeStep]
  split_ifs with ha hp
  · have hend : periodEnd conf now a ≠ 0 := by simpa [AclGroup.inPeriod] using hp
    simp [Outcome.Accepted, Outcome.start, lower, hend, ha, hp]
  · simp [Outcome.Accepted, hp]
  · simp [Outcome.Accepted, ha]

omit hprio in
/-- A deciding element accepts a fresh connection when it is an ACL that does. -/
theorem accepted_decidingProbe_iff {acl : Option AclGroup} :
    (outcomeStep conf now (decidingProbe c acl) Outcome.start).Accepted ↔
      ∃ a, acl = some a ∧ a.authQuality ≤ c.authQuality ∧ a.answer = .accept ∧
        a.inPeriod conf now := by
  cases acl with
  | none =>
    constructor
    · rintro ⟨h, -⟩
      cases h
    · rintro ⟨a, ha, -⟩
      cases ha
  | some a =>
    cases hs : a.tooStrict c with
    | true =>
      rw [decidingProbe, if_pos hs]
      constructor
      · intro h
        exact absurd h.1 (rejectOrDrop_ne_accept conf)
      · rintro ⟨b, hb, hq, -⟩
        rw [Option.some.inj hb, AclGroup.tooStrict_eq_false.2 hq] at hs
        cases hs
    | false =>
      rw [decidingProbe, if_neg (by simp [hs]), accepted_hit_start]
      constructor
      · exact fun h ↦ ⟨a, rfl, AclGroup.tooStrict_eq_false.1 hs, h⟩
      · rintro ⟨b, hb, -, h⟩
        rw [Option.some.inj hb]
        exact h

omit hprio in
theorem acceptsFirst_cons_of_silent {acl : Option AclGroup} (h : Silent conf c acl)
    {acls : List (Option AclGroup)} :
    AcceptsFirst conf now c (acl :: acls) ↔ AcceptsFirst conf now c acls := by
  constructor
  · rintro ⟨m₁, a, m₂, hsplit, hm, hq, hn, hrest⟩
    cases m₁ with
    | nil =>
      obtain ⟨rfl, -⟩ := List.cons.inj hsplit
      obtain ⟨b, hb, -, hbn⟩ := h
      rw [← Option.some.inj hb, hn] at hbn
      cases hbn
    | cons x m₁ =>
      obtain ⟨-, rfl⟩ := List.cons.inj hsplit
      exact ⟨m₁, a, m₂, rfl, fun y hy ↦ hm y (List.mem_cons_of_mem _ hy), hq, hn, hrest⟩
  · rintro ⟨m₁, a, m₂, rfl, hm, hrest⟩
    exact ⟨acl :: m₁, a, m₂, rfl, List.forall_mem_cons.2 ⟨h, hm⟩, hrest⟩

omit hprio in
/-- An element that is not silent decides, whatever comes after it. -/
theorem acceptsFirst_cons_of_not_silent {acl : Option AclGroup} (h : ¬Silent conf c acl)
    {acls : List (Option AclGroup)} :
    AcceptsFirst conf now c (acl :: acls) ↔ ∃ a, acl = some a ∧
      a.authQuality ≤ c.authQuality ∧ a.answer = .accept ∧ a.inPeriod conf now := by
  constructor
  · rintro ⟨m₁, a, m₂, hsplit, hm, hq, hn, hrest⟩
    cases m₁ with
    | nil => exact ⟨a, (List.cons.inj hsplit).1, hq, hrest⟩
    | cons x m₁ =>
      obtain ⟨rfl, -⟩ := List.cons.inj hsplit
      exact absurd (hm _ List.mem_cons_self) h
  · rintro ⟨a, rfl, hq, hrest⟩
    refine ⟨[], a, acls, rfl, by simp, hq, ?_, hrest⟩
    -- an ACL that is not silent although its quality is enough names the user
    by_contra hn
    exact h ⟨a, rfl, hq, by simpa using hn⟩

/-- **The first match, on the list.** -/
theorem accepted_first_iff {acls : List (Option AclGroup)} :
    (runOutcome conf now (probes conf c acls) Outcome.start).Accepted ↔
      AcceptsFirst conf now c acls := by
  rw [runOutcome_first hprio rfl]
  induction acls with
  | nil =>
    constructor
    · rintro ⟨h, -⟩
      cases h
    · rintro ⟨m₁, a, m₂, hsplit, -⟩
      simp at hsplit
  | cons acl acls ih =>
    rw [probes_cons, List.find?_append]
    by_cases hsil : Silent conf c acl
    · have hnone : (probesOf conf c acl).find? Probe.decisive = none := by
        simpa [probes] using find?_decisive_silent
          (show ∀ a ∈ [acl], Silent conf c a by simpa using hsil)
      rw [hnone, Option.none_or, ih, acceptsFirst_cons_of_silent hsil]
    · rw [find?_decisive_not_silent hsil, Option.some_or, Option.map_some, Option.getD_some,
        acceptsFirst_cons_of_not_silent hsil]
      exact accepted_decidingProbe_iff

end First

/-! ### Removing a foreign ACL -/

section Removal

variable {a : AclGroup} {l₁ l₂ : List (Option AclGroup)}

/-- Removing an ACL that asks for too much quality, with priority to the refusals. -/
theorem same_of_tooStrict_nok (hprio : conf.prioToNok = 1) (ha : a.tooStrict c) :
    (runOutcome conf now (probes conf c (l₁ ++ some a :: l₂)) Outcome.start).Same
        (runOutcome conf now (probes conf c (l₁ ++ l₂)) Outcome.start) ↔
      ¬AcceptsNok conf now c (l₁ ++ l₂) := by
  rw [Outcome.same_of_not_accepted, accepted_nok_iff hprio, acceptsNok_iff_probes]
  rw [accepted_nok_iff hprio]
  rintro ⟨hadm, -⟩
  exact hadm (.strict a) (strict_mem_probes.2 ⟨by simp, ha⟩)

/-- Removing an ACL that asks for too much quality, when the first match decides. -/
theorem same_of_tooStrict_first (hprio : conf.prioToNok = 2) (ha : a.tooStrict c) :
    (runOutcome conf now (probes conf c (l₁ ++ some a :: l₂)) Outcome.start).Same
        (runOutcome conf now (probes conf c (l₁ ++ l₂)) Outcome.start) ↔
      (∃ acl ∈ l₁, ¬Silent conf c acl) ∨ ¬AcceptsFirst conf now c l₂ := by
  have hwith : (probes conf c (l₁ ++ some a :: l₂)).find? Probe.decisive =
      ((probes conf c l₁).find? Probe.decisive).or (some (.strict a)) := by
    rw [probes_append, probes_cons, probesOf_of_tooStrict ha, List.find?_append]
    rfl
  have hwithout : (probes conf c (l₁ ++ l₂)).find? Probe.decisive =
      ((probes conf c l₁).find? Probe.decisive).or ((probes conf c l₂).find? Probe.decisive) := by
    rw [probes_append, List.find?_append]
  rw [runOutcome_first hprio rfl, runOutcome_first hprio rfl, hwith, hwithout]
  by_cases hsil : ∀ acl ∈ l₁, Silent conf c acl
  · have hno : ¬(∃ acl ∈ l₁, ¬Silent conf c acl) := by
      rintro ⟨acl, hacl, hnot⟩
      exact hnot (hsil acl hacl)
    rw [find?_decisive_silent hsil, Option.none_or, Option.none_or, Option.map_some,
      Option.getD_some, Outcome.same_of_not_accepted fun h ↦ rejectOrDrop_ne_accept conf h.1,
      ← accepted_first_iff hprio, runOutcome_first hprio rfl, or_iff_right hno]
  · push Not at hsil
    obtain ⟨acl, hacl, hnot⟩ := hsil
    obtain ⟨p, hp⟩ : ∃ p, (probes conf c l₁).find? Probe.decisive = some p := by
      rw [← Option.isSome_iff_exists, List.find?_isSome]
      have hfind := find?_decisive_not_silent hnot
      exact ⟨_, mem_probes.2 ⟨acl, hacl, List.mem_of_find?_eq_some hfind⟩, List.find?_some hfind⟩
    rw [hp, Option.some_or, Option.some_or]
    exact iff_of_true (Outcome.Same.refl _) (Or.inl ⟨acl, hacl, hnot⟩)

/-- **Removing an ACL that names neither the user nor one of its groups** leaves the verdict as it
is, exactly when the ACL does not ask for more quality than the connection has, or acceptances have
priority, or the rest of the list does not get to accept anyway. -/
theorem foreign_acl_removal_iff
    (hprio : conf.prioToNok = 0 ∨ conf.prioToNok = 1 ∨ conf.prioToNok = 2)
    (hn : a.names conf c = false) (hne : l₁ ++ l₂ ≠ []) :
    SameVerdict (decidedWith conf now c (l₁ ++ some a :: l₂)) (decidedWith conf now c (l₁ ++ l₂)) ↔
      a.authQuality ≤ c.authQuality ∨ conf.prioToNok = 0 ∨
        conf.prioToNok = 1 ∧ ¬AcceptsNok conf now c (l₁ ++ l₂) ∨
        conf.prioToNok = 2 ∧
          ((∃ acl ∈ l₁, ¬Silent conf c acl) ∨ ¬AcceptsFirst conf now c l₂) := by
  rw [sameVerdict_iff (by simp) hne]
  by_cases hq : a.authQuality ≤ c.authQuality
  · rw [runOutcome_remove_silent ⟨a, rfl, hq, hn⟩]
    exact iff_of_true (Outcome.Same.refl _) (Or.inl hq)
  · have hs : a.tooStrict c := by simpa [AclGroup.tooStrict] using hq
    rcases hprio with h | h | h
    · exact iff_of_true (same_of_tooStrict_ok h hs l₁ l₂) (Or.inr (Or.inl h))
    · rw [same_of_tooStrict_nok h hs]
      simp [hq, h]
    · rw [same_of_tooStrict_first h hs]
      simp [hq, h]

end Removal

/-- An ACL of another user that asks for no more than SASL does not count. -/
theorem foreign_acl_removal_of_sasl :
    let acls := [AclGroup.forUser 7 .accept]
    SameVerdict
      (decidedWith Params.default 1000 (Connection.ofUser 7 [])
        ([] ++ some { AclGroup.forUser 8 .drop with authQuality := 1 } :: acls.map some))
      (decidedWith Params.default 1000 (Connection.ofUser 7 []) ([] ++ acls.map some)) :=
  (foreign_acl_removal_iff (Or.inr (Or.inr rfl)) rfl (by decide)).2 (Or.inl (by decide))

/-- An ACL of another user that asks for a certificate turns the verdict of a SASL user. -/
theorem foreign_acl_decides :
    let acls := [AclGroup.forUser 7 .accept]
    let foreign := { AclGroup.forUser 8 .accept with authQuality := 2 }
    let c := Connection.ofUser 7 []
    foreign.names Params.default c = false ∧ acls.map some ≠ [] ∧
      ¬((decidedWith Params.default 1000 c (some foreign :: acls.map some)).decision = .accept ↔
        (decidedWith Params.default 1000 c (acls.map some)).decision = .accept) := by
  decide

end Nufw
