import Nufw.Nuauth.Verdict

/-!
# Priority to the acceptances

`take_decision` with `prio_to_nok` set to `0` ("we continue till we find an ACL with ACCEPT
decision"). The first hit of an ACCEPT ACL decides, and when that ACL is out of its period it
decides to refuse: the ACLs after it are not looked at. So the verdict is not the one the priority
promises, and depends on the order of the list, exactly when such an ACL comes before the ones that
would have accepted (`decision_of_prio_to_nok_zero`).
-/

namespace Nufw

/-! ### The first ACCEPT hit -/

/-- A hit of an ACCEPT ACL. -/
def Probe.grants : Probe → Bool
  | .hit a => a.answer = .accept
  | _ => false

section Ok

variable {conf : Params} {now : Int} (hprio : conf.prioToNok = 0)

include hprio

/-- **Priority to the acceptances, on probes**: the first hit of an ACCEPT ACL decides. -/
theorem accepted_ok_iff {ps : List Probe} (hnull : .null ∉ ps) {o : Outcome}
    (ho : o.test = .nodecide) (hans : o.answer ≠ .accept) (hexp : o.expire = -1) :
    (runOutcome conf now ps o).Accepted ↔
      ∃ a, ps.find? Probe.grants = some (.hit a) ∧ a.inPeriod conf now := by
  induction ps generalizing o with
  | nil =>
    rw [runOutcome, foldUntil_nil]
    simp [Outcome.Accepted, hans]
  | cons p ps ih =>
    rw [List.mem_cons, not_or] at hnull
    rw [runOutcome, foldUntil_cons (Outcome.not_decided_iff.2 ho)]
    -- nothing but an acceptance ends the loops
    have htest : ∀ d : Decision, d ≠ .accept → testAfter conf d o.test = .nodecide := by
      intro d hd
      rw [testAfter, if_neg (by simp [stopsOn, hprio, hd]), ho]
    cases p with
    | null => exact absurd rfl hnull.1
    | strict a =>
      rw [List.find?_cons_of_neg (by simp [Probe.grants])]
      exact ih hnull.2 (htest _ (rejectOrDrop_ne_accept conf)) (rejectOrDrop_ne_accept conf) hexp
    | miss a =>
      rw [List.find?_cons_of_neg (by simp [Probe.grants])]
      exact ih hnull.2 ho hans hexp
    | hit a =>
      by_cases ha : a.answer = .accept
      · rw [List.find?_cons_of_pos (by simpa [Probe.grants] using ha), outcomeStep, if_pos ha]
        cases hp : a.inPeriod conf now with
        | true =>
          have hdec : Outcome.Decided ⟨.accept, testAfter conf .accept o.test,
              lower o.expire (periodEnd conf now a)⟩ :=
            if_pos (Or.inr (Or.inl ⟨hprio, rfl⟩))
          have hend : periodEnd conf now a ≠ 0 := by simpa [AclGroup.inPeriod] using hp
          rw [if_pos rfl, foldUntil_of_stop hdec, hexp, lower, if_pos (Or.inl rfl)]
          exact ⟨fun _ ↦ ⟨a, rfl, hp⟩, fun _ ↦ ⟨rfl, hend⟩⟩
        | false =>
          -- the period is checked too late: the loops have already been left
          rw [if_neg (by simp), foldUntil_of_stop (show Outcome.Decided ⟨_, .decided, _⟩ from rfl)]
          constructor
          · exact fun h ↦ absurd h.1 (by simp)
          · rintro ⟨b, hb, hp'⟩
            rw [Option.some.injEq, Probe.hit.injEq] at hb
            rw [hb, hp'] at hp
            cases hp
      · rw [List.find?_cons_of_neg (by simpa [Probe.grants] using ha), outcomeStep, if_neg ha]
        exact ih hnull.2 (htest _ ha) ha hexp

end Ok

/-- The ACL names the user, does not ask for more quality than the connection has, and answers
ACCEPT. -/
def AclGroup.candidate (conf : Params) (c : Connection) (a : AclGroup) : Bool :=
  !a.tooStrict c && a.names conf c && a.answer = .accept

theorem find?_grants_probesOf (conf : Params) (c : Connection) (a : AclGroup) :
    (probesOf conf c (some a)).find? Probe.grants =
      if a.candidate conf c then some (.hit a) else none := by
  cases h : (probesOf conf c (some a)).find? Probe.grants with
  | none =>
    rw [if_neg]
    intro hcand
    simp only [AclGroup.candidate, Bool.and_eq_true, Bool.not_eq_true', decide_eq_true_eq] at hcand
    have hmem : Probe.hit a ∈ probesOf conf c (some a) :=
      hit_mem_probesOf.2 ⟨rfl, hcand.1.1, hcand.1.2⟩
    have hno := List.find?_eq_none.1 h _ hmem
    simp [Probe.grants, hcand.2] at hno
  | some p =>
    have hmem := List.mem_of_find?_eq_some h
    have hgrants := List.find?_some h
    cases p with
    | null => cases hgrants
    | strict b => cases hgrants
    | miss b => cases hgrants
    | hit b =>
      obtain ⟨hb, hs, hn⟩ := hit_mem_probesOf.1 hmem
      obtain rfl := Option.some.inj hb
      have ha : a.answer = .accept := by simpa [Probe.grants] using hgrants
      rw [if_pos (by simp [AclGroup.candidate, hs, hn, ha])]

theorem find?_grants_probes (conf : Params) (c : Connection) (acls : List AclGroup) :
    (probes conf c (acls.map some)).find? Probe.grants =
      (acls.find? (AclGroup.candidate conf c)).map .hit := by
  induction acls with
  | nil => rfl
  | cons a acls ih =>
    rw [List.map_cons, probes, List.flatMap_cons, List.find?_append, find?_grants_probesOf,
      ← probes, ih]
    cases h : a.candidate conf c with
    | true => simp [h]
    | false => simp [h]

/-- The first ACCEPT ACL for the user decides. -/
theorem decision_ok_iff {conf : Params} {now : Int} {c : Connection} {acls : List AclGroup}
    (hprio : conf.prioToNok = 0) (hacls : c.aclGroups = acls.map some) :
    (decidedElement conf now c).decision = .accept ↔
      ∃ a, acls.find? (AclGroup.candidate conf c) = some a ∧ a.inPeriod conf now := by
  by_cases hne : acls = []
  · subst hne
    have hnot := decidedElement_of_nil conf now (c := c) (by simpa using hacls)
    simp [hnot]
  · have hnull : Probe.null ∉ probes conf c (acls.map some) := by simp [null_mem_probes]
    rw [decidedElement_accept_iff (by simpa [hacls] using hne), hacls,
      accepted_ok_iff hprio hnull rfl (by simp [Outcome.start]) rfl, find?_grants_probes]
    simp

/-! ### The promise of the priority -/

/-- The ACL accepts the connection: it is a candidate within its period. -/
def AclGroup.grantsNow (conf : Params) (now : Int) (c : Connection) (a : AclGroup) : Bool :=
  a.candidate conf c && a.inPeriod conf now

/-- The ACL would accept the connection at another time. -/
def AclGroup.outOfTime (conf : Params) (now : Int) (c : Connection) (a : AclGroup) : Bool :=
  a.candidate conf c && !a.inPeriod conf now

/-- No ACL that is out of its period comes before the first one that accepts. -/
def NoneHidden (conf : Params) (now : Int) (c : Connection) (acls : List AclGroup) : Prop :=
  ∀ l₁ g l₂, acls = l₁ ++ g :: l₂ → g.grantsNow conf now c →
    (∀ a ∈ l₁, a.grantsNow conf now c = false) → ∀ a ∈ l₁, a.outOfTime conf now c = false

section Ok

variable {conf : Params} {now : Int} {c : Connection} {acls : List AclGroup}

theorem AclGroup.grantsNow_iff {a : AclGroup} :
    a.grantsNow conf now c ↔ a.candidate conf c ∧ a.inPeriod conf now := by
  simp [AclGroup.grantsNow]

theorem AclGroup.outOfTime_iff {a : AclGroup} :
    a.outOfTime conf now c ↔ a.candidate conf c ∧ a.inPeriod conf now = false := by
  simp [AclGroup.outOfTime]

theorem candidate_eq_false {a : AclGroup} (hnow : a.grantsNow conf now c = false)
    (hout : a.outOfTime conf now c = false) : a.candidate conf c = false := by
  cases h : a.candidate conf c <;> cases hp : a.inPeriod conf now <;>
    simp_all [AclGroup.grantsNow, AclGroup.outOfTime]

theorem exists_grantsNow_of_find? {a : AclGroup}
    (h : acls.find? (AclGroup.candidate conf c) = some a) (hp : a.inPeriod conf now) :
    ∃ g ∈ acls, g.grantsNow conf now c :=
  ⟨a, List.mem_of_find?_eq_some h, AclGroup.grantsNow_iff.2 ⟨List.find?_some h, hp⟩⟩

/-- The first candidate is within its period exactly when some ACL accepts, unless one is
hidden. -/
theorem find?_candidate_iff_noneHidden :
    ((∃ a, acls.find? (AclGroup.candidate conf c) = some a ∧ a.inPeriod conf now) ↔
        ∃ g ∈ acls, g.grantsNow conf now c) ↔ NoneHidden conf now c acls := by
  constructor
  · intro h l₁ g l₂ hsplit hg hno a ha
    obtain ⟨first, hfirst, hp⟩ := h.2 ⟨g, by simp [hsplit], hg⟩
    by_contra hout
    have hcand := (AclGroup.outOfTime_iff.1 (by simpa using hout)).1
    -- the first candidate is then in `l₁`, where no ACL accepts
    have hmem : first ∈ l₁ := by
      rw [hsplit, List.find?_append] at hfirst
      cases hf : l₁.find? (AclGroup.candidate conf c) with
      | none => exact absurd hcand (List.find?_eq_none.1 hf a ha)
      | some b =>
        rw [hf, Option.some_or, Option.some.injEq] at hfirst
        exact hfirst ▸ List.mem_of_find?_eq_some hf
    have hnow : first.grantsNow conf now c := AclGroup.grantsNow_iff.2 ⟨List.find?_some hfirst, hp⟩
    rw [hno first hmem] at hnow
    cases hnow
  · intro h
    refine ⟨fun ⟨a, ha, hp⟩ ↦ exists_grantsNow_of_find? ha hp, ?_⟩
    rintro ⟨g, hg, hnow⟩
    obtain ⟨first, hfirst⟩ := Option.isSome_iff_exists.1
      (List.find?_isSome.2 ⟨g, hg, hnow⟩)
    obtain ⟨hfirstnow, l₁, l₂, hsplit, hbefore⟩ := List.find?_eq_some_iff_append.1 hfirst
    have hno : ∀ a ∈ l₁, a.grantsNow conf now c = false := by
      intro a ha
      simpa using hbefore a ha
    have hout := h l₁ first l₂ hsplit hfirstnow hno
    obtain ⟨hcand, hp⟩ := AclGroup.grantsNow_iff.1 hfirstnow
    refine ⟨first, ?_, hp⟩
    rw [hsplit, List.find?_append, List.find?_eq_none.2, Option.none_or,
      List.find?_cons_of_pos hcand]
    intro a ha
    simp [candidate_eq_false (hno a ha) (hout a ha)]

/-- The verdict is the same in every order exactly when no ACL that would accept at another time
stands beside one that accepts now. -/
theorem find?_candidate_perm_iff :
    (∀ acls' : List AclGroup, acls'.Perm acls →
        ((∃ a, acls'.find? (AclGroup.candidate conf c) = some a ∧ a.inPeriod conf now) ↔
          ∃ a, acls.find? (AclGroup.candidate conf c) = some a ∧ a.inPeriod conf now)) ↔
      ¬((∃ g ∈ acls, g.grantsNow conf now c) ∧ ∃ a ∈ acls, a.outOfTime conf now c) := by
  constructor
  · rintro h ⟨⟨g, hg, hnow⟩, a, ha, hout⟩
    obtain ⟨hgcand, hgp⟩ := AclGroup.grantsNow_iff.1 hnow
    obtain ⟨hacand, hap⟩ := AclGroup.outOfTime_iff.1 hout
    -- with the one in its period in front the list accepts, with the other one it does not
    have hfirst := (h _ (List.perm_cons_erase hg).symm).1
      ⟨g, List.find?_cons_of_pos hgcand, hgp⟩
    obtain ⟨b, hb, hbp⟩ := (h _ (List.perm_cons_erase ha).symm).2 hfirst
    rw [List.find?_cons_of_pos hacand, Option.some.injEq] at hb
    rw [← hb, hap] at hbp
    cases hbp
  · intro h acls' hperm
    by_cases hex : ∃ g ∈ acls, g.grantsNow conf now c
    · have hno : ∀ l : List AclGroup, l.Perm acls →
          ∃ a, l.find? (AclGroup.candidate conf c) = some a ∧ a.inPeriod conf now := by
        intro l hl
        refine (find?_candidate_iff_noneHidden.2 ?_).2 ?_
        · intro l₁ g l₂ hsplit _ _ a ha
          by_contra hout
          exact h ⟨hex, a, hl.mem_iff.1 (by simp [hsplit, ha]), by simpa using hout⟩
        · obtain ⟨g, hg, hnow⟩ := hex
          exact ⟨g, hl.mem_iff.2 hg, hnow⟩
      exact ⟨fun _ ↦ hno acls (List.Perm.refl _), fun _ ↦ hno acls' hperm⟩
    · have hno : ∀ l : List AclGroup, l.Perm acls →
          ¬∃ a, l.find? (AclGroup.candidate conf c) = some a ∧ a.inPeriod conf now := by
        rintro l hl ⟨a, ha, hp⟩
        obtain ⟨g, hg, hnow⟩ := exists_grantsNow_of_find? ha hp
        exact hex ⟨g, hl.mem_iff.1 hg, hnow⟩
      exact ⟨fun hl ↦ absurd hl (hno acls' hperm), fun hl ↦ absurd hl (hno acls (List.Perm.refl _))⟩

/-- **The decision when acceptances have priority.** It is ACCEPT exactly when some ACL accepts the
connection if and only if no such ACL is hidden behind one that is out of its period; and it does
not depend on the order of the list if and only if the list does not hold both. -/
theorem decision_of_prio_to_nok_zero (hprio : conf.prioToNok = 0)
    (hacls : c.aclGroups = acls.map some) :
    (((decidedElement conf now c).decision = .accept ↔ ∃ g ∈ acls, g.grantsNow conf now c) ↔
        NoneHidden conf now c acls) ∧
      ((∀ acls' : List AclGroup, acls'.Perm acls →
          ((decidedElement conf now { c with aclGroups := acls'.map some }).decision = .accept ↔
            (decidedElement conf now c).decision = .accept)) ↔
        ¬((∃ g ∈ acls, g.grantsNow conf now c) ∧ ∃ a ∈ acls, a.outOfTime conf now c)) := by
  have hperm : ∀ acls' : List AclGroup,
      (decidedElement conf now { c with aclGroups := acls'.map some }).decision = .accept ↔
        ∃ a, acls'.find? (AclGroup.candidate conf c) = some a ∧ a.inPeriod conf now :=
    fun acls' ↦ decision_ok_iff (c := { c with aclGroups := acls'.map some }) hprio rfl
  constructor
  · rw [decision_ok_iff hprio hacls]
    exact find?_candidate_iff_noneHidden
  · simp only [hperm, decision_ok_iff hprio hacls]
    exact find?_candidate_perm_iff

end Ok

/-- With a single ACL nothing is hidden, and the priority keeps its promise. -/
theorem decision_of_single_acl :
    let conf := { Params.default with prioToNok := 0 }
    let acls := [AclGroup.forUser 7 .accept]
    let c := Connection.ofUser 7 acls
    (decidedElement conf 1000 c).decision = .accept ↔ ∃ g ∈ acls, g.grantsNow conf 1000 c := by
  intro conf acls c
  have hprio : conf.prioToNok = 0 := rfl
  refine (decision_of_prio_to_nok_zero hprio rfl).1.2 ?_
  intro l₁ g l₂ hsplit _ _ a ha
  cases l₁ with
  | nil => cases ha
  | cons b l₁ =>
    have hlen := congrArg List.length hsplit
    simp [acls] at hlen

/-- An ACCEPT ACL whose period ended at 500, then one without a period: the packet is refused. -/
theorem decision_of_hidden_accept :
    let conf := { Params.default with
      prioToNok := 0, periods := [([119], [⟨-1, -1, 500, -1, -1, -1, -1⟩])] }
    let acls := [{ AclGroup.forUser 7 .accept with period := some [119] },
      AclGroup.forUser 7 .accept]
    let c := Connection.ofUser 7 acls
    ¬((decidedElement conf 1000 c).decision = .accept ↔
      ∃ g ∈ acls, g.names conf c ∧ g.authQuality ≤ c.authQuality ∧ g.answer = .accept ∧
        g.inPeriod conf 1000) := by
  decide

end Nufw
