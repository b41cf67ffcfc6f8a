import Nufw.Lib.EarlyExit
import Nufw.Nuauth.TakeDecision

/-!
# What `take_decision` decides

The two nested loops of `take_decision` share their exit condition, so they are one loop over a
list of **probes**: for each ACL in order, a `NULL` element, an ACL asking for more authentication
quality than the connection has, or one comparison of the user, then of each of the groups of the
user, that hits or misses. `aclLoop_eq_foldUntil` says so, and every result below is an induction
over that list.

The answer, the test and the expiration evolve without looking at the log attributes, so they form
a smaller machine (`Outcome`), of which the run of `take_decision` is a refinement
(`outcome_searchAcls`). A miss does nothing there.
-/

namespace Nufw

/-! ### Matching -/

/-- The ACL asks for more authentication quality than the connection has. -/
def AclGroup.tooStrict (c : Connection) (a : AclGroup) : Bool := a.authQuality > c.authQuality

theorem AclGroup.tooStrict_eq_false {c : Connection} {a : AclGroup} :
    a.tooStrict c = false ↔ a.authQuality ≤ c.authQuality := by
  simp [AclGroup.tooStrict]

/-- The users of the ACL contain the user of the connection, or its groups contain one of the
groups of that user. -/
def AclGroup.names (conf : Params) (c : Connection) (a : AclGroup) : Bool :=
  a.users.contains c.userId || c.userGroups.any fun g ↦ a.groups.any (groupEqual conf · g)

/-- The ACL is within its period, or has none. -/
def AclGroup.inPeriod (conf : Params) (now : Int) (a : AclGroup) : Bool :=
  periodEnd conf now a ≠ 0

/-! ### The loops as one list of probes -/

/-- One comparison made by the loops of `take_decision`. -/
inductive Probe where
  | null
  | strict (datas : AclGroup)
  | hit (datas : AclGroup)
  | miss (datas : AclGroup)

/-- What a probe does to the variables of `take_decision`. -/
def probeStep (conf : Params) (now : Int) : Probe → DecisionVars → DecisionVars
  | .null, v => { v with answer := .drop, test := .decided }
  | .strict a, v => updateDecision conf now a { v with answer := rejectOrDrop conf }
  | .hit a, v => searchResult conf now a true v
  | .miss a, v => searchResult conf now a false v

/-- A comparison with an ACL, as a probe. -/
def Probe.compare (a : AclGroup) (found : Bool) : Probe := if found then .hit a else .miss a

/-- The results of the comparisons made with an ACL: of the user, then, when the ACL has groups, of
each group of the user. -/
def comparisons (conf : Params) (c : Connection) (a : AclGroup) : List Bool :=
  a.users.contains c.userId ::
    if a.groups ≠ [] then c.userGroups.map fun g ↦ a.groups.any (groupEqual conf · g) else []

/-- The probes of one element of the ACL list. -/
def probesOf (conf : Params) (c : Connection) : Option AclGroup → List Probe
  | none => [.null]
  | some a =>
    if a.tooStrict c then [.strict a] else (comparisons conf c a).map (Probe.compare a)

/-- All the probes, in the order of the loops. -/
def probes (conf : Params) (c : Connection) (acls : List (Option AclGroup)) : List Probe :=
  acls.flatMap (probesOf conf c)

/-- The exit condition of both loops. -/
def Decided (v : DecisionVars) : Prop := v.test = .decided

instance : DecidablePred Decided := fun v ↦ inferInstanceAs (Decidable (v.test = .decided))

theorem not_decided_iff {v : DecisionVars} : ¬Decided v ↔ v.test = .nodecide := by
  rw [Decided]
  cases v.test <;> simp

/-- The run of the loops over a list of probes. -/
def runProbes (conf : Params) (now : Int) (ps : List Probe) (v : DecisionVars) : DecisionVars :=
  foldUntil Decided (probeStep conf now) ps v

/-! ### No step touches the identity -/

/-- The fields of the connection that the loops read. -/
structure SameUser (c e : Connection) : Prop where
  userId : e.userId = c.userId
  userGroups : e.userGroups = c.userGroups
  authQuality : e.authQuality = c.authQuality

theorem updateConnectionDatas_idem (e : Connection) (a : AclGroup) :
    updateConnectionDatas (updateConnectionDatas e a) a = updateConnectionDatas e a := by
  cases h : a.logPrefix <;> simp [updateConnectionDatas, h]

theorem applyPriority_element (conf : Params) (a : AclGroup) (v : DecisionVars) :
    (applyPriority conf a v).element = v.element ∨
      (applyPriority conf a v).element = updateConnectionDatas v.element a := by
  rw [applyPriority]
  split_ifs
  · exact Or.inr rfl
  · exact Or.inr rfl
  · exact Or.inr rfl
  · exact Or.inl rfl
  · exact Or.inr rfl
  · exact Or.inl rfl

/-- Out of the period of an ACL its log attributes are copied. -/
theorem applyPeriod_element (conf : Params) (now : Int) (a : AclGroup) (v : DecisionVars) :
    (applyPeriod conf now a v).element = v.element ∨
      (applyPeriod conf now a v).element = updateConnectionDatas v.element a := by
  rw [applyPeriod]
  dsimp only
  by_cases haccept : v.answer = .accept
  · rw [if_pos haccept]
    by_cases hout : a.period.isSome ∧ periodEnd conf now a = 0
    · rw [if_pos hout]
      right
      split_ifs <;> rfl
    · rw [if_neg hout]
      left
      split_ifs <;> rfl
  · rw [if_neg haccept]
    exact Or.inl rfl

/-- `update_decision` changes nothing of the connection but its log attributes. -/
theorem updateDecision_element (conf : Params) (now : Int) (a : AclGroup) (v : DecisionVars) :
    (updateDecision conf now a v).element = v.element ∨
      (updateDecision conf now a v).element = updateConnectionDatas v.element a := by
  rw [updateDecision]
  rcases applyPriority_element conf a v with hprio | hprio <;>
    rcases applyPeriod_element conf now a (applyPriority conf a v) with hperiod | hperiod <;>
    rw [hperiod, hprio]
  · exact Or.inl rfl
  · exact Or.inr rfl
  · exact Or.inr rfl
  · exact Or.inr (updateConnectionDatas_idem v.element a)

theorem searchResult_element (conf : Params) (now : Int) (a : AclGroup) (found : Bool)
    (v : DecisionVars) :
    (searchResult conf now a found v).element = v.element ∨
      (searchResult conf now a found v).element = updateConnectionDatas v.element a := by
  rw [searchResult]
  split_ifs
  · exact updateDecision_element conf now a _
  · exact Or.inr rfl
  · exact Or.inl rfl

/-- A probe at most copies the log attributes of an ACL. -/
theorem probeStep_element (conf : Params) (now : Int) (p : Probe) (v : DecisionVars) :
    (probeStep conf now p v).element = v.element ∨
      ∃ a, (probeStep conf now p v).element = updateConnectionDatas v.element a := by
  cases p with
  | null => exact Or.inl rfl
  | strict a => exact (updateDecision_element conf now a _).imp_right fun h ↦ ⟨a, h⟩
  | hit a => exact (searchResult_element conf now a true v).imp_right fun h ↦ ⟨a, h⟩
  | miss a => exact (searchResult_element conf now a false v).imp_right fun h ↦ ⟨a, h⟩

theorem SameUser.probeStep {c : Connection} {v : DecisionVars} (h : SameUser c v.element)
    (conf : Params) (now : Int) (p : Probe) : SameUser c (probeStep conf now p v).element := by
  rcases probeStep_element conf now p v with he | ⟨a, he⟩
  · rwa [he]
  · rw [he]
    exact ⟨h.userId, h.userGroups, h.authQuality⟩

/-! ### The loops are the run -/

theorem probeStep_compare (conf : Params) (now : Int) (a : AclGroup) (found : Bool)
    (v : DecisionVars) :
    probeStep conf now (Probe.compare a found) v = searchResult conf now a found v := by
  cases found <;> rfl

theorem userGroupLoop_eq (conf : Params) (now : Int) (a : AclGroup) (gs : List GroupData)
    (v : DecisionVars) :
    userGroupLoop conf now a gs v =
      runProbes conf now
        ((if a.groups ≠ [] then gs.map fun g ↦ a.groups.any (groupEqual conf · g) else []).map
          (Probe.compare a)) v := by
  by_cases hg : a.groups = []
  · rw [if_neg (by simpa using hg)]
    induction gs with
    | nil => rfl
    | cons g gs ih =>
      rw [userGroupLoop, if_neg (show ¬a.groups ≠ [] by simpa using hg), ih]
      split <;> rfl
  · rw [if_pos hg]
    induction gs generalizing v with
    | nil => rfl
    | cons g gs ih =>
      rw [userGroupLoop, if_pos hg, List.map_cons, List.map_cons]
      by_cases hv : Decided v
      · rw [runProbes, foldUntil_of_stop hv, if_neg fun h ↦ not_decided_iff.2 h hv]
      · rw [runProbes, foldUntil_cons hv, if_pos (not_decided_iff.1 hv), ih, probeStep_compare]
        rfl

/-- The body of the outer loop runs the probes of its ACL. -/
theorem examineAcl_eq (conf : Params) (now : Int) {c : Connection} (acl : Option AclGroup)
    {v : DecisionVars} (hv : SameUser c v.element) (hd : ¬Decided v) :
    examineAcl conf now acl v = runProbes conf now (probesOf conf c acl) v := by
  cases acl with
  | none => rw [runProbes, probesOf, foldUntil_cons hd]; rfl
  | some a =>
    by_cases hs : a.authQuality > c.authQuality
    · have hp : probesOf conf c (some a) = [.strict a] := by
        simp [probesOf, AclGroup.tooStrict, hs]
      rw [examineAcl, if_pos (by rw [hv.authQuality]; exact hs), hp, runProbes, foldUntil_cons hd]
      rfl
    · have hp : probesOf conf c (some a) = (comparisons conf c a).map (Probe.compare a) := by
        simp [probesOf, AclGroup.tooStrict, hs]
      rw [examineAcl, if_neg (by rw [hv.authQuality]; exact hs), hp, comparisons, List.map_cons,
        runProbes, foldUntil_cons hd, probeStep_compare, searchUserIdInAclGroups, hv.userId,
        hv.userGroups, userGroupLoop_eq]
      rfl

/-- **The loops are one loop over the probes.** -/
theorem aclLoop_eq_foldUntil (conf : Params) (now : Int) {c : Connection}
    (acls : List (Option AclGroup)) {v : DecisionVars} (hv : SameUser c v.element) :
    aclLoop conf now acls v = runProbes conf now (probes conf c acls) v := by
  have houter : aclLoop conf now acls v = foldUntil Decided (examineAcl conf now) acls v := by
    clear hv
    induction acls generalizing v with
    | nil => rfl
    | cons acl acls ih =>
      by_cases h : Decided v
      · rw [foldUntil_of_stop h, aclLoop, if_neg fun h' ↦ not_decided_iff.2 h' h]
      · rw [foldUntil_cons h, aclLoop, if_pos (not_decided_iff.1 h), ih]
  rw [houter]
  exact foldUntil_flatMap (I := fun v ↦ SameUser c v.element)
    (fun p v h ↦ h.probeStep conf now p)
    (fun acl v h hd ↦ examineAcl_eq conf now acl h hd) acls hv

theorem searchAcls_eq (conf : Params) (now : Int) {c : Connection} (h : c.aclGroups ≠ []) :
    searchAcls conf now c = runProbes conf now (probes conf c c.aclGroups) (initialVars c) := by
  rw [searchAcls, if_neg h]
  exact aclLoop_eq_foldUntil conf now c.aclGroups ⟨rfl, rfl, rfl⟩

/-! ### The outcome of a run -/

/-- The variables of `take_decision` without the connection. -/
structure Outcome where
  answer : Decision
  test : Test
  expire : Int
  deriving DecidableEq

/-- The outcome part of the variables. -/
def DecisionVars.outcome (v : DecisionVars) : Outcome := ⟨v.answer, v.test, v.expire⟩

/-- An answer that ends the loops, as `prio_to_nok` says. -/
def stopsOn (conf : Params) (answer : Decision) : Prop :=
  conf.prioToNok = 1 ∧ (answer = .drop ∨ answer = .reject) ∨
    conf.prioToNok = 0 ∧ answer = .accept ∨ conf.prioToNok = 2

instance (conf : Params) : DecidablePred (stopsOn conf) := fun answer ↦
  inferInstanceAs (Decidable (conf.prioToNok = 1 ∧ (answer = .drop ∨ answer = .reject) ∨
    conf.prioToNok = 0 ∧ answer = .accept ∨ conf.prioToNok = 2))

/-- The test once an answer has been given. -/
def testAfter (conf : Params) (answer : Decision) (test : Test) : Test :=
  if stopsOn conf answer then .decided else test

/-- The earlier of two expirations, `-1` being the latest one. -/
def lower (expire periodend : Int) : Int :=
  if expire = -1 ∨ (periodend ≠ -1 ∧ expire ≠ -1 ∧ expire > periodend) then periodend else expire

/-- What a probe does to the outcome. -/
def outcomeStep (conf : Params) (now : Int) : Probe → Outcome → Outcome
  | .null, o => { o with answer := .drop, test := .decided }
  | .strict _, o =>
    { o with answer := rejectOrDrop conf, test := testAfter conf (rejectOrDrop conf) o.test }
  | .hit a, o =>
    if a.answer = .accept then
      if a.inPeriod conf now then
        ⟨.accept, testAfter conf .accept o.test, lower o.expire (periodEnd conf now a)⟩
      else ⟨.nodecide, .decided, lower o.expire 0⟩
    else { o with answer := a.answer, test := testAfter conf a.answer o.test }
  | .miss _, o => o

/-- The exit condition, on outcomes. -/
def Outcome.Decided (o : Outcome) : Prop := o.test = .decided

instance : DecidablePred Outcome.Decided := fun o ↦
  inferInstanceAs (Decidable (o.test = .decided))

theorem Outcome.not_decided_iff {o : Outcome} : ¬o.Decided ↔ o.test = .nodecide := by
  rw [Outcome.Decided]
  cases o.test <;> simp

/-- The run of the outcome over a list of probes. -/
def runOutcome (conf : Params) (now : Int) (ps : List Probe) (o : Outcome) : Outcome :=
  foldUntil Outcome.Decided (outcomeStep conf now) ps o

/-- The outcome `take_decision` starts with. -/
def Outcome.start : Outcome := ⟨.nodecide, .nodecide, -1⟩

theorem rejectOrDrop_ne_accept (conf : Params) : rejectOrDrop conf ≠ .accept := by
  rw [rejectOrDrop]
  split <;> simp

theorem rejectOrDrop_cases (conf : Params) :
    rejectOrDrop conf = .drop ∨ rejectOrDrop conf = .reject := by
  rw [rejectOrDrop]
  split <;> simp

theorem not_inPeriod_iff {conf : Params} {now : Int} {a : AclGroup} :
    a.inPeriod conf now = false ↔ a.period.isSome ∧ periodEnd conf now a = 0 := by
  cases h : a.period <;> simp [AclGroup.inPeriod, periodEnd, h]

theorem outcome_applyPriority (conf : Params) (a : AclGroup) (v : DecisionVars) :
    (applyPriority conf a v).outcome =
      { v.outcome with test := testAfter conf v.answer v.test } := by
  unfold applyPriority testAfter stopsOn
  split_ifs <;> simp_all [DecisionVars.outcome]

theorem outcome_applyPeriod (conf : Params) (now : Int) (a : AclGroup) (v : DecisionVars) :
    (applyPeriod conf now a v).outcome =
      if v.answer = .accept then
        if a.inPeriod conf now then
          { v.outcome with expire := lower v.expire (periodEnd conf now a) }
        else ⟨.nodecide, .decided, lower v.expire 0⟩
      else v.outcome := by
  rw [applyPeriod]
  by_cases hv : v.answer = .accept
  · rw [if_pos hv, if_pos hv]
    cases hp : a.inPeriod conf now with
    | true =>
      have hnot : ¬(a.period.isSome ∧ periodEnd conf now a = 0) := fun h ↦
        absurd (not_inPeriod_iff.2 h) (by simp [hp])
      simp only [if_neg hnot, if_true, lower]
      split_ifs <;> simp_all [DecisionVars.outcome]
    | false =>
      obtain ⟨hsome, hend⟩ := not_inPeriod_iff.1 hp
      simp only [hsome, hend, lower]
      split_ifs <;> simp_all [DecisionVars.outcome]
  · rw [if_neg hv, if_neg hv]

/-- `update_decision`, on outcomes. -/
theorem outcome_updateDecision (conf : Params) (now : Int) (a : AclGroup) (v : DecisionVars) :
    (updateDecision conf now a v).outcome =
      if v.answer = .accept then
        if a.inPeriod conf now then
          ⟨.accept, testAfter conf .accept v.test, lower v.expire (periodEnd conf now a)⟩
        else ⟨.nodecide, .decided, lower v.expire 0⟩
      else ⟨v.answer, testAfter conf v.answer v.test, v.expire⟩ := by
  obtain ⟨hanswer, -, hexpire⟩ := Outcome.mk.inj (outcome_applyPriority conf a v)
  have hexpire' : (applyPriority conf a v).expire = v.expire := hexpire
  rw [updateDecision, outcome_applyPeriod, outcome_applyPriority, hanswer, hexpire']
  have hdef : v.outcome.answer = v.answer := rfl
  by_cases hv : v.answer = .accept
  · rw [hdef, if_pos hv, if_pos hv]
    simp only [DecisionVars.outcome, hv]
  · rw [hdef, if_neg hv, if_neg hv]
    rfl

/-- Each probe changes the outcome in its own terms. -/
theorem outcome_probeStep (conf : Params) (now : Int) (p : Probe) (v : DecisionVars) :
    (probeStep conf now p v).outcome = outcomeStep conf now p v.outcome := by
  cases p with
  | null => rfl
  | strict a =>
    rw [probeStep, outcome_updateDecision, if_neg (rejectOrDrop_ne_accept conf)]
    rfl
  | hit a =>
    rw [probeStep, searchResult, if_pos rfl, outcome_updateDecision]
    rfl
  | miss a =>
    rw [probeStep, searchResult, if_neg (by simp)]
    split <;> rfl

theorem outcome_runProbes (conf : Params) (now : Int) (ps : List Probe) (v : DecisionVars) :
    (runProbes conf now ps v).outcome = runOutcome conf now ps v.outcome := by
  have hstop : ∀ v, Decided v ↔ v.outcome.Decided := fun _ ↦ Iff.rfl
  exact foldUntil_map DecisionVars.outcome hstop (outcome_probeStep conf now) ps v

/-- **The loops, on outcomes.** -/
theorem outcome_searchAcls (conf : Params) (now : Int) {c : Connection} (h : c.aclGroups ≠ []) :
    (searchAcls conf now c).outcome =
      runOutcome conf now (probes conf c c.aclGroups) Outcome.start := by
  rw [searchAcls_eq conf now h, outcome_runProbes]
  rfl

/-! ### The decision -/

/-- The modules set the mark and nothing else. -/
theorem modulesFinalizePacket_eq (conf : Params) (c : Connection) :
    ∃ mark, modulesFinalizePacket conf c = { c with mark } := by
  have hfold : ∀ (ms : List FinalizeModule) (c' : Connection), (∃ mark, c' = { c with mark }) →
      ∃ mark, ms.foldl (fun c m ↦ { c with mark := m.mark c }) c' = { c with mark } := by
    intro ms
    induction ms with
    | nil => exact fun c' h ↦ h
    | cons m ms ih =>
      rintro c' ⟨mark, rfl⟩
      exact ih _ ⟨m.mark { c with mark }, rfl⟩
  exact hfold _ c ⟨c.mark, rfl⟩

/-- The outcome is an ACCEPT that has not expired. -/
def Outcome.Accepted (o : Outcome) : Prop := o.answer = .accept ∧ o.expire ≠ 0

theorem finalAnswer_eq_accept {conf : Params} {v : DecisionVars} :
    finalAnswer conf v = .accept ↔ v.outcome.Accepted := by
  have hr := rejectOrDrop_ne_accept conf
  unfold finalAnswer Outcome.Accepted DecisionVars.outcome
  dsimp only
  split_ifs <;> simp_all

/-- The search sets the decision, the expiration and the log attributes, and leaves the rest of the
connection as it is. -/
theorem decideElement_eq (conf : Params) (now : Int) (c : Connection) :
    ∃ logPrefix flags decision expire,
      decideElement conf now c = { c with logPrefix, flags, decision, expire } := by
  have hloop : ∃ logPrefix flags, (searchAcls conf now c).element =
      { c with decision := .nodecide, logPrefix, flags } := by
    by_cases hne : c.aclGroups = []
    · rw [searchAcls, if_pos hne]
      exact ⟨c.logPrefix, c.flags, rfl⟩
    · rw [searchAcls_eq conf now hne]
      refine foldUntil_inv (I := fun v : DecisionVars ↦ ∃ logPrefix flags, v.element =
        { c with decision := .nodecide, logPrefix, flags }) ?_ _ ⟨c.logPrefix, c.flags, rfl⟩
      rintro p v ⟨logPrefix, flags, hv⟩
      rcases probeStep_element conf now p v with he | ⟨a, he⟩
      · exact ⟨logPrefix, flags, he.trans hv⟩
      · rw [he, hv]
        exact ⟨_, _, rfl⟩
  obtain ⟨logPrefix, flags, hloop⟩ := hloop
  rw [decideElement, hloop]
  exact ⟨logPrefix, flags, _, _, rfl⟩

/-- `take_decision` sets the decision, the expiration, the log attributes and the mark, and leaves
the rest of the connection as it is. -/
theorem decidedElement_eq (conf : Params) (now : Int) (c : Connection) :
    ∃ logPrefix flags decision expire mark,
      decidedElement conf now c = { c with logPrefix, flags, decision, expire, mark } := by
  obtain ⟨logPrefix, flags, decision, expire, hdecide⟩ := decideElement_eq conf now c
  obtain ⟨mark, hmark⟩ := modulesFinalizePacket_eq conf (decideElement conf now c)
  rw [decidedElement, hmark, hdecide]
  exact ⟨logPrefix, flags, decision, expire, mark, rfl⟩

theorem decidedElement_expire (conf : Params) (now : Int) (c : Connection) :
    (decidedElement conf now c).expire = (searchAcls conf now c).expire := by
  obtain ⟨mark, h⟩ := modulesFinalizePacket_eq conf (decideElement conf now c)
  rw [decidedElement, h]
  rfl

theorem decidedElement_decision (conf : Params) (now : Int) (c : Connection) :
    (decidedElement conf now c).decision = finalAnswer conf (searchAcls conf now c) := by
  obtain ⟨mark, h⟩ := modulesFinalizePacket_eq conf (decideElement conf now c)
  rw [decidedElement, h]
  rfl

/-- A connection is accepted when the run of its probes is. -/
theorem decidedElement_accept_iff {conf : Params} {now : Int} {c : Connection}
    (h : c.aclGroups ≠ []) :
    (decidedElement conf now c).decision = .accept ↔
      (runOutcome conf now (probes conf c c.aclGroups) Outcome.start).Accepted := by
  rw [decidedElement_decision, finalAnswer_eq_accept, outcome_searchAcls conf now h]

theorem decidedElement_expire_eq {conf : Params} {now : Int} {c : Connection}
    (h : c.aclGroups ≠ []) :
    (decidedElement conf now c).expire =
      (runOutcome conf now (probes conf c c.aclGroups) Outcome.start).expire := by
  rw [decidedElement_expire, ← outcome_searchAcls conf now h]
  rfl

/-- Without an ACL there is no ACCEPT. -/
theorem decidedElement_of_nil (conf : Params) (now : Int) {c : Connection}
    (h : c.aclGroups = []) : (decidedElement conf now c).decision ≠ .accept := by
  rw [decidedElement_decision, Ne, finalAnswer_eq_accept, searchAcls, if_pos h]
  rintro ⟨h, -⟩
  cases h

/-! ### Which probes a list of ACLs gives -/

section

variable {conf : Params} {c : Connection} {acls : List (Option AclGroup)} {a : AclGroup}

theorem mem_probes {p : Probe} :
    p ∈ probes conf c acls ↔ ∃ acl ∈ acls, p ∈ probesOf conf c acl := List.mem_flatMap

theorem true_mem_comparisons : true ∈ comparisons conf c a ↔ a.names conf c := by
  by_cases hg : a.groups = []
  · simp [comparisons, AclGroup.names, hg]
  · simp [comparisons, AclGroup.names, hg, List.mem_map]

theorem hit_mem_probesOf {acl : Option AclGroup} :
    .hit a ∈ probesOf conf c acl ↔ acl = some a ∧ a.tooStrict c = false ∧ a.names conf c := by
  cases acl with
  | none => simp [probesOf]
  | some b =>
    have hc : ∀ found, Probe.compare b found = Probe.hit a ↔ found = true ∧ b = a := by
      intro found
      cases found <;> simp [Probe.compare]
    cases hs : b.tooStrict c with
    | true =>
      simp only [probesOf, hs, if_true, List.mem_singleton, reduceCtorEq, false_iff]
      rintro ⟨hb, ha, -⟩
      rw [Option.some.inj hb, ha] at hs
      cases hs
    | false =>
      simp only [probesOf, hs, Bool.false_eq_true, if_false, List.mem_map, hc]
      constructor
      · rintro ⟨found, hmem, rfl, rfl⟩
        exact ⟨rfl, hs, true_mem_comparisons.1 hmem⟩
      · rintro ⟨hb, -, hn⟩
        obtain rfl := Option.some.inj hb
        exact ⟨true, true_mem_comparisons.2 hn, rfl, rfl⟩

theorem strict_mem_probesOf {acl : Option AclGroup} :
    .strict a ∈ probesOf conf c acl ↔ acl = some a ∧ a.tooStrict c := by
  cases acl with
  | none => simp [probesOf]
  | some b =>
    have hc : ∀ found, Probe.compare b found ≠ Probe.strict a := by
      intro found
      cases found <;> simp [Probe.compare]
    cases hs : b.tooStrict c with
    | true =>
      simp only [probesOf, hs, if_true, List.mem_singleton, Probe.strict.injEq]
      constructor
      · rintro rfl
        exact ⟨rfl, hs⟩
      · exact fun h ↦ (Option.some.inj h.1).symm
    | false =>
      simp only [probesOf, hs, Bool.false_eq_true, if_false, List.mem_map, hc, and_false,
        exists_false, false_iff]
      rintro ⟨hb, ha⟩
      rw [Option.some.inj hb, ha] at hs
      cases hs

theorem null_mem_probesOf {acl : Option AclGroup} : .null ∈ probesOf conf c acl ↔ acl = none := by
  cases acl with
  | none => simp [probesOf]
  | some b =>
    have hc : ∀ found, Probe.compare b found ≠ Probe.null := by
      intro found
      cases found <;> simp [Probe.compare]
    simp only [probesOf, reduceCtorEq, iff_false]
    split <;> simp [hc]

theorem hit_mem_probes :
    .hit a ∈ probes conf c acls ↔ some a ∈ acls ∧ a.tooStrict c = false ∧ a.names conf c := by
  simp only [mem_probes, hit_mem_probesOf]
  constructor
  · rintro ⟨acl, hmem, rfl, h⟩
    exact ⟨hmem, h⟩
  · rintro ⟨hmem, h⟩
    exact ⟨some a, hmem, rfl, h⟩

theorem strict_mem_probes : .strict a ∈ probes conf c acls ↔ some a ∈ acls ∧ a.tooStrict c := by
  simp only [mem_probes, strict_mem_probesOf]
  constructor
  · rintro ⟨acl, hmem, rfl, h⟩
    exact ⟨hmem, h⟩
  · rintro ⟨hmem, h⟩
    exact ⟨some a, hmem, rfl, h⟩

theorem null_mem_probes : .null ∈ probes conf c acls ↔ none ∈ acls := by
  simp [mem_probes, null_mem_probesOf]

end

/-! ### Small inputs -/

/-- An ACL for one user, of quality `0` and without a period. -/
def AclGroup.forUser (user : UInt32) (answer : Decision) : AclGroup where
  users := [user]
  groups := []
  answer := answer
  period := none
  logPrefix := none
  flags := 0
  authQuality := 0

/-- A connection of one user, authenticated by SASL. -/
def Connection.ofUser (user : UInt32) (acls : List AclGroup) : Connection :=
  { Connection.zero with userId := user, aclGroups := acls.map some, authQuality := 1 }

end Nufw
