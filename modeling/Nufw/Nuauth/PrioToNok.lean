import Mathlib.Order.Bounds.Basic
import Nufw.Nuauth.Verdict

/-!
# Priority to the refusals

`take_decision` with `prio_to_nok` set to `1` ("we stop if the decision is to block the packet").
Every probe has to be admissible and the last hit has to be an ACCEPT; the expiration is then the
least of the finite ends of the hits, `-1` standing for no end (`LeastEnd`).

Read on the ACL list, the verdict depends on the set of the ACLs only, and is stable under every
reordering (`decision_of_prio_to_nok_one`).
-/

namespace Nufw

/-! ### Expirations -/

/-- `e` is the least of a set of finite ends, `-1` when there is none. -/
def LeastEnd (ends : Set Int) (e : Int) : Prop := IsLeast ends e ∨ ends = ∅ ∧ e = -1

theorem LeastEnd.unique {ends : Set Int} {e e' : Int} (h : LeastEnd ends e)
    (h' : LeastEnd ends e') : e = e' := by
  rcases h with h | ⟨h, rfl⟩ <;> rcases h' with h' | ⟨h', rfl⟩
  · exact h.unique h'
  · exact absurd h.1 (by simp [h'])
  · exact absurd h'.1 (by simp [h])
  · rfl

/-- `lower` adds one end. -/
theorem LeastEnd.lower {ends : Set Int} {e pe : Int} (h : LeastEnd ends e)
    (hends : (-1 : Int) ∉ ends) :
    LeastEnd (ends ∪ {x | x = pe ∧ x ≠ -1}) (lower e pe) := by
  rw [Nufw.lower]
  by_cases hpe : pe = -1
  · have hset : ends ∪ {x | x = pe ∧ x ≠ -1} = ends := by
      ext x
      constructor
      · rintro (hx | ⟨rfl, hx⟩)
        · exact hx
        · exact absurd hpe hx
      · exact Or.inl
    rw [hset, hpe]
    split_ifs with hc
    · have he : e = -1 := by simpa using hc
      exact he ▸ h
    · exact h
  rcases h with h | ⟨h, rfl⟩
  · -- there is a least end already, and `lower` compares with it
    have hne : e ≠ -1 := fun he ↦ hends (he ▸ h.1)
    left
    split_ifs with hc
    · refine ⟨Or.inr ⟨rfl, hpe⟩, ?_⟩
      rintro x (hx | ⟨rfl, -⟩)
      · have := h.2 hx
        omega
      · exact le_rfl
    · refine ⟨Or.inl h.1, ?_⟩
      rintro x (hx | ⟨rfl, -⟩)
      · exact h.2 hx
      · omega
  · left
    rw [if_pos (Or.inl rfl)]
    refine ⟨Or.inr ⟨rfl, hpe⟩, ?_⟩
    rintro x (hx | ⟨rfl, -⟩)
    · exact absurd hx (by simp [h])
    · exact le_rfl

/-! ### Priority to the refusals -/

/-- A probe that does not end the loops when `prio_to_nok` is `1`. -/
def Probe.Admissible (conf : Params) (now : Int) : Probe → Prop
  | .null => False
  | .strict _ => False
  | .hit a => a.answer ≠ .drop ∧ a.answer ≠ .reject ∧ (a.answer = .accept → a.inPeriod conf now)
  | .miss _ => True

/-- The answer of the last hit. -/
def lastAnswer : List Probe → Decision → Decision
  | [], d => d
  | .hit a :: ps, _ => lastAnswer ps a.answer
  | .null :: ps, d => lastAnswer ps d
  | .strict _ :: ps, d => lastAnswer ps d
  | .miss _ :: ps, d => lastAnswer ps d

/-- The expiration the ACCEPT hits leave. -/
def lowest (conf : Params) (now : Int) : List Probe → Int → Int
  | [], e => e
  | .hit a :: ps, e =>
    lowest conf now ps (if a.answer = .accept then lower e (periodEnd conf now a) else e)
  | .null :: ps, e => lowest conf now ps e
  | .strict _ :: ps, e => lowest conf now ps e
  | .miss _ :: ps, e => lowest conf now ps e

/-- The finite ends of the ACCEPT hits. -/
def finiteEnds (conf : Params) (now : Int) (ps : List Probe) : Set Int :=
  {e | ∃ a, Probe.hit a ∈ ps ∧ a.answer = .accept ∧ e = periodEnd conf now a ∧ e ≠ -1}

theorem finiteEnds_hit_cons (conf : Params) (now : Int) (a : AclGroup) (ps : List Probe)
    (ha : a.answer = .accept) :
    finiteEnds conf now (.hit a :: ps) =
      {x | x = periodEnd conf now a ∧ x ≠ -1} ∪ finiteEnds conf now ps := by
  ext x
  simp only [finiteEnds, List.mem_cons, Probe.hit.injEq, Set.mem_union, Set.mem_ofPred_eq]
  constructor
  · rintro ⟨b, rfl | hb, h⟩
    · exact Or.inl h.2
    · exact Or.inr ⟨b, hb, h⟩
  · rintro (h | ⟨b, hb, h⟩)
    · exact ⟨a, Or.inl rfl, ha, h⟩
    · exact ⟨b, Or.inr hb, h⟩

theorem finiteEnds_cons_of_not_accept (conf : Params) (now : Int) {p : Probe} (ps : List Probe)
    (hp : ∀ a, p = .hit a → a.answer ≠ .accept) :
    finiteEnds conf now (p :: ps) = finiteEnds conf now ps := by
  ext x
  simp only [finiteEnds, List.mem_cons, Set.mem_ofPred_eq]
  constructor
  · rintro ⟨b, hb | hb, h⟩
    · exact absurd h.1 (hp b hb.symm)
    · exact ⟨b, hb, h⟩
  · rintro ⟨b, hb, h⟩
    exact ⟨b, Or.inr hb, h⟩

/-- The expiration is the least finite end. -/
theorem leastEnd_lowest (conf : Params) (now : Int) (ps : List Probe) :
    ∀ {ends : Set Int} {e : Int}, (-1 : Int) ∉ ends → LeastEnd ends e →
      LeastEnd (ends ∪ finiteEnds conf now ps) (lowest conf now ps e) := by
  induction ps with
  | nil =>
    intro ends e _ h
    have hempty : finiteEnds conf now [] = ∅ := by
      ext x
      simp [finiteEnds]
    rw [hempty, Set.union_empty]
    exact h
  | cons p ps ih =>
    intro ends e hends h
    -- what is no hit of an ACCEPT ACL has no end
    have hskip : ∀ q : Probe, (∀ a, q = .hit a → a.answer ≠ .accept) →
        LeastEnd (ends ∪ finiteEnds conf now (q :: ps)) (lowest conf now ps e) := by
      intro q hq
      rw [finiteEnds_cons_of_not_accept conf now ps hq]
      exact ih hends h
    cases p with
    | null => exact hskip .null (by simp)
    | strict a => exact hskip (.strict a) (by simp)
    | miss a => exact hskip (.miss a) (by simp)
    | hit a =>
      rw [lowest]
      by_cases ha : a.answer = .accept
      · rw [if_pos ha, finiteEnds_hit_cons conf now a ps ha, ← Set.union_assoc]
        refine ih ?_ (h.lower hends)
        rintro (hx | ⟨-, hx⟩)
        · exact hends hx
        · exact hx rfl
      · rw [if_neg ha]
        refine hskip (.hit a) ?_
        rintro b hb
        rw [← Probe.hit.inj hb]
        exact ha

section Nok

variable {conf : Params} {now : Int} (hprio : conf.prioToNok = 1)

include hprio

/-- Admissible probes all run, and leave the answer of the last hit. -/
theorem runOutcome_of_admissible {ps : List Probe} (hps : ∀ p ∈ ps, p.Admissible conf now)
    {o : Outcome} (ho : o.test = .nodecide) :
    runOutcome conf now ps o =
      ⟨lastAnswer ps o.answer, .nodecide, lowest conf now ps o.expire⟩ := by
  induction ps generalizing o with
  | nil => rw [runOutcome, foldUntil_nil, lastAnswer, lowest, ← ho]
  | cons p ps ih =>
    rw [runOutcome, foldUntil_cons (Outcome.not_decided_iff.2 ho)]
    have hp := hps p List.mem_cons_self
    have ih' := fun {o : Outcome} (ho : o.test = .nodecide) ↦
      ih (fun q hq ↦ hps q (List.mem_cons_of_mem _ hq)) ho
    cases p with
    | null => exact hp.elim
    | strict a => exact hp.elim
    | miss a => exact ih' ho
    | hit a =>
      obtain ⟨hdrop, hreject, hperiod⟩ := hp
      have htest : ∀ d : Decision, d ≠ .drop → d ≠ .reject →
          testAfter conf d o.test = .nodecide := by
        intro d h₁ h₂
        rw [testAfter, if_neg (by simp [stopsOn, hprio, h₁, h₂]), ho]
      by_cases ha : a.answer = .accept
      · rw [outcomeStep, if_pos ha, if_pos (hperiod ha), lastAnswer, lowest, if_pos ha, ha]
        exact ih' (htest .accept (by simp) (by simp))
      · rw [outcomeStep, if_neg ha, lastAnswer, lowest, if_neg ha]
        exact ih' (htest a.answer hdrop hreject)

/-- A probe that is not admissible ends the loops without an ACCEPT. -/
theorem outcomeStep_not_admissible {p : Probe} (hp : ¬p.Admissible conf now) (o : Outcome) :
    (outcomeStep conf now p o).Decided ∧ (outcomeStep conf now p o).answer ≠ .accept := by
  cases p with
  | null => exact ⟨rfl, by simp [outcomeStep]⟩
  | strict a =>
    refine ⟨?_, rejectOrDrop_ne_accept conf⟩
    exact if_pos (Or.inl ⟨hprio, rejectOrDrop_cases conf⟩)
  | miss a => exact absurd trivial hp
  | hit a =>
    simp only [Probe.Admissible, not_and] at hp
    rw [outcomeStep]
    by_cases ha : a.answer = .accept
    · have hout : ¬(a.inPeriod conf now = true) := fun h ↦
        hp (by simp [ha]) (by simp [ha]) fun _ ↦ h
      rw [if_pos ha, if_neg hout]
      exact ⟨rfl, by simp⟩
    · have hrefuse : a.answer = .drop ∨ a.answer = .reject := by
        by_contra hcon
        rw [not_or] at hcon
        exact hp hcon.1 hcon.2 fun h ↦ absurd h ha
      rw [if_neg ha]
      exact ⟨if_pos (Or.inl ⟨hprio, hrefuse⟩), ha⟩

theorem runOutcome_of_not_admissible {ps : List Probe} (hps : ∃ p ∈ ps, ¬p.Admissible conf now)
    {o : Outcome} (ho : o.test = .nodecide) : (runOutcome conf now ps o).answer ≠ .accept := by
  induction ps generalizing o with
  | nil =>
    obtain ⟨p, hp, -⟩ := hps
    cases hp
  | cons p ps ih =>
    rw [runOutcome, foldUntil_cons (Outcome.not_decided_iff.2 ho)]
    by_cases hp : p.Admissible conf now
    · have hone := runOutcome_of_admissible hprio
        (show ∀ q ∈ [p], q.Admissible conf now by simpa using hp) ho
      rw [runOutcome, foldUntil_cons (Outcome.not_decided_iff.2 ho), foldUntil_nil] at hone
      rw [hone]
      refine ih ?_ rfl
      obtain ⟨q, hq, hnot⟩ := hps
      rcases List.mem_cons.1 hq with rfl | hq
      · exact absurd hp hnot
      · exact ⟨q, hq, hnot⟩
    · obtain ⟨hdec, hans⟩ := outcomeStep_not_admissible hprio hp o
      rw [foldUntil_of_stop hdec]
      exact hans

omit hprio in
theorem lowest_ne_zero {ps : List Probe} (hps : ∀ p ∈ ps, p.Admissible conf now) {e : Int}
    (he : e ≠ 0) : lowest conf now ps e ≠ 0 := by
  induction ps generalizing e with
  | nil => exact he
  | cons p ps ih =>
    have hp := hps p List.mem_cons_self
    have ih' := fun {e : Int} (he : e ≠ 0) ↦ ih (fun q hq ↦ hps q (List.mem_cons_of_mem _ hq)) he
    cases p with
    | null => exact ih' he
    | strict a => exact ih' he
    | miss a => exact ih' he
    | hit a =>
      rw [lowest]
      refine ih' ?_
      split_ifs with ha
      · have hend : periodEnd conf now a ≠ 0 := by simpa [AclGroup.inPeriod] using hp.2.2 ha
        rw [lower]
        split_ifs
        · exact hend
        · exact he
      · exact he

/-- **Priority to the refusals, on probes.** -/
theorem accepted_nok_iff {ps : List Probe} :
    (runOutcome conf now ps Outcome.start).Accepted ↔
      (∀ p ∈ ps, p.Admissible conf now) ∧ lastAnswer ps .nodecide = .accept := by
  by_cases hps : ∀ p ∈ ps, p.Admissible conf now
  · rw [runOutcome_of_admissible hprio hps rfl]
    exact ⟨fun h ↦ ⟨hps, h.1⟩, fun h ↦ ⟨h.2, lowest_ne_zero hps (by simp [Outcome.start])⟩⟩
  · constructor
    · intro h
      push Not at hps
      exact absurd h.1 (runOutcome_of_not_admissible hprio hps rfl)
    · exact fun h ↦ absurd h.1 hps

/-- The expiration of an accepted run. -/
theorem expire_of_accepted_nok {ps : List Probe}
    (h : (runOutcome conf now ps Outcome.start).Accepted) :
    LeastEnd (finiteEnds conf now ps) (runOutcome conf now ps Outcome.start).expire := by
  rw [runOutcome_of_admissible hprio ((accepted_nok_iff hprio).1 h).1 rfl]
  have := leastEnd_lowest conf now ps (e := -1) (Set.notMem_empty _) (Or.inr ⟨rfl, rfl⟩)
  rwa [Set.empty_union] at this

end Nok

/-! ### Priority to the refusals, on the ACL list -/

/-- The ACLs accept the connection when refusals have priority: none asks for more quality, at
least one names the user, and those that do answer ACCEPT and are within their period. -/
structure NokAccepts (conf : Params) (now : Int) (c : Connection) (acls : List AclGroup) :
    Prop where
  quality : ∀ a ∈ acls, a.authQuality ≤ c.authQuality
  exists_names : ∃ a ∈ acls, a.names conf c
  accept : ∀ a ∈ acls, a.names conf c → a.answer = .accept ∧ a.inPeriod conf now

/-- The finite ends of the periods of the ACLs that name the user. -/
def matchingEnds (conf : Params) (now : Int) (c : Connection) (acls : List AclGroup) : Set Int :=
  {e | ∃ a ∈ acls, a.names conf c ∧ e = periodEnd conf now a ∧ e ≠ -1}

theorem lastAnswer_eq_accept {ps : List Probe} {d : Decision}
    (hps : ∀ a, Probe.hit a ∈ ps → a.answer = .accept) :
    lastAnswer ps d = .accept ↔ d = .accept ∨ ∃ a, Probe.hit a ∈ ps := by
  induction ps generalizing d with
  | nil => simp [lastAnswer]
  | cons p ps ih =>
    have ih' := fun {d : Decision} ↦ ih (d := d) fun a ha ↦ hps a (List.mem_cons_of_mem _ ha)
    cases p with
    | null => simp [lastAnswer, ih']
    | strict b => simp [lastAnswer, ih']
    | miss b => simp [lastAnswer, ih']
    | hit b =>
      rw [lastAnswer, ih']
      exact ⟨fun _ ↦ Or.inr ⟨b, List.mem_cons_self⟩, fun _ ↦ Or.inl (hps b List.mem_cons_self)⟩

section Nok

variable {conf : Params} {now : Int} {c : Connection} {acls : List AclGroup}

/-- The probes of the list say the same as the list. -/
theorem nokAccepts_iff_probes (hans : ∀ a ∈ acls, a.answer ≠ .nodecide) :
    NokAccepts conf now c acls ↔
      (∀ p ∈ probes conf c (acls.map some), p.Admissible conf now) ∧
        lastAnswer (probes conf c (acls.map some)) .nodecide = .accept := by
  have hhit : ∀ a, Probe.hit a ∈ probes conf c (acls.map some) ↔
      a ∈ acls ∧ a.authQuality ≤ c.authQuality ∧ a.names conf c := by
    intro a
    rw [hit_mem_probes, AclGroup.tooStrict_eq_false]
    simp
  constructor
  · intro h
    refine ⟨?_, (lastAnswer_eq_accept ?_).2 (Or.inr ?_)⟩
    · intro p hp
      cases p with
      | null => simp [null_mem_probes] at hp
      | strict a =>
        obtain ⟨hmem, hs⟩ := strict_mem_probes.1 hp
        have hq := AclGroup.tooStrict_eq_false.2 (h.quality a (by simpa using hmem))
        rw [hs] at hq
        cases hq
      | miss a => trivial
      | hit a =>
        obtain ⟨hmem, -, hn⟩ := (hhit a).1 hp
        obtain ⟨ha, hperiod⟩ := h.accept a hmem hn
        exact ⟨by simp [ha], by simp [ha], fun _ ↦ hperiod⟩
    · intro a ha
      obtain ⟨hmem, -, hn⟩ := (hhit a).1 ha
      exact (h.accept a hmem hn).1
    · obtain ⟨a, hmem, hn⟩ := h.exists_names
      exact ⟨a, (hhit a).2 ⟨hmem, h.quality a hmem, hn⟩⟩
  · -- an ACL that asks for too much has a probe of its own, which is not admissible
    rintro ⟨hadm, hlast⟩
    have hquality : ∀ a ∈ acls, a.authQuality ≤ c.authQuality := by
      intro a hmem
      by_contra hlt
      have hs : a.tooStrict c = true := by simpa [AclGroup.tooStrict] using hlt
      exact hadm (.strict a) (strict_mem_probes.2 ⟨by simpa using hmem, hs⟩)
    have haccept : ∀ a, Probe.hit a ∈ probes conf c (acls.map some) → a.answer = .accept := by
      intro a ha
      obtain ⟨hdrop, hreject, -⟩ := hadm _ ha
      have hno := hans a ((hhit a).1 ha).1
      cases h : a.answer <;> simp_all
    refine ⟨hquality, ?_, fun a hmem hn ↦ ?_⟩
    · rcases (lastAnswer_eq_accept haccept).1 hlast with h | ⟨a, ha⟩
      · cases h
      · exact ⟨a, ((hhit a).1 ha).1, ((hhit a).1 ha).2.2⟩
    · have ha := (hhit a).2 ⟨hmem, hquality a hmem, hn⟩
      exact ⟨haccept a ha, (hadm _ ha).2.2 (haccept a ha)⟩

theorem finiteEnds_probes (h : NokAccepts conf now c acls) :
    finiteEnds conf now (probes conf c (acls.map some)) = matchingEnds conf now c acls := by
  ext e
  simp only [finiteEnds, matchingEnds, Set.mem_ofPred_eq, hit_mem_probes]
  constructor
  · rintro ⟨a, ⟨hmem, -, hn⟩, -, he⟩
    exact ⟨a, by simpa using hmem, hn, he⟩
  · rintro ⟨a, hmem, hn, he⟩
    exact ⟨a, ⟨by simpa using hmem, AclGroup.tooStrict_eq_false.2 (h.quality a hmem), hn⟩,
      (h.accept a hmem hn).1, he⟩

variable (hprio : conf.prioToNok = 1)

include hprio

theorem decision_nok_iff (hacls : c.aclGroups = acls.map some) (hne : acls ≠ [])
    (hans : ∀ a ∈ acls, a.answer ≠ .nodecide) :
    (decidedElement conf now c).decision = .accept ↔ NokAccepts conf now c acls := by
  rw [decidedElement_accept_iff (by simpa [hacls] using hne), accepted_nok_iff hprio, hacls,
    nokAccepts_iff_probes hans]

theorem expire_nok (hacls : c.aclGroups = acls.map some) (hne : acls ≠ [])
    (hans : ∀ a ∈ acls, a.answer ≠ .nodecide)
    (h : (decidedElement conf now c).decision = .accept) :
    LeastEnd (matchingEnds conf now c acls) (decidedElement conf now c).expire := by
  have hne' : c.aclGroups ≠ [] := by simpa [hacls] using hne
  rw [decidedElement_expire_eq hne',
    ← finiteEnds_probes ((decision_nok_iff hprio hacls hne hans).1 h), ← hacls]
  exact expire_of_accepted_nok hprio ((decidedElement_accept_iff hne').1 h)

end Nok

/-! ### Reordering -/

/-- Two ACLs that differ by the order of their users and of their groups only. -/
structure AclGroup.Reordered (a b : AclGroup) : Prop where
  users : a.users.Perm b.users
  groups : a.groups.Perm b.groups
  answer : a.answer = b.answer
  period : a.period = b.period
  authQuality : a.authQuality = b.authQuality

/-- Two lists of ACLs that differ by their order, and by the order of the users and groups in each
ACL. -/
def SameRules (acls acls' : List AclGroup) : Prop :=
  ∃ acls₁, acls.Perm acls₁ ∧ List.Forall₂ AclGroup.Reordered acls₁ acls'

/-- Two connections that differ, as far as the loops look, by the order of the groups. -/
structure SameIdentity (c c' : Connection) : Prop where
  userId : c.userId = c'.userId
  userGroups : c.userGroups.Perm c'.userGroups
  authQuality : c.authQuality = c'.authQuality

theorem SameRules.exists_reordered {acls acls' : List AclGroup} (h : SameRules acls acls') :
    (∀ a ∈ acls, ∃ b ∈ acls', a.Reordered b) ∧ ∀ b ∈ acls', ∃ a ∈ acls, a.Reordered b := by
  obtain ⟨acls₁, hperm, hrel⟩ := h
  refine ⟨fun a ha ↦ ?_, fun b hb ↦ ?_⟩
  · have ha₁ := hperm.mem_iff.1 ha
    clear hperm ha
    induction hrel with
    | nil => cases ha₁
    | cons hab _ ih =>
      rcases List.mem_cons.1 ha₁ with rfl | ha₁
      · exact ⟨_, List.mem_cons_self, hab⟩
      · obtain ⟨b, hb, hrel⟩ := ih ha₁
        exact ⟨b, List.mem_cons_of_mem _ hb, hrel⟩
  · have hex : ∃ a ∈ acls₁, a.Reordered b := by
      clear hperm
      induction hrel with
      | nil => cases hb
      | cons hab _ ih =>
        rcases List.mem_cons.1 hb with rfl | hb
        · exact ⟨_, List.mem_cons_self, hab⟩
        · obtain ⟨a, ha, hrel⟩ := ih hb
          exact ⟨a, List.mem_cons_of_mem _ ha, hrel⟩
    obtain ⟨a, ha, hrel⟩ := hex
    exact ⟨a, hperm.mem_iff.2 ha, hrel⟩

section Reordering

variable {conf : Params} {now : Int} {c c' : Connection} {acls acls' : List AclGroup}

theorem names_reordered {a b : AclGroup} (hab : a.Reordered b) (hc : SameIdentity c c') :
    a.names conf c = b.names conf c' := by
  rw [Bool.eq_iff_iff]
  simp only [AclGroup.names, Bool.or_eq_true, List.any_eq_true, List.contains_iff_mem, hc.userId,
    hab.users.mem_iff, hc.userGroups.mem_iff, hab.groups.mem_iff]

theorem periodEnd_reordered {a b : AclGroup} (hab : a.Reordered b) :
    periodEnd conf now a = periodEnd conf now b := by
  rw [periodEnd, periodEnd, hab.period]

theorem NokAccepts.reordered (h : NokAccepts conf now c acls)
    (hto : ∀ a ∈ acls, ∃ b ∈ acls', a.Reordered b)
    (hfrom : ∀ b ∈ acls', ∃ a ∈ acls, a.Reordered b) (hc : SameIdentity c c') :
    NokAccepts conf now c' acls' := by
  refine ⟨fun b hb ↦ ?_, ?_, fun b hb hn ↦ ?_⟩
  · obtain ⟨a, ha, hab⟩ := hfrom b hb
    rw [← hab.authQuality, ← hc.authQuality]
    exact h.quality a ha
  · obtain ⟨a, ha, hn⟩ := h.exists_names
    obtain ⟨b, hb, hab⟩ := hto a ha
    exact ⟨b, hb, by rwa [← names_reordered hab hc]⟩
  · obtain ⟨a, ha, hab⟩ := hfrom b hb
    obtain ⟨haccept, hperiod⟩ := h.accept a ha (by rwa [names_reordered hab hc])
    refine ⟨hab.answer ▸ haccept, ?_⟩
    rwa [AclGroup.inPeriod, ← periodEnd_reordered hab]

theorem SameIdentity.symm (h : SameIdentity c c') : SameIdentity c' c :=
  ⟨h.userId.symm, h.userGroups.symm, h.authQuality.symm⟩

theorem AclGroup.Reordered.symm {a b : AclGroup} (h : a.Reordered b) : b.Reordered a :=
  ⟨h.users.symm, h.groups.symm, h.answer.symm, h.period.symm, h.authQuality.symm⟩

theorem nokAccepts_reordered_iff (hacls : SameRules acls acls') (hc : SameIdentity c c') :
    NokAccepts conf now c acls ↔ NokAccepts conf now c' acls' := by
  obtain ⟨hto, hfrom⟩ := hacls.exists_reordered
  constructor
  · exact fun h ↦ h.reordered hto hfrom hc
  · intro h
    refine h.reordered (fun b hb ↦ ?_) (fun a ha ↦ ?_) hc.symm
    · obtain ⟨a, ha, hab⟩ := hfrom b hb
      exact ⟨a, ha, hab.symm⟩
    · obtain ⟨b, hb, hab⟩ := hto a ha
      exact ⟨b, hb, hab.symm⟩

theorem matchingEnds_reordered (hacls : SameRules acls acls') (hc : SameIdentity c c') :
    matchingEnds conf now c acls = matchingEnds conf now c' acls' := by
  obtain ⟨hto, hfrom⟩ := hacls.exists_reordered
  ext e
  constructor
  · rintro ⟨a, ha, hn, he⟩
    obtain ⟨b, hb, hab⟩ := hto a ha
    exact ⟨b, hb, by rwa [← names_reordered hab hc], by rwa [← periodEnd_reordered hab]⟩
  · rintro ⟨b, hb, hn, he⟩
    obtain ⟨a, ha, hab⟩ := hfrom b hb
    exact ⟨a, ha, by rwa [names_reordered hab hc], by rwa [periodEnd_reordered hab]⟩

/-- Reordering the ACLs, their users, their groups or the groups of the user changes neither
whether the connection is accepted nor its expiration. -/
theorem decision_nok_reordered (hprio : conf.prioToNok = 1) (hacls : c.aclGroups = acls.map some)
    (hacls' : c'.aclGroups = acls'.map some) (hne : acls ≠ [])
    (hans : ∀ a ∈ acls, a.answer ≠ .nodecide) (hc : SameIdentity c c')
    (hrules : SameRules acls acls') :
    ((decidedElement conf now c).decision = .accept ↔
        (decidedElement conf now c').decision = .accept) ∧
      ((decidedElement conf now c).decision = .accept →
        (decidedElement conf now c').expire = (decidedElement conf now c).expire) := by
  obtain ⟨hto, hfrom⟩ := hrules.exists_reordered
  have hne' : acls' ≠ [] := by
    rintro rfl
    obtain ⟨a, ha⟩ := List.exists_mem_of_ne_nil acls hne
    obtain ⟨b, hb, -⟩ := hto a ha
    cases hb
  have hans' : ∀ b ∈ acls', b.answer ≠ .nodecide := by
    intro b hb
    obtain ⟨a, ha, hab⟩ := hfrom b hb
    rw [← hab.answer]
    exact hans a ha
  have hiff : (decidedElement conf now c).decision = .accept ↔
      (decidedElement conf now c').decision = .accept := by
    rw [decision_nok_iff hprio hacls hne hans, decision_nok_iff hprio hacls' hne' hans',
      nokAccepts_reordered_iff hrules hc]
  refine ⟨hiff, fun h ↦ ?_⟩
  have hend := expire_nok hprio hacls hne hans h
  rw [matchingEnds_reordered hrules hc] at hend
  exact (expire_nok hprio hacls' hne' hans' (hiff.1 h)).unique hend

end Reordering

/-- **The decision when refusals have priority.** A connection with ACLs is accepted exactly when
its ACLs accept it, and then expires at the least finite end of the ACLs that name the user; this
does not depend on any order; a connection without an ACL is not accepted. -/
theorem decision_of_prio_to_nok_one {conf : Params} (hprio : conf.prioToNok = 1) (now : Int) :
    (∀ (c : Connection) (acls : List AclGroup), c.aclGroups = acls.map some → acls ≠ [] →
      (∀ a ∈ acls, a.answer ≠ .nodecide) →
        ((decidedElement conf now c).decision = .accept ↔
          (∀ a ∈ acls, a.authQuality ≤ c.authQuality) ∧ (∃ a ∈ acls, a.names conf c) ∧
            ∀ a ∈ acls, a.names conf c → a.answer = .accept ∧
              (a.period = none ∨ periodEnd conf now a ≠ 0)) ∧
        ((decidedElement conf now c).decision = .accept →
          LeastEnd (matchingEnds conf now c acls) (decidedElement conf now c).expire)) ∧
    (∀ (c c' : Connection) (acls acls' : List AclGroup), c.aclGroups = acls.map some →
      c'.aclGroups = acls'.map some → acls ≠ [] → (∀ a ∈ acls, a.answer ≠ .nodecide) →
      SameIdentity c c' → SameRules acls acls' →
        ((decidedElement conf now c).decision = .accept ↔
          (decidedElement conf now c').decision = .accept) ∧
        ((decidedElement conf now c).decision = .accept →
          (decidedElement conf now c').expire = (decidedElement conf now c).expire)) ∧
    ∀ c : Connection, c.aclGroups = [] → (decidedElement conf now c).decision ≠ .accept := by
  have hperiod : ∀ a : AclGroup,
      (a.period = none ∨ periodEnd conf now a ≠ 0) ↔ a.inPeriod conf now = true := by
    intro a
    cases h : a.period <;> simp [AclGroup.inPeriod, periodEnd, h]
  refine ⟨fun c acls hacls hne hans ↦ ⟨?_, expire_nok hprio hacls hne hans⟩, ?_, ?_⟩
  · rw [decision_nok_iff hprio hacls hne hans]
    simp only [hperiod]
    exact ⟨fun h ↦ ⟨h.quality, h.exists_names, h.accept⟩, fun h ↦ ⟨h.1, h.2.1, h.2.2⟩⟩
  · intro c c' acls acls' hacls hacls' hne hans hc hrules
    exact decision_nok_reordered hprio hacls hacls' hne hans hc hrules
  · exact fun c h ↦ decidedElement_of_nil conf now h

/-- Two ACCEPT ACLs, one until 5000: the connection is accepted until then. -/
theorem decision_of_two_accepts :
    let conf := { Params.default with
      prioToNok := 1, periods := [([119], [⟨-1, -1, 5000, -1, -1, -1, -1⟩])] }
    let acls := [AclGroup.forUser 7 .accept,
      { AclGroup.forUser 7 .accept with period := some [119] }]
    (decidedElement conf 1000 (Connection.ofUser 7 acls)).decision = .accept ∧
      (decidedElement conf 1000 (Connection.ofUser 7 acls)).expire = 5000 := by
  intro conf acls
  have hprio : conf.prioToNok = 1 := rfl
  have h := (decision_of_prio_to_nok_one hprio 1000).1 (Connection.ofUser 7 acls) acls rfl
    (by decide) (by decide)
  have haccept := h.1.2 (by decide)
  refine ⟨haccept, (h.2 haccept).unique (Or.inl ⟨?_, ?_⟩)⟩
  · exact ⟨_, List.mem_cons_of_mem _ List.mem_cons_self, by decide, by decide, by decide⟩
  · rintro e ⟨a, ha, -, he, hfin⟩
    rcases List.mem_cons.1 ha with rfl | ha
    · exact absurd he hfin
    · obtain rfl := List.mem_singleton.1 ha
      exact he.ge.trans' (by decide)

end Nufw
