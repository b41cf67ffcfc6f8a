import Nufw.Nuauth.Accounting
import Nufw.Nuauth.Acls
import Nufw.Nuauth.PcktAuthsrv
import Nufw.Nuauth.UserAuthsrv
import Nufw.Nuauth.Verdict

/-!
# The order of arrival

The two halves of a connection can arrive in either order, and each order has its own function in
`auth_hash.c`: `search_and_fill_complete_of_authreq` copies the fields of the user into the entry
of the gateway, `search_and_fill_complete_of_userpckt` those of the gateway into the entry of the
user. For two halves as the parsers produce them, the entries that result differ by their
timestamps only, and the copies that go to the ACL checkers have the same key
(`arrival_order_irrelevant`).

A decision does not look at the timestamp of the connection (`decidedElement_timestamp`), so
everything that follows is the same.
-/

namespace Nufw

/-! ### Decisions and timestamps -/

/-- The variables of a decision on the same connection with another timestamp. -/
def DecisionVars.stamp (t : Int) (v : DecisionVars) : DecisionVars :=
  { v with element := { v.element with timestamp := t } }

theorem applyPriority_stamp (conf : Params) (t : Int) (a : AclGroup) (v : DecisionVars) :
    applyPriority conf a (v.stamp t) = (applyPriority conf a v).stamp t := by
  have hanswer : (v.stamp t).answer = v.answer := rfl
  unfold applyPriority
  rw [hanswer]
  split_ifs <;> rfl

theorem applyPeriod_stamp (conf : Params) (now t : Int) (a : AclGroup) (v : DecisionVars) :
    applyPeriod conf now a (v.stamp t) = (applyPeriod conf now a v).stamp t := by
  have hanswer : (v.stamp t).answer = v.answer := rfl
  have hexpire : (v.stamp t).expire = v.expire := rfl
  unfold applyPeriod
  rw [hanswer]
  by_cases haccept : v.answer = .accept
  · rw [if_pos haccept, if_pos haccept]
    by_cases hperiod : a.period.isSome = true ∧ periodEnd conf now a = 0
    · simp only [if_pos hperiod, hexpire]
      split_ifs <;> rfl
    · simp only [if_neg hperiod, hexpire]
      split_ifs <;> rfl
  · rw [if_neg haccept, if_neg haccept]

theorem updateDecision_stamp (conf : Params) (now t : Int) (a : AclGroup) (v : DecisionVars) :
    updateDecision conf now a (v.stamp t) = (updateDecision conf now a v).stamp t := by
  rw [updateDecision, applyPriority_stamp, applyPeriod_stamp, updateDecision]

theorem probeStep_stamp (conf : Params) (now t : Int) (p : Probe) (v : DecisionVars) :
    (probeStep conf now p v).stamp t = probeStep conf now p (v.stamp t) := by
  cases p with
  | null => rfl
  | strict a => exact (updateDecision_stamp conf now t a _).symm
  | hit a => exact (updateDecision_stamp conf now t a _).symm
  | miss a =>
    have hanswer : (v.stamp t).answer = v.answer := rfl
    rw [probeStep, searchResult, probeStep, searchResult, if_neg Bool.false_ne_true,
      if_neg Bool.false_ne_true, hanswer]
    split_ifs <;> rfl

theorem searchAcls_stamp (conf : Params) (now t : Int) (c : Connection) :
    searchAcls conf now { c with timestamp := t } = (searchAcls conf now c).stamp t := by
  have hstop : ∀ v, Decided v ↔ Decided (v.stamp t) := fun _ ↦ Iff.rfl
  by_cases hacls : c.aclGroups = []
  · rw [searchAcls, if_pos hacls, searchAcls, if_pos hacls]
    rfl
  · rw [searchAcls_eq conf now hacls, searchAcls_eq conf now (c := { c with timestamp := t }) hacls]
    exact (foldUntil_map (DecisionVars.stamp t) hstop (probeStep_stamp conf now t)
      (probes conf c c.aclGroups) (initialVars c)).symm

theorem modulesFinalizePacket_timestamp (conf : Params) (t : Int) (c : Connection) :
    modulesFinalizePacket conf { c with timestamp := t } =
      { modulesFinalizePacket conf c with timestamp := t } := by
  unfold modulesFinalizePacket
  induction conf.finalizeModules generalizing c with
  | nil => rfl
  | cons m modules ih =>
    rw [List.foldl_cons, List.foldl_cons, ← ih]
    cases m <;> rfl

/-- **A decision does not depend on the timestamp of the connection.** -/
theorem decidedElement_timestamp (conf : Params) (now t : Int) (c : Connection) :
    decidedElement conf now { c with timestamp := t } =
      { decidedElement conf now c with timestamp := t } := by
  rw [decidedElement, decideElement, searchAcls_stamp]
  exact modulesFinalizePacket_timestamp conf t (decideElement conf now c)

/-! ### Two steps of the hash -/

/-- A connection becomes an entry, and a second one meets it and completes it. -/
theorem World.searchAndFill_twice (conf : Params) (log : Logger) (t₁ t₂ : Int) {host : Host}
    {w : World} {first second packet checked : Connection}
    (hfree : ∀ c ∈ w.connList, hasKey host.order first.tracking c = false)
    (hkey : hasKey host.order second.tracking first = true)
    (hfilled : ∀ h, searchAndFillUpdate host h second first =
      ⟨h, packet, some checked, false, [], []⟩) :
    let w' := (w.searchAndFill conf host log t₁ first).searchAndFill conf host log t₂ second
    w'.connList = packet :: w.connList ∧ w'.aclCheckers = w.aclCheckers ++ [checked] := by
  have hnone : w.connList.find? (hasKey host.order first.tracking) = none :=
    List.find?_eq_none.2 fun c hc ↦ by simp [hfree c hc]
  have hinsert : (w.searchAndFill conf host log t₁ first).connList = first :: w.connList ∧
      (w.searchAndFill conf host log t₁ first).aclCheckers = w.aclCheckers := by
    rw [World.searchAndFill]
    rw [hnone]
    dsimp only
    split_ifs <;> exact ⟨rfl, rfl⟩
  intro w'
  have hw' : w' = (w.searchAndFill conf host log t₁ first).searchAndFill conf host log t₂ second :=
    rfl
  generalize w.searchAndFill conf host log t₁ first = v at hinsert hw'
  have hfind : v.connList.find? (hasKey host.order second.tracking) = some first := by
    rw [hinsert.1, List.find?_cons_of_pos hkey]
  rw [World.searchAndFill, hfind] at hw'
  dsimp only at hw'
  rw [hfilled, if_neg Bool.false_ne_true, hinsert.1, hinsert.2, updateFirst, if_pos hkey] at hw'
  rw [hw']
  exact ⟨rfl, rfl⟩

/-! ### The two halves -/

section

variable {conf : Params} {data : TlsBufferRead} {n u : Connection}

theorem Announced.undecided (h : Announced conf data u) : Undecided u := by
  rw [h.frame]
  exact ⟨rfl, rfl, rfl, rfl, rfl⟩

theorem Announced.payload (h : Announced conf data u) : u.payload = Vector.replicate 128 0 := by
  rw [h.frame]
  rfl

/-- A tracking that equals the one of a request is canonical. -/
theorem Announced.canonical (h : Announced conf data u) (hn : n.tracking.Canonical)
    (heq : trackingEqual n.tracking u.tracking = true) : u.tracking.Canonical := by
  refine h.tracking.resolve_left fun hzero ↦ ?_
  have hprotocol : n.tracking.protocol = Tracking.zero.protocol := by
    by_contra hne
    rw [hzero, trackingEqual, if_pos hne] at heq
    cases heq
  rcases hn.protocol_mem with hp | hp | hp | hp <;> rw [hp] at hprotocol <;>
    exact absurd hprotocol (by decide)

/-- **The entries** that the two orders leave differ by their timestamps only. -/
theorem completedByUser_eq (hn : Requested n) (hu : Announced conf data u)
    (htracking : n.tracking = u.tracking) :
    completedByUser u n = { completedByGateway n u with timestamp := n.timestamp } := by
  obtain ⟨haclGroups, hdecision, hlogPrefix, hflags, hexpire⟩ := hn.undecided
  obtain ⟨haclGroups', hdecision', hlogPrefix', hflags', hexpire'⟩ := hu.undecided
  have hpayload : n.payload = copyPayload u.payload n.payload n.payloadLen := by
    rw [hu.payload, hn.payload]
  unfold completedByUser completedByGateway
  simp only [Connection.mk.injEq, and_true, true_and]
  exact ⟨htracking, by rw [haclGroups, haclGroups'], by rw [hdecision, hdecision'],
    by rw [hlogPrefix, hlogPrefix'], by rw [hflags, hflags'], by rw [hexpire, hexpire'], hpayload⟩

/-- The copies for the ACL checkers have the same key. -/
theorem aclCreateAndAllocKey_copies (htracking : n.tracking = u.tracking) :
    aclCreateAndAllocKey (copyOfUser u n) = aclCreateAndAllocKey (copyOfGateway n u) := by
  unfold aclCreateAndAllocKey copyOfUser copyOfGateway
  rw [htracking]

end

/-! ### The result -/

/-- Two completed entries, with the copies handed to the ACL checkers, that nothing distinguishes
but the timestamp. -/
structure SameCompletion (conf : Params) (host : Host) (e₁ c₁ e₂ c₂ : Connection) : Prop where
  state : e₁.state = .completing ∧ e₂.state = .completing
  entry : e₁ = { e₂ with timestamp := e₁.timestamp }
  key : aclCreateAndAllocKey c₁ = aclCreateAndAllocKey c₂
  appSig : c₁.appSig = c₂.appSig
  /-- The copies come back with the same ACLs, and `take_decision` is called on the entries. -/
  decided : ∀ (h : Sessions) (acls : List (Option AclGroup)) (now : Int),
    let d₁ := decidedElement conf now
      (searchAndFillUpdate host h { c₁ with aclGroups := acls } e₁).packet
    let d₂ := decidedElement conf now
      (searchAndFillUpdate host h { c₂ with aclGroups := acls } e₂).packet
    d₁.decision = d₂.decision ∧ d₁.expire = d₂.expire ∧ d₁.flags = d₂.flags ∧
      d₁.logPrefix = d₂.logPrefix ∧
      ∀ p, sendAuthResponse host h d₁ p = sendAuthResponse host h d₂ p

/-- The two halves, completed in either way. -/
theorem sameCompletion {conf : Params} {data : TlsBufferRead} {n u : Connection} (hn : Requested n)
    (hu : Announced conf data u) (htracking : n.tracking = u.tracking) (host : Host) :
    SameCompletion conf host (completedByUser u n) (copyOfUser u n) (completedByGateway n u)
      (copyOfGateway n u) where
  state := ⟨rfl, rfl⟩
  entry := completedByUser_eq hn hu htracking
  key := aclCreateAndAllocKey_copies htracking
  appSig := rfl
  decided h acls now := by
    rw [searchAndFillUpdate_completing_completing host h rfl rfl,
      searchAndFillUpdate_completing_completing host h rfl rfl, completedByUser_eq hn hu htracking]
    have hdecided := decidedElement_timestamp conf now n.timestamp
      { completedByGateway n u with aclGroups := acls, state := .ready }
    dsimp only at hdecided ⊢
    rw [hdecided]
    exact ⟨rfl, rfl, rfl, rfl, fun p ↦ rfl⟩

/-- **The order of arrival does not matter.** -/
theorem arrival_order_irrelevant {conf : Params} {host : Host} {fuel fuel' : ℕ}
    {localid : Tracking → Bool} {now : Int} {dgram : Memory} {dgramSize : ℕ} {r : NewConnection}
    {env : UserEnv} {clock : ℕ → Int} {data : TlsBufferRead} {conns : List Connection}
    {n u : Connection} (hn : authpcktNewConnection fuel conf localid now dgram dgramSize = some r)
    (hr : r.Produces n) (hstate : n.state = .authreq)
    (hu : userRequest conf env clock fuel' data = some conns) (hmem : u ∈ conns)
    (htracking : trackingEqual n.tracking u.tracking = true) (session : SessionId) {w : World}
    (hfree : ∀ c ∈ w.connList, hasKey host.order n.tracking c = false) (log : Logger)
    (t₁ t₂ : Int) :
    let n := n.ofSession session
    let w₁ := (w.searchAndFill conf host log t₁ n).searchAndFill conf host log t₂ u
    let w₂ := (w.searchAndFill conf host log t₁ u).searchAndFill conf host log t₂ n
    ∃ e₁ c₁ e₂ c₂, w₁.connList = e₁ :: w.connList ∧ w₁.aclCheckers = w.aclCheckers ++ [c₁] ∧
      w₂.connList = e₂ :: w.connList ∧ w₂.aclCheckers = w.aclCheckers ++ [c₂] ∧
      SameCompletion conf host e₁ c₁ e₂ c₂ := by
  have hrequested := (authpcktNewConnection_requested hn hr hstate).1.ofSession session
  have hannounced := userRequest_announced hu u hmem
  have hcanonical := hannounced.canonical hrequested.canonical htracking
  have heq : n.tracking = u.tracking :=
    (trackingEqual_iff hrequested.canonical hcanonical).1 htracking
  have hus : u.state = .userpckt := by
    rw [hannounced.frame]
  intro n' w₁ w₂
  have hns : n'.state = .authreq := hstate
  have hnfree : ∀ c ∈ w.connList, hasKey host.order n'.tracking c = false := hfree
  have hkey₁ : hasKey host.order u.tracking n' = true :=
    (hasKey_iff hrequested.canonical hcanonical).2 heq
  have hkey₂ : hasKey host.order n'.tracking u = true :=
    (hasKey_iff hcanonical hrequested.canonical).2 heq.symm
  obtain ⟨hlist₁, hcheckers₁⟩ := World.searchAndFill_twice conf log t₁ t₂ hnfree hkey₁
    fun h ↦ searchAndFillUpdate_authreq_userpckt host h hns hus
  obtain ⟨hlist₂, hcheckers₂⟩ := World.searchAndFill_twice conf log t₁ t₂ (heq ▸ hfree) hkey₂
    fun h ↦ searchAndFillUpdate_userpckt_authreq host h hus hns
  exact ⟨_, _, _, _, hlist₁, hcheckers₁, hlist₂, hcheckers₂,
    sameCompletion hrequested hannounced heq host⟩

/-- The TCP SYN of `Tracking.sample`, as a gateway announces it. -/
def synMessage : Bytes :=
  [6, 1, 0, 120, 0, 0, 0, 1, 0, 0, 0, 9, 0, 0, 0, 0] ++ List.replicate 64 0 ++
    [0x45, 0, 0, 40, 0, 0, 0, 0, 64, 6, 0, 0, 192, 168, 0, 2, 192, 168, 0, 3] ++
    [0x9c, 0x40, 0, 22, 0, 0, 0, 0, 0, 0, 0, 0, 0x50, 2, 0, 0, 0, 0, 0, 0]

/-- The buffer that holds the announcement of the same connection by its user. -/
def synBufferRead : TlsBufferRead :=
  UserSession.sample.bufferRead Params.default (Memory.ofBytes synUserMessage) 60

/-- What `authpckt_new_connection` makes of the SYN. -/
def synNewConnection : NewConnection :=
  (authpcktNewConnection 1 Params.default (fun _ ↦ false) 0 (Memory.ofBytes synMessage) 120).get
    (by decide)

/-- The request for the SYN. -/
def synRequest : Connection := synNewConnection.connection.get (by decide)

/-- What `user_request` makes of the announcement. -/
def synConnections : List Connection :=
  (userRequest Params.default UserEnv.sample (fun _ ↦ 0) 4 synBufferRead).get (by decide)

/-- The packet of the user for the SYN. -/
def synUserPacket : Connection := synConnections.head (by decide)

/-- A SYN and its announcement, met in both orders by an empty hash. -/
theorem arrival_order_of_syn :
    let n := synRequest.ofSession 0
    let process := World.searchAndFill Params.default Host.sample Logger.sample 0
    let w := World.start fun _ ↦ NufwSession.new
    ∃ e₁ c₁ e₂ c₂, (process synUserPacket (process n w)).connList = [e₁] ∧
      (process synUserPacket (process n w)).aclCheckers = [c₁] ∧
      (process n (process synUserPacket w)).connList = [e₂] ∧
      (process n (process synUserPacket w)).aclCheckers = [c₂] ∧
      SameCompletion Params.default Host.sample e₁ c₁ e₂ c₂ := by
  have hproduces : synNewConnection.Produces synRequest :=
    ⟨by decide, (Option.some_get _).symm, by decide, by decide⟩
  exact arrival_order_irrelevant (Option.some_get _).symm hproduces (by decide)
    (Option.some_get _).symm (List.head_mem _) (by decide) 0 (fun c hc ↦ by cases hc) _ _ _

end Nufw
