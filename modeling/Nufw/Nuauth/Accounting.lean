import Nufw.Nuauth.CoreInv

/-!
# No request is lost or answered twice

Every event keeps the invariant of the core, so it holds in every reachable state. The counts are
sums over lists (`total`), so for each event this is an equation between sums.

The result is `no_request_lost_or_answered_twice`.
-/

namespace Nufw

/-! ### One iteration of `search_and_fill` -/

namespace Core.Inv

variable {w : World}

/-- A connection without an entry becomes one. -/
theorem insert (hw : Core.Inv w) {new : Connection} {queue : List Connection}
    (hq : w.connectionsQueue = new :: queue)
    (hnone : ∀ c ∈ w.connList, c.tracking ≠ new.tracking) :
    Core.Inv { w with connectionsQueue := queue, connList := new :: w.connList } := by
  have hnew := hw.queue new (by simp [hq])
  have hstate : new.state ≠ .completing := by
    intro hs
    obtain ⟨e, he, -, ht⟩ := hw.exists_entry (c := new) (Or.inr (by simp [hq])) hs
    exact hnone e he ht
  have hentry : EntryConn new := by
    rcases hnew with h | h | h
    · exact ⟨Or.inl h.state, fun hs ↦ absurd (h.state.symm.trans hs) (by simp),
        fun _ ↦ h.version, h.canonical⟩
    · exact ⟨Or.inr (Or.inl h.state), fun _ ↦ h.packetId, fun hs ↦ absurd h.state hs,
        h.canonical⟩
    · exact absurd h.state hstate
  refine
    { queue := fun c hc ↦ hw.queue c (by simp [hq, hc])
      checkers := hw.checkers
      entries := fun c hc ↦ ?_
      workers := hw.workers
      keys := ?_
      copies := fun t ↦ ?_
      places := fun p ↦ ?_
      warnings := hw.warnings }
  · rcases List.mem_cons.1 hc with rfl | hc
    · exact hentry
    · exact hw.entries c hc
  · refine List.nodup_cons.2 ⟨?_, hw.keys⟩
    intro hmem
    obtain ⟨c, hc, ht⟩ := List.mem_map.1 hmem
    exact hnone c hc ht
  · have hcopies := hw.copies t
    have hzero : inFlight t new = 0 := if_neg fun h ↦ hstate h.1
    rw [hq, total_cons, hzero] at hcopies
    simp only [total_cons, hzero]
    omega
  · rw [← hw.places p]
    simp only [World.places, hq, total_cons]
    omega

/-- A connection that meets an entry, other than the return of its ACLs. -/
theorem fill (hw : Core.Inv w) {new packet : Connection} {queue l₁ l₂ : List Connection}
    {f : Filled} (hq : w.connectionsQueue = new :: queue)
    (hlist : w.connList = l₁ ++ packet :: l₂) (ht : packet.tracking = new.tracking)
    (hf : FilledWell new packet f) (hdecide : f.decide = false) (h : Sessions) :
    Core.Inv { w with
      sessions := h
      connectionsQueue := queue
      connList := l₁ ++ f.packet :: l₂
      aclCheckers := w.aclCheckers ++ f.checked.toList } := by
  obtain ⟨hentry, hstate⟩ := hf.entry hdecide
  refine
    { queue := fun c hc ↦ hw.queue c (by simp [hq, hc])
      checkers := fun c hc ↦ ?_
      entries := forall_mem_replace hlist hw.entries hentry
      workers := hw.workers
      keys := keys_replace (hlist ▸ hw.keys) hf.tracking
      copies := fun t ↦ ?_
      places := fun p ↦ ?_
      warnings := hw.warnings }
  · rcases List.mem_append.1 hc with hc | hc
    · exact hw.checkers c hc
    · exact (hf.checked c (Option.mem_toList.1 hc)).1
  · -- what the entry begins to wait for is handed to the checkers
    have hcopies := hw.copies t
    have hzero : inFlight t new = 0 := if_neg fun h ↦ hstate h.1
    have hone := hf.copies hdecide t ht.symm
    rw [hq, hlist] at hcopies
    simp only [total_append, total_cons, hzero] at hcopies ⊢
    omega
  · rw [← hw.places p]
    have hheld := hf.held p
    simp only [World.places, hq, hlist, total_append, total_cons]
    omega

/-- The return of the ACLs, when the decision is handed to the workers. -/
theorem decideLater (hw : Core.Inv w) {new packet decided : Connection}
    {queue l₁ l₂ : List Connection} (hq : w.connectionsQueue = new :: queue)
    (hlist : w.connList = l₁ ++ packet :: l₂) (ht : packet.tracking = new.tracking)
    (hn : new.state = .completing) (hp : packet.state = .completing)
    (hdecided : DecidedConn decided) (hheld : ∀ p, held p decided = held p packet)
    (h : Sessions) :
    Core.Inv { w with
      sessions := h
      connectionsQueue := queue
      connList := l₁ ++ l₂
      decisionsWorkers := w.decisionsWorkers ++ [decided] } := by
  refine
    { queue := fun c hc ↦ hw.queue c (by simp [hq, hc])
      checkers := hw.checkers
      entries := fun c hc ↦ hw.entries c (mem_of_split hlist hc)
      workers := fun c hc ↦ ?_
      keys := keys_remove (hlist ▸ hw.keys)
      copies := fun t ↦ ?_
      places := fun p ↦ ?_
      warnings := hw.warnings }
  · rcases List.mem_append.1 hc with hc | hc
    · exact hw.workers c hc
    · exact List.mem_singleton.1 hc ▸ hdecided
  · -- the copy and its entry go together
    have hcopies := hw.copies t
    have hsame : inFlight t packet = inFlight t new := by simp [inFlight, hn, hp, ht]
    rw [hq, hlist] at hcopies
    simp only [total_append, total_cons] at hcopies ⊢
    omega
  · rw [← hw.places p]
    have hnew := ((hw.queue new (by simp [hq])).copyConn hn).packetId
    have hzero : held p new = 0 := by simp [held, hnew]
    have hsame := hheld p
    simp only [World.places, hq, hlist, total_append, total_cons, total_nil]
    omega

/-- The return of the ACLs, when the identifiers are answered at once. -/
theorem decideNow (hw : Core.Inv w) {new packet : Connection} {queue l₁ l₂ : List Connection}
    {answers : List Answer} (hq : w.connectionsQueue = new :: queue)
    (hlist : w.connList = l₁ ++ packet :: l₂) (ht : packet.tracking = new.tracking)
    (hn : new.state = .completing) (hp : packet.state = .completing)
    (hanswers : answers.map Answer.packetId = packet.packetId) (h : Sessions) :
    Core.Inv { w with
      sessions := h
      connectionsQueue := queue
      connList := l₁ ++ l₂
      answers := w.answers ++ answers } := by
  refine
    { queue := fun c hc ↦ hw.queue c (by simp [hq, hc])
      checkers := hw.checkers
      entries := fun c hc ↦ hw.entries c (mem_of_split hlist hc)
      workers := hw.workers
      keys := keys_remove (hlist ▸ hw.keys)
      copies := fun t ↦ ?_
      places := fun p ↦ ?_
      warnings := hw.warnings }
  · -- the copy and its entry go together
    have hcopies := hw.copies t
    have hsame : inFlight t packet = inFlight t new := by simp [inFlight, hn, hp, ht]
    rw [hq, hlist] at hcopies
    simp only [total_append, total_cons] at hcopies ⊢
    omega
  · rw [← hw.places p]
    have hnew := ((hw.queue new (by simp [hq])).copyConn hn).packetId
    have hzero : held p new = 0 := by simp [held, hnew]
    have hpacket : held p packet = packet.packetId.count p := rfl
    simp only [World.places, hq, hlist, total_append, total_cons, List.map_append,
      List.count_append, hanswers]
    omega

/-- The world is only different in what the users are told. -/
theorem of_tlsPushQueue (hw : Core.Inv w) (q : List (Tracking × IfaceNfo)) :
    Core.Inv { w with tlsPushQueue := q } :=
  ⟨hw.queue, hw.checkers, hw.entries, hw.workers, hw.keys, hw.copies, hw.places, hw.warnings⟩

end Core.Inv

section

variable {w : World} (host : Host) {new : Connection} {queue : List Connection}

/-- **One iteration of `search_and_fill`** keeps the invariant. -/
theorem Core.Inv.searched {w' : World} (hw : Core.Inv w) (hq : w.connectionsQueue = new :: queue)
    (h : Searched host w new queue w') : Core.Inv w' := by
  cases h with
  | insert hnone q => exact (hw.insert hq hnone).of_tlsPushQueue q
  | fill packet l₁ l₂ f hfind hlist ht hf hwell hdecide =>
    exact hw.fill hq hlist ht hwell hdecide f.sessions
  | later packet decided l₁ l₂ hlist ht hn hp hdecided hid =>
    exact hw.decideLater hq hlist ht hn hp hdecided (fun p ↦ by rw [held, held, hid]) w.sessions
  | now packet l₁ l₂ h answers hlist ht hn hp hanswers =>
    exact hw.decideNow hq hlist ht hn hp hanswers h

end

/-! ### Cleaning -/

theorem Core.Inv.clean {w : World} (hw : Core.Inv w) (conf : Params) (host : Host) (log : Logger)
    (clock : Connection → Int) : Core.Inv (w.cleanConnectionsList conf host log clock) := by
  obtain ⟨old, rest, h, answers, heq, hperm, hstate, hcount, -⟩ :=
    hw.cleaned conf host log clock
  rw [heq]
  have hrest : ∀ c ∈ rest, c ∈ w.connList := fun c hc ↦
    hperm.mem_iff.2 (List.mem_append_right _ hc)
  refine
    { queue := hw.queue
      checkers := hw.checkers
      entries := fun c hc ↦ hw.entries c (hrest c hc)
      workers := hw.workers
      keys := ?_
      copies := fun t ↦ ?_
      places := fun p ↦ ?_
      warnings := hw.warnings }
  · have hkeys := (hperm.map Connection.tracking).nodup_iff.1 hw.keys
    rw [List.map_append] at hkeys
    exact hkeys.of_append_right
  · have hzero : total (inFlight t) old = 0 :=
      total_eq_zero fun c hc ↦ if_neg fun hc' ↦ hstate c hc hc'.1
    have hcopies := hw.copies t
    rw [total_perm _ hperm, total_append, hzero] at hcopies
    simpa using hcopies
  · rw [← hw.places p]
    have hold := hcount p
    simp only [World.places, List.map_append, List.count_append, total_perm _ hperm, total_append]
    omega

/-! ### The other events -/

namespace Core.Inv

variable {w : World}

theorem pushAuthreq (hw : Core.Inv w) {conn : Connection} (hconn : AuthreqConn conn)
    (hfresh : ∀ p ∈ conn.packetId, p ∉ w.received) :
    Core.Inv { w with
      connectionsQueue := w.connectionsQueue ++ [conn]
      received := conn.packetId ++ w.received } := by
  obtain ⟨q, hq⟩ := hconn.packetId
  refine
    { queue := fun c hc ↦ ?_
      checkers := hw.checkers
      entries := hw.entries
      workers := hw.workers
      keys := hw.keys
      copies := fun t ↦ ?_
      places := fun p ↦ ?_
      warnings := hw.warnings }
  · rcases List.mem_append.1 hc with hc | hc
    · exact hw.queue c hc
    · rw [List.mem_singleton.1 hc]
      exact Or.inl hconn
  · have hzero : inFlight t conn = 0 := if_neg fun h ↦ by simp [hconn.state] at h
    rw [total_append, total_cons, total_nil, hzero]
    exact hw.copies t
  · have hplaces := hw.places p
    have hnew : q ∉ w.received := hfresh q (by simp [hq])
    simp only [World.places, total_append, total_cons, total_nil, held, hq, List.mem_append,
      List.mem_singleton] at hplaces ⊢
    by_cases hpq : p = q
    · -- the identifier is new, so that it was nowhere
      subst hpq
      rw [if_neg hnew] at hplaces
      simp only [true_or, if_true, List.count_singleton_self]
      omega
    · rw [List.count_singleton, if_neg (by simpa using fun h ↦ hpq h.symm)]
      simp only [hpq, false_or]
      omega

theorem pushUserpckt (hw : Core.Inv w) {conn : Connection} (hconn : UserpcktConn conn) :
    Core.Inv { w with connectionsQueue := w.connectionsQueue ++ [conn] } := by
  refine
    { queue := fun c hc ↦ ?_
      checkers := hw.checkers
      entries := hw.entries
      workers := hw.workers
      keys := hw.keys
      copies := fun t ↦ ?_
      places := fun p ↦ ?_
      warnings := hw.warnings }
  · rcases List.mem_append.1 hc with hc | hc
    · exact hw.queue c hc
    · rw [List.mem_singleton.1 hc]
      exact Or.inr (Or.inl hconn)
  · have hzero : inFlight t conn = 0 := if_neg fun h ↦ by simp [hconn.state] at h
    rw [total_append, total_cons, total_nil, hzero]
    exact hw.copies t
  · rw [← hw.places p]
    simp [World.places, held, hconn.packetId]

/-- A copy comes back from the ACL checkers. -/
theorem aclCheckAndDecide (hw : Core.Inv w) (conf : Params) (acls : List (Option AclGroup)) {i : ℕ}
    {element : Connection} (hi : w.aclCheckers[i]? = some element) :
    Core.Inv ({ w with aclCheckers := w.aclCheckers.eraseIdx i }.aclCheckAndDecide conf acls
      element) := by
  obtain ⟨l₁, l₂, hlist, herase⟩ := exists_split_of_getElem? hi
  have helement := hw.checkers element (by simp [hlist])
  rw [World.aclCheckAndDecide, if_pos helement.state, herase]
  refine
    { queue := fun c hc ↦ ?_
      checkers := fun c hc ↦ hw.checkers c (mem_of_split hlist hc)
      entries := hw.entries
      workers := hw.workers
      keys := hw.keys
      copies := fun t ↦ ?_
      places := fun p ↦ ?_
      warnings := hw.warnings }
  · rcases List.mem_append.1 hc with hc | hc
    · exact hw.queue c hc
    · rw [List.mem_singleton.1 hc]
      exact Or.inr (Or.inr ⟨helement.state, helement.packetId, helement.canonical⟩)
  · have hcopies := hw.copies t
    have hsame : inFlight t { element with aclGroups := acls } = inFlight t element := rfl
    rw [hlist] at hcopies
    simp only [total_append, total_cons, total_nil, hsame] at hcopies ⊢
    omega
  · rw [← hw.places p]
    simp [World.places, held, helement.packetId]

/-- A worker applies a decision. -/
theorem decisionsQueueWork (hw : Core.Inv w) (conf : Params) (host : Host) (log : Logger) {i : ℕ}
    {element : Connection} (hi : w.decisionsWorkers[i]? = some element) :
    Core.Inv ({ w with decisionsWorkers := w.decisionsWorkers.eraseIdx i }.decisionsQueueWork conf
      host log element) := by
  obtain ⟨l₁, l₂, hlist, herase⟩ := exists_split_of_getElem? hi
  have helement := hw.workers element (by simp [hlist])
  obtain ⟨h, answers, happly, hid, -⟩ := World.applyDecision_eq conf host log
    (by simp [helement.state]) helement.version
    { w with decisionsWorkers := w.decisionsWorkers.eraseIdx i }
  rw [World.decisionsQueueWork, happly, herase]
  refine
    { queue := hw.queue
      checkers := hw.checkers
      entries := hw.entries
      workers := fun c hc ↦ hw.workers c (mem_of_split hlist hc)
      keys := hw.keys
      copies := hw.copies
      places := fun p ↦ ?_
      warnings := hw.warnings }
  rw [← hw.places p]
  have hheld : held p element = element.packetId.count p := rfl
  simp only [World.places, hlist, total_append, total_cons, List.map_append, List.count_append,
    hid]
  omega

/-- **Every event keeps the invariant.** -/
theorem step (hw : Core.Inv w) (conf : Params) (host : Host) {e : Event} (he : w.enabled e) :
    Core.Inv (w.step conf host e) := by
  cases e with
  | pushAuthreq conn => exact hw.pushAuthreq he.1 he.2
  | pushUserpckt conn => exact hw.pushUserpckt he
  | searchAndFill log now =>
    rw [World.step]
    cases hq : w.connectionsQueue with
    | nil => exact absurd hq he
    | cons new queue => exact hw.searched host hq (searched_of_inv conf host log now hw hq)
  | aclCheckAndDecide i acls =>
    rw [World.step]
    cases hi : w.aclCheckers[i]? with
    | none => exact absurd (List.getElem?_eq_none_iff.1 hi) (Nat.not_le.2 he)
    | some element => exact hw.aclCheckAndDecide conf acls hi
  | cleanConnectionsList log clock => exact hw.clean conf host log clock
  | decisionsQueueWork i log =>
    rw [World.step]
    cases hi : w.decisionsWorkers[i]? with
    | none => exact absurd (List.getElem?_eq_none_iff.1 hi) (Nat.not_le.2 he)
    | some element => exact hw.decisionsQueueWork conf host log hi
  | sessions h =>
    exact ⟨hw.queue, hw.checkers, hw.entries, hw.workers, hw.keys, hw.copies, hw.places,
      hw.warnings⟩

end Core.Inv

theorem Core.Inv.start (h : Sessions) : Core.Inv (World.start h) where
  queue c hc := by cases hc
  checkers c hc := by cases hc
  entries c hc := by cases hc
  workers c hc := by cases hc
  keys := List.nodup_nil
  copies _ := rfl
  places p := by simp [World.places, World.start]
  warnings := rfl

/-- **The invariant holds in every reachable state**, whatever else the runs satisfy. -/
theorem Core.Inv.of_reach {conf : Params} {host : Host} {ok : World → Event → Prop} {w : World}
    (h : (core conf host).Reach ok w) : Core.Inv w := by
  refine h.invariant ?_ ?_
  · rintro w ⟨h, rfl⟩
    exact Core.Inv.start h
  · intro w e hw he _
    exact hw.step conf host he

/-! ### The result -/

theorem total_inFlight_eq_countP {l : List Connection} {t : Tracking}
    (hl : ∀ c ∈ l, c.tracking.Canonical) (ht : t.Canonical) :
    l.countP (fun c ↦ c.state = .completing ∧ trackingEqual c.tracking t) =
      total (inFlight t) l := by
  rw [countP_eq_total]
  refine total_congr fun c hc ↦ ?_
  simp only [inFlight, trackingEqual_iff (hl c hc) ht, decide_eq_true_eq]

/-- Among connections with different trackings, at most one has a given one. -/
theorem total_inFlight_of_mem {l : List Connection} {c : Connection}
    (h : (l.map Connection.tracking).Nodup) (hc : c ∈ l) (hs : c.state = .completing) :
    total (inFlight c.tracking) l = 1 := by
  obtain ⟨l₁, l₂, rfl⟩ := List.append_of_mem hc
  have hzero : total (inFlight c.tracking) (l₁ ++ l₂) = 0 := by
    refine total_eq_zero fun d hd ↦ if_neg fun hcond ↦ ?_
    have hperm : (l₁ ++ c :: l₂).Perm (c :: (l₁ ++ l₂)) := List.perm_middle
    have hnot := (List.nodup_cons.1 ((hperm.map Connection.tracking).nodup_iff.1 h)).1
    exact hnot (List.mem_map.2 ⟨d, hd, hcond.2⟩)
  rw [total_split rfl, hzero]
  simp [inFlight, hs]

/-- **No request is lost or answered twice.** In every reachable state, each packet identifier
received so far is in exactly one place; the entries of the hash are in one of three states, those
in state COMPLETING being in correspondence with the copies on their way; and nothing that should
not happen has been logged. -/
theorem no_request_lost_or_answered_twice {conf : Params} {host : Host} {w : World}
    (h : (core conf host).Reachable w) :
    (∀ p ∈ w.received, w.places p = 1) ∧
    (∀ c ∈ w.connList, c.state = .authreq ∨ c.state = .userpckt ∨ c.state = .completing) ∧
    (∀ c ∈ w.connList, c.state = .completing →
      (w.aclCheckers ++ w.connectionsQueue).countP
        (fun d ↦ d.state = .completing ∧ trackingEqual d.tracking c.tracking) = 1) ∧
    (∀ d ∈ w.aclCheckers ++ w.connectionsQueue, d.state = .completing →
      w.connList.countP
        (fun c ↦ c.state = .completing ∧ trackingEqual c.tracking d.tracking) = 1) ∧
    w.warnings = [] := by
  have hw : Core.Inv w := Core.Inv.of_reach h
  have hcanon : ∀ d ∈ w.aclCheckers ++ w.connectionsQueue, d.tracking.Canonical := by
    intro d hd
    rcases List.mem_append.1 hd with hd | hd
    · exact (hw.checkers d hd).canonical
    · exact (hw.queue d hd).canonical
  have hcanon' : ∀ c ∈ w.connList, c.tracking.Canonical := fun c hc ↦ (hw.entries c hc).canonical
  refine ⟨fun p hp ↦ ?_, fun c hc ↦ (hw.entries c hc).state, fun c hc hs ↦ ?_,
    fun d hd hs ↦ ?_, hw.warnings⟩
  · rw [hw.places p, if_pos hp]
  · rw [total_inFlight_eq_countP hcanon (hcanon' c hc), total_append, ← hw.copies,
      total_inFlight_of_mem hw.keys hc hs]
  · obtain ⟨c, hc, hcs, hct⟩ := hw.exists_entry (List.mem_append.1 hd) hs
    rw [total_inFlight_eq_countP hcanon' (hcanon d hd), ← hct, total_inFlight_of_mem hw.keys hc hcs]

/-- A TCP tracking between two addresses of the local network. -/
def Tracking.sample : Tracking where
  saddr := clientAddr
  daddr := serverAddr
  protocol := ipprotoTcp
  padding := 0
  dest := 22
  source := 40000
  type := 0
  code := 0

theorem Tracking.sample_canonical : Tracking.sample.Canonical where
  protocol_mem := Or.inl rfl
  padding_eq := rfl
  type_code_eq _ := ⟨rfl, rfl⟩
  ports_eq h := by
    rcases h with h | h <;> simp [sample, ipprotoTcp, ipprotoIcmp, ipprotoIcmpv6] at h

/-- A request for that connection, announced by a session in its protocol. -/
def Connection.request (id : UInt32) (session : SessionId) (version : ℕ) : Connection :=
  { Connection.zero with
    packetId := [⟨id, some session⟩]
    tls := some session
    tracking := Tracking.sample
    state := .authreq
    nufwVersion := version }

theorem Connection.request_authreqConn (id : UInt32) (session : SessionId) {version : ℕ}
    (hv : KnownVersion version) : AuthreqConn (Connection.request id session version) :=
  ⟨rfl, ⟨_, rfl⟩, Tracking.sample_canonical, hv⟩

/-- A packet of the user of that connection. -/
def Connection.userPacket (user : UInt32) : Connection :=
  { Connection.zero with userId := user, tracking := Tracking.sample, state := .userpckt }

theorem Connection.userPacket_userpcktConn (user : UInt32) :
    UserpcktConn (Connection.userPacket user) :=
  ⟨rfl, rfl, Tracking.sample_canonical⟩

/-- A host and a logger, for concrete runs. -/
def Host.sample : Host := ⟨.little, fun _ ↦ 0⟩

/-- A logger that always succeeds. -/
def Logger.sample : Logger := ⟨false, fun _ _ ↦ .ok⟩

/-- Both halves of a connection have met: its identifier is in one place, and its entry has one
copy on its way. -/
theorem request_completing_once :
    let w := (core Params.default Host.sample).run (World.start fun _ ↦ NufwSession.new)
      [.pushAuthreq (Connection.request 1 0 6), .pushUserpckt (Connection.userPacket 7),
        .searchAndFill Logger.sample 0, .searchAndFill Logger.sample 0]
    w.places ⟨1, some 0⟩ = 1 ∧ ∀ c ∈ w.connList, c.state = .completing →
      (w.aclCheckers ++ w.connectionsQueue).countP
        (fun d ↦ d.state = .completing ∧ trackingEqual d.tracking c.tracking) = 1 := by
  intro w
  have hpath : (core Params.default Host.sample).Path (fun _ _ ↦ True)
      (World.start fun _ ↦ NufwSession.new)
      [.pushAuthreq (Connection.request 1 0 6), .pushUserpckt (Connection.userPacket 7),
        .searchAndFill Logger.sample 0, .searchAndFill Logger.sample 0] := by
    refine ⟨⟨Connection.request_authreqConn 1 0 (by decide), by simp [World.start]⟩, trivial,
      Connection.userPacket_userpcktConn 7, trivial, ?_, trivial, ?_, trivial, trivial⟩
    · exact List.cons_ne_nil _ _
    · exact List.cons_ne_nil _ _
  have hresult := no_request_lost_or_answered_twice
    ((core Params.default Host.sample).reach_run ⟨_, rfl⟩ _ hpath)
  exact ⟨hresult.1 _ List.mem_cons_self, hresult.2.2.1⟩

end Nufw
