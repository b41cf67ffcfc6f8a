import Mathlib.Data.List.Nodup
import Nufw.Nuauth.Core
import Nufw.Nuauth.Verdict

/-!
# What the steps of the core do

The invariant of the core, and under it what one step can do.

A packet identifier is *held* by the connections that carry it and, once answered, by the answer.
`World.places` counts its holders over the queues, the hash, the decision workers and the answers;
the invariant `Core.Inv` says that this is one for every identifier received so far and zero for
all others, and carries along what makes it hold at every step:

* connections are in the states their place allows, and copies on their way through the ACL
  checkers carry no identifier;
* the trackings in the hash are different;
* for every tracking there are as many entries in state COMPLETING in the hash as there are copies
  on their way. So a copy that comes back finds its entry, in the right state, and the cleaner,
  which spares that state, has not removed it.

`searched_of_inv` and `Core.Inv.cleaned` then say once what an iteration of `search_and_fill` and a
run of the cleaner do; every invariant of the core is a case analysis over them.
-/

namespace Nufw

/-! ### Counting -/

/-- How often a connection holds an identifier. -/
def held (p : PacketId) (c : Connection) : ℕ := c.packetId.count p

/-- One for a connection with this tracking in state COMPLETING. -/
def inFlight (t : Tracking) (c : Connection) : ℕ :=
  if c.state = .completing ∧ c.tracking = t then 1 else 0

/-- The number of places where an identifier is: connections that wait, entries of the hash,
decisions to be applied, and answers. -/
def World.places (p : PacketId) (w : World) : ℕ :=
  total (held p) w.connectionsQueue + total (held p) w.connList +
    total (held p) w.decisionsWorkers + (w.answers.map Answer.packetId).count p

/-! ### Where a connection can be -/

/-- A copy on its way through the ACL checkers. -/
structure CopyConn (c : Connection) : Prop where
  state : c.state = .completing
  packetId : c.packetId = []
  canonical : c.tracking.Canonical

/-- A connection in `connections_queue`. -/
def QueueConn (c : Connection) : Prop := AuthreqConn c ∨ UserpcktConn c ∨ CopyConn c

/-- An entry of `conn_list`. -/
structure EntryConn (c : Connection) : Prop where
  state : c.state = .authreq ∨ c.state = .userpckt ∨ c.state = .completing
  packetId : c.state = .userpckt → c.packetId = []
  version : c.state ≠ .userpckt → KnownVersion c.nufwVersion
  canonical : c.tracking.Canonical

/-- A connection whose decision is to be applied. -/
structure DecidedConn (c : Connection) : Prop where
  state : c.state = .ready
  version : KnownVersion c.nufwVersion

/-- **The invariant of the core.** -/
structure Core.Inv (w : World) : Prop where
  queue : ∀ c ∈ w.connectionsQueue, QueueConn c
  checkers : ∀ c ∈ w.aclCheckers, CopyConn c
  entries : ∀ c ∈ w.connList, EntryConn c
  workers : ∀ c ∈ w.decisionsWorkers, DecidedConn c
  /-- The trackings of the hash are different. -/
  keys : (w.connList.map Connection.tracking).Nodup
  /-- Every entry in state COMPLETING has one copy on its way, and conversely. -/
  copies : ∀ t, total (inFlight t) w.connList =
    total (inFlight t) w.aclCheckers + total (inFlight t) w.connectionsQueue
  /-- Every identifier received is in one place. -/
  places : ∀ p, w.places p = if p ∈ w.received then 1 else 0
  warnings : w.warnings = []

theorem QueueConn.canonical {c : Connection} (h : QueueConn c) : c.tracking.Canonical := by
  rcases h with h | h | h
  · exact h.canonical
  · exact h.canonical
  · exact h.canonical

theorem QueueConn.state {c : Connection} (h : QueueConn c) :
    c.state = .authreq ∨ c.state = .userpckt ∨ c.state = .completing := by
  rcases h with h | h | h
  · exact Or.inl h.state
  · exact Or.inr (Or.inl h.state)
  · exact Or.inr (Or.inr h.state)

theorem QueueConn.copyConn {c : Connection} (h : QueueConn c) (hs : c.state = .completing) :
    CopyConn c := by
  rcases h with h | h | h
  · exact absurd (h.state.symm.trans hs) (by simp)
  · exact absurd (h.state.symm.trans hs) (by simp)
  · exact h

theorem QueueConn.authreqConn {c : Connection} (h : QueueConn c) (hs : c.state = .authreq) :
    AuthreqConn c := by
  rcases h with h | h | h
  · exact h
  · exact absurd (h.state.symm.trans hs) (by simp)
  · exact absurd (h.state.symm.trans hs) (by simp)

theorem QueueConn.userpcktConn {c : Connection} (h : QueueConn c) (hs : c.state = .userpckt) :
    UserpcktConn c := by
  rcases h with h | h | h
  · exact absurd (h.state.symm.trans hs) (by simp)
  · exact h
  · exact absurd (h.state.symm.trans hs) (by simp)

/-! ### Filling an entry -/

/-- What `search_and_fill_update` leaves of a pair it is made for: either the entry is ready for a
decision, or the entry holds the identifiers of both, and the entry is in state COMPLETING as often
as before or as a copy has just been handed out. -/
structure FilledWell (new packet : Connection) (f : Filled) : Prop where
  answers : f.answers = []
  warnings : f.warnings = []
  tracking : f.packet.tracking = packet.tracking
  held : ∀ p, held p f.packet = held p packet + held p new
  /-- The return of the ACLs. -/
  ready : f.decide = true → new.state = .completing ∧ packet.state = .completing ∧
    f.packet.state = .ready ∧ KnownVersion f.packet.nufwVersion ∧ f.checked = none
  entry : f.decide = false → EntryConn f.packet ∧ new.state ≠ .completing
  checked : ∀ c ∈ f.checked, CopyConn c ∧ c.tracking = new.tracking
  copies : f.decide = false → ∀ t, new.tracking = packet.tracking →
    inFlight t f.packet = inFlight t packet + total (inFlight t) f.checked.toList

theorem filledWell_keep {h : Sessions} {new packet : Connection} (hpacket : EntryConn packet)
    (hnew : UserpcktConn new) : FilledWell new packet (Filled.keep h packet) where
  answers := rfl
  warnings := rfl
  tracking := rfl
  held p := by simp [Filled.keep, held, hnew.packetId]
  ready h := by cases h
  entry _ := ⟨hpacket, by simp [hnew.state]⟩
  checked c hc := by cases hc
  copies _ t _ := rfl

theorem filledWell_prepend {h : Sessions} {new packet packet' : Connection}
    (hpacket : EntryConn packet) (hnew : AuthreqConn new) (hs : packet.state ≠ .userpckt)
    (htls : ∃ tls, packet' = { packet with tls }) :
    FilledWell new packet (Filled.keep h (prependPacketId new packet')) := by
  obtain ⟨tls, rfl⟩ := htls
  obtain ⟨p, hp⟩ := hnew.packetId
  refine
    { answers := rfl
      warnings := rfl
      tracking := rfl
      held := fun q ↦ ?_
      ready := fun h ↦ by cases h
      entry := fun _ ↦ ⟨⟨hpacket.state, fun h ↦ absurd h hs, hpacket.version,
        hpacket.canonical⟩, by simp [hnew.state]⟩
      checked := fun c hc ↦ by cases hc
      copies := fun _ t _ ↦ rfl }
  simp only [Filled.keep, prependPacketId, held, hp, List.head?_cons, Option.toList_some,
    List.count_append]
  omega

/-- `search_and_fill_update` on the pairs that can meet. -/
theorem filledWell_searchAndFillUpdate (host : Host) (h : Sessions) {new packet : Connection}
    (hnew : QueueConn new) (hpacket : EntryConn packet)
    (hcopy : new.state = .completing → packet.state = .completing) :
    FilledWell new packet (searchAndFillUpdate host h new packet) := by
  rcases hpacket.state with hp | hp | hp
  · -- an entry that waits for its user
    rcases hnew.state with hn | hn | hn
    · rw [searchAndFillUpdate_authreq_authreq host h hp hn]
      exact filledWell_prepend hpacket (hnew.authreqConn hn) (by simp [hp])
        ⟨new.tls, mergeNufwSession_snd h packet new⟩
    · rw [searchAndFillUpdate_authreq_userpckt host h hp hn]
      have hn' := hnew.userpcktConn hn
      exact
        { answers := rfl
          warnings := rfl
          tracking := rfl
          held := fun p ↦ by simp [completedByUser, held, hn'.packetId]
          ready := fun h ↦ by cases h
          entry := fun _ ↦ ⟨⟨Or.inr (Or.inr rfl), fun h ↦ (by cases h),
            fun _ ↦ hpacket.version (by simp [hp]), hpacket.canonical⟩, by simp [hn]⟩
          checked := fun c hc ↦ by
            obtain rfl := Option.some.inj hc
            exact ⟨⟨rfl, hn'.packetId, hn'.canonical⟩, rfl⟩
          copies := fun _ t ht ↦ by simp [completedByUser, copyOfUser, inFlight, hp, ht] }
    · exact absurd (hcopy hn) (by simp [hp])
  · -- an entry that waits for its gateway
    rcases hnew.state with hn | hn | hn
    · rw [searchAndFillUpdate_userpckt_authreq host h hp hn]
      have hn' := hnew.authreqConn hn
      exact
        { answers := rfl
          warnings := rfl
          tracking := rfl
          held := fun p ↦ by simp [completedByGateway, held, hpacket.packetId hp]
          ready := fun h ↦ by cases h
          entry := fun _ ↦ ⟨⟨Or.inr (Or.inr rfl), fun h ↦ (by cases h), fun _ ↦ hn'.version,
            hpacket.canonical⟩, by simp [hn]⟩
          checked := fun c hc ↦ by
            obtain rfl := Option.some.inj hc
            exact ⟨⟨rfl, rfl, hn'.canonical⟩, rfl⟩
          copies := fun _ t ht ↦ by simp [completedByGateway, copyOfGateway, inFlight, hp, ht] }
    · rw [searchAndFillUpdate_userpckt host h (Or.inl hp) hn]
      exact filledWell_keep hpacket (hnew.userpcktConn hn)
    · exact absurd (hcopy hn) (by simp [hp])
  · -- an entry whose ACLs are being looked up
    rcases hnew.state with hn | hn | hn
    · rw [searchAndFillUpdate_decided_authreq host h (Or.inl hp) hn]
      exact filledWell_prepend hpacket (hnew.authreqConn hn) (by simp [hp]) ⟨packet.tls, rfl⟩
    · rw [searchAndFillUpdate_userpckt host h (Or.inr (Or.inl hp)) hn]
      exact filledWell_keep hpacket (hnew.userpcktConn hn)
    · rw [searchAndFillUpdate_completing_completing host h hp hn]
      exact
        { answers := rfl
          warnings := rfl
          tracking := rfl
          held := fun p ↦ by simp [held, (hnew.copyConn hn).packetId]
          ready := fun _ ↦ ⟨hn, hp, rfl, hpacket.version (by simp [hp]), rfl⟩
          entry := fun h ↦ by cases h
          checked := fun c hc ↦ by cases hc
          copies := fun h ↦ by cases h }

/-! ### The functions of the core -/

section

variable (conf : Params) (host : Host) (log : Logger)

/-- `apply_decision` answers every identifier of the connection, on its session and in its
protocol. -/
theorem World.applyDecision_eq {element : Connection} (hs : element.state ≠ .userpckt)
    (hv : KnownVersion element.nufwVersion) (w : World) :
    ∃ h answers, w.applyDecision conf host log element =
        { w with sessions := h, answers := w.answers ++ answers } ∧
      answers.map Answer.packetId = element.packetId ∧
      ∀ a ∈ answers, a.For element := by
  unfold World.applyDecision Nufw.applyDecision
  rw [if_neg hs]
  dsimp only
  generalize logUserPacket conf log element _ = ret
  -- dropping for lack of a log changes the decision only
  have hdrop : ∀ e : Connection, e.packetId = element.packetId → e.tls = element.tls →
      e.nufwVersion = element.nufwVersion →
      (sendAuthResponses host e e.packetId w.sessions).2.map Answer.packetId = element.packetId ∧
        ∀ a ∈ (sendAuthResponses host e e.packetId w.sessions).2, a.For element := by
    intro e hp ht hn
    refine ⟨by rw [map_packetId_sendAuthResponses (by rwa [hn]), hp], fun a ha ↦ ?_⟩
    have hfor := mem_sendAuthResponses ha
    rwa [Answer.For, ht, hn] at hfor
  refine ⟨_, _, by rw [List.append_nil], ?_⟩
  split_ifs
  · exact hdrop _ rfl rfl rfl
  · exact hdrop _ rfl rfl rfl

theorem World.connClRemove_split {w : World} {element packet : Connection}
    {l₁ l₂ : List Connection} (hlist : w.connList = l₁ ++ packet :: l₂)
    (hkey : hasKey host.order element.tracking packet = true)
    (hnot : ∀ c ∈ l₁, hasKey host.order element.tracking c = false) :
    w.connClRemove host element = (true, { w with connList := l₁ ++ l₂ }) := by
  have hany : w.connList.any (hasKey host.order element.tracking) = true :=
    List.any_eq_true.2 ⟨packet, by simp [hlist], hkey⟩
  rw [World.connClRemove, if_pos hany, hlist, eraseP_split hnot hkey]

/-- What identifies a request is not changed by its decision. -/
theorem decidedElement_request (now : Int) (element : Connection) :
    (decidedElement conf now element).packetId = element.packetId ∧
      (decidedElement conf now element).tracking = element.tracking ∧
      (decidedElement conf now element).state = element.state ∧
      (decidedElement conf now element).tls = element.tls ∧
      (decidedElement conf now element).nufwVersion = element.nufwVersion := by
  obtain ⟨logPrefix, flags, decision, expire, mark, h⟩ := decidedElement_eq conf now element
  rw [h]
  exact ⟨rfl, rfl, rfl, rfl, rfl⟩

/-- `take_decision` takes its entry out of the hash, and either hands it to the workers or answers
its identifiers. -/
theorem World.takeDecision_eq (now : Int) (element : Connection) {w : World}
    {packet : Connection} {l₁ l₂ : List Connection} (hlist : w.connList = l₁ ++ packet :: l₂)
    (hkey : hasKey host.order element.tracking packet = true)
    (hnot : ∀ c ∈ l₁, hasKey host.order element.tracking c = false)
    (hs : element.state ≠ .userpckt) (hv : KnownVersion element.nufwVersion) :
    w.takeDecision conf host log now .inHash element =
        { w with
          connList := l₁ ++ l₂
          decisionsWorkers := w.decisionsWorkers ++ [decidedElement conf now element] } ∨
    ∃ h answers, w.takeDecision conf host log now .inHash element =
        { w with sessions := h, connList := l₁ ++ l₂, answers := w.answers ++ answers } ∧
      answers.map Answer.packetId = element.packetId ∧
      ∀ a ∈ answers, a.For element := by
  obtain ⟨hp, ht, hst, htls, hn⟩ := decidedElement_request conf now element
  rw [← ht] at hkey hnot
  rw [World.takeDecision]
  generalize decidedElement conf now element = decided at *
  dsimp only
  rw [if_pos rfl, if_pos rfl]
  by_cases hsync : conf.logUsersSync = true
  · left
    rw [if_pos hsync, World.connClRemove_split host hlist hkey hnot]
  · right
    rw [if_neg hsync]
    have hstate : decided.state ≠ .userpckt := by rwa [hst]
    obtain ⟨h, answers, happly, hanswers⟩ :=
      World.applyDecision_eq conf host log hstate (by rwa [hn]) w
    have hremove := World.connClRemove_split host
      (w := { w with sessions := h, answers := w.answers ++ answers }) hlist hkey hnot
    refine ⟨h, answers, ?_, hanswers.1.trans hp, fun a ha ↦ ?_⟩
    · rw [happly, hremove]
      rfl
    · have hfor := hanswers.2 a ha
      rwa [Answer.For, htls, hn] at hfor

end

/-! ### One iteration of `search_and_fill` -/

namespace Core.Inv

variable {w : World}

theorem eq_of_tracking (hw : Core.Inv w) {c c' : Connection} (hc : c ∈ w.connList)
    (hc' : c' ∈ w.connList) (h : c.tracking = c'.tracking) : c = c' :=
  List.inj_on_of_nodup_map hw.keys hc hc' h

/-- A copy on its way has its entry. -/
theorem exists_entry (hw : Core.Inv w) {c : Connection}
    (hc : c ∈ w.aclCheckers ∨ c ∈ w.connectionsQueue) (hs : c.state = .completing) :
    ∃ e ∈ w.connList, e.state = .completing ∧ e.tracking = c.tracking := by
  have hone : inFlight c.tracking c = 1 := by simp [inFlight, hs]
  have hpos : total (inFlight c.tracking) w.connList ≠ 0 := by
    rw [hw.copies]
    rcases hc with hc | hc
    · have := apply_le_total (f := inFlight c.tracking) hc
      omega
    · have := apply_le_total (f := inFlight c.tracking) hc
      omega
  obtain ⟨e, he, hne⟩ := exists_of_total_ne_zero hpos
  have hcond : e.state = .completing ∧ e.tracking = c.tracking := by
    by_contra hcon
    exact hne (if_neg hcon)
  exact ⟨e, he, hcond⟩

/-- The entry a connection finds is the one with its tracking. -/
theorem tracking_of_hasKey (hw : Core.Inv w) {order : ByteOrder} {new c : Connection}
    (hnew : QueueConn new) (hc : c ∈ w.connList) :
    hasKey order new.tracking c = true ↔ c.tracking = new.tracking :=
  hasKey_iff (hw.entries c hc).canonical hnew.canonical

/-- Replacing an entry by one with the same tracking keeps the trackings different. -/
theorem keys_replace {l₁ l₂ : List Connection} {c c' : Connection}
    (h : ((l₁ ++ c :: l₂).map Connection.tracking).Nodup) (hc : c'.tracking = c.tracking) :
    ((l₁ ++ c' :: l₂).map Connection.tracking).Nodup := by
  simpa [hc] using h

theorem keys_remove {l₁ l₂ : List Connection} {c : Connection}
    (h : ((l₁ ++ c :: l₂).map Connection.tracking).Nodup) :
    ((l₁ ++ l₂).map Connection.tracking).Nodup := by
  refine h.sublist (List.Sublist.map _ ?_)
  exact List.Sublist.append (List.Sublist.refl _) (List.sublist_cons_self _ _)

end Core.Inv

/-- What one iteration of `search_and_fill` can do with the connection `new` taken out of the
queue. -/
inductive Searched (host : Host) (w : World) (new : Connection) (queue : List Connection) :
    World → Prop
  /-- No entry has its tracking: it becomes one. -/
  | insert (hnone : ∀ c ∈ w.connList, c.tracking ≠ new.tracking)
      (q : List (Tracking × IfaceNfo)) :
    Searched host w new queue
      { w with connectionsQueue := queue, connList := new :: w.connList, tlsPushQueue := q }
  /-- It completes the entry, or is folded into it. -/
  | fill (packet : Connection) (l₁ l₂ : List Connection) (f : Filled)
      (hfind : w.connList.find? (hasKey host.order new.tracking) = some packet)
      (hlist : w.connList = l₁ ++ packet :: l₂) (ht : packet.tracking = new.tracking)
      (hf : f = searchAndFillUpdate host w.sessions new packet) (hwell : FilledWell new packet f)
      (hdecide : f.decide = false) :
    Searched host w new queue
      { w with
        sessions := f.sessions
        connectionsQueue := queue
        connList := l₁ ++ f.packet :: l₂
        aclCheckers := w.aclCheckers ++ f.checked.toList }
  /-- It brings the ACLs, and the decision is handed to the workers. -/
  | later (packet decided : Connection) (l₁ l₂ : List Connection)
      (hlist : w.connList = l₁ ++ packet :: l₂) (ht : packet.tracking = new.tracking)
      (hn : new.state = .completing) (hp : packet.state = .completing)
      (hdecided : DecidedConn decided) (hid : decided.packetId = packet.packetId)
      (htls : decided.tls = packet.tls) (hversion : decided.nufwVersion = packet.nufwVersion) :
    Searched host w new queue
      { w with
        connectionsQueue := queue
        connList := l₁ ++ l₂
        decisionsWorkers := w.decisionsWorkers ++ [decided] }
  /-- It brings the ACLs, and the identifiers are answered at once. -/
  | now (packet : Connection) (l₁ l₂ : List Connection) (h : Sessions) (answers : List Answer)
      (hlist : w.connList = l₁ ++ packet :: l₂) (ht : packet.tracking = new.tracking)
      (hn : new.state = .completing) (hp : packet.state = .completing)
      (hanswers : answers.map Answer.packetId = packet.packetId)
      (hrouted : ∀ a ∈ answers, a.For packet) :
    Searched host w new queue
      { w with
        sessions := h
        connectionsQueue := queue
        connList := l₁ ++ l₂
        answers := w.answers ++ answers }

section

variable {w : World} (conf : Params) (host : Host) (log : Logger) (now : Int) {new : Connection}
  {queue : List Connection}

/-- The iteration does one of these. -/
theorem searched_of_inv (hw : Core.Inv w) (hq : w.connectionsQueue = new :: queue) :
    Searched host w new queue
      ({ w with connectionsQueue := queue }.searchAndFill conf host log now new) := by
  have hnew := hw.queue new (by simp [hq])
  rw [World.searchAndFill]
  dsimp only
  cases hfind : w.connList.find? (hasKey host.order new.tracking) with
  | none =>
    have hnone : ∀ c ∈ w.connList, c.tracking ≠ new.tracking := fun c hc ht ↦
      List.find?_eq_none.1 hfind c hc ((hw.tracking_of_hasKey hnew hc).2 ht)
    dsimp only
    split_ifs
    · exact .insert hnone _
    · exact .insert hnone w.tlsPushQueue
  | some packet =>
    obtain ⟨l₁, l₂, hlist, hkey, hnot⟩ := exists_split_of_find? hfind
    have hmem : packet ∈ w.connList := by simp [hlist]
    have ht := (hw.tracking_of_hasKey hnew hmem).1 hkey
    -- a copy that comes back still has its entry, and there is only one with its tracking
    have hcopy : new.state = .completing → packet.state = .completing := by
      intro hs
      obtain ⟨e, he, hes, het⟩ := hw.exists_entry (c := new) (Or.inr (by simp [hq])) hs
      rw [hw.eq_of_tracking hmem he (ht.trans het.symm), hes]
    have hwell := filledWell_searchAndFillUpdate host w.sessions hnew (hw.entries packet hmem) hcopy
    dsimp only
    rw [hlist, updateFirst_split hnot hkey, hwell.answers, hwell.warnings, List.append_nil,
      List.append_nil]
    cases hdecide : (searchAndFillUpdate host w.sessions new packet).decide with
    | false => exact .fill packet l₁ l₂ _ hfind hlist ht rfl hwell hdecide
    | true =>
      obtain ⟨hn, hp, -, -, -⟩ := hwell.ready hdecide
      have hversion := (hw.entries packet hmem).version (by simp [hp])
      rw [if_pos rfl, searchAndFillUpdate_completing_completing host w.sessions hp hn]
      dsimp only
      rw [Option.toList_none, List.append_nil]
      have hself : hasKey host.order packet.tracking packet = true :=
        (hasKey_iff (hw.entries packet hmem).canonical (hw.entries packet hmem).canonical).2 rfl
      have hnot' : ∀ c ∈ l₁, hasKey host.order packet.tracking c = false := by
        rw [ht]
        exact hnot
      -- the ACLs are there: the decision goes to a worker or is applied at once
      rcases World.takeDecision_eq conf host log now
        { packet with aclGroups := new.aclGroups, state := .ready }
        (w := { w with
          connectionsQueue := queue
          connList := l₁ ++ { packet with aclGroups := new.aclGroups, state := .ready } :: l₂ })
        rfl hself hnot' (by simp) hversion with hres | ⟨h, answers, hres, hanswers, hrouted⟩
      · rw [hres]
        obtain ⟨hid, -, hst, htls, hv⟩ := decidedElement_request conf now
          { packet with aclGroups := new.aclGroups, state := .ready }
        exact .later packet _ l₁ l₂ hlist ht hn hp ⟨hst, by rw [hv]; exact hversion⟩ hid htls hv
      · rw [hres]
        exact .now packet l₁ l₂ h answers hlist ht hn hp hanswers hrouted

end

/-! ### Cleaning -/

/-- The loop that takes the old connections out finds them all. -/
theorem stealOldConns_eq (order : ByteOrder) {keys : List Tracking} (hnodup : keys.Nodup) :
    ∀ {connList : List Connection} (acc : List Connection),
      (∀ c ∈ connList, c.tracking.Canonical) → (connList.map Connection.tracking).Nodup →
      (∀ k ∈ keys, k ∈ connList.map Connection.tracking) →
      ∃ old rest, stealOldConns order keys connList acc = (rest, old ++ acc, []) ∧
        connList.Perm (old ++ rest) ∧ ∀ c ∈ old, c.tracking ∈ keys := by
  induction keys with
  | nil =>
    intro connList acc _ _ _
    exact ⟨[], connList, rfl, List.Perm.refl _, by simp⟩
  | cons key keys ih =>
    intro connList acc hcanon hkeys hsub
    obtain ⟨hkey, hnodup⟩ := List.nodup_cons.1 hnodup
    obtain ⟨c, hc, hct⟩ := List.mem_map.1 (hsub key List.mem_cons_self)
    have hcanonical : key.Canonical := hct ▸ hcanon c hc
    cases hfind : connList.find? (hasKey order key) with
    | none =>
      exact absurd ((hasKey_iff (hcanon c hc) hcanonical).2 hct) (List.find?_eq_none.1 hfind c hc)
    | some value =>
      obtain ⟨l₁, l₂, hlist, hvalue, hnot⟩ := exists_split_of_find? hfind
      have hvt : value.tracking = key :=
        (hasKey_iff (hcanon value (by simp [hlist])) hcanonical).1 hvalue
      -- the other keys differ from this one, so that their entries are still there
      have hsub' : ∀ k ∈ keys, k ∈ (l₁ ++ l₂).map Connection.tracking := by
        intro k hk
        have hne : k ≠ key := fun h ↦ hkey (h ▸ hk)
        have hmem := hsub k (List.mem_cons_of_mem _ hk)
        simp only [hlist, List.map_append, List.map_cons, List.mem_append, List.mem_cons, hvt,
          hne, false_or] at hmem
        simpa using hmem
      obtain ⟨old, rest, heq, hperm, hold⟩ := ih hnodup (value :: acc)
        (fun c hc ↦ hcanon c (mem_of_split hlist hc)) (Core.Inv.keys_remove (hlist ▸ hkeys)) hsub'
      refine ⟨old ++ [value], rest, ?_, ?_, ?_⟩
      · rw [stealOldConns, hfind]
        dsimp only
        rw [hlist, eraseP_split hnot hvalue, heq]
        simp
      · rw [hlist]
        refine List.perm_middle.trans ((hperm.cons value).trans ?_)
        rw [List.append_assoc]
        exact List.perm_middle.symm
      · intro c hc
        rcases List.mem_append.1 hc with hc | hc
        · exact List.mem_cons_of_mem _ (hold c hc)
        · rw [List.mem_singleton.1 hc, hvt]
          exact List.mem_cons_self

/-- The old connections are answered, each on its own session. -/
theorem rejectOldConns_eq (conf : Params) (host : Host) (log : Logger) {old : List Connection}
    (hold : ∀ c ∈ old, EntryConn c ∧ c.state ≠ .completing) (w : World) :
    ∃ h answers, old.foldl (fun w element ↦ w.rejectOldConn conf host log element) w =
        { w with sessions := h, answers := w.answers ++ answers } ∧
      (∀ p, (answers.map Answer.packetId).count p = total (held p) old) ∧
      ∀ a ∈ answers, ∃ c ∈ old, a.packetId ∈ c.packetId ∧ c.state = .authreq ∧ a.For c := by
  induction old generalizing w with
  | nil =>
    refine ⟨w.sessions, [], ?_, fun p ↦ rfl, by simp⟩
    rw [List.foldl_nil, List.append_nil]
  | cons c old ih =>
    obtain ⟨⟨hentry, hstate⟩, hold⟩ := List.forall_mem_cons.1 hold
    rw [List.foldl_cons, World.rejectOldConn]
    rcases hentry.state with hs | hs | hs
    · -- a request: each of its identifiers is answered
      have hrejected : { c with decision :=
          if conf.rejectAfterTimeout then .reject else .drop }.state ≠ .userpckt := by
        simp [hs]
      obtain ⟨h, answers, happly, hid, hrouted⟩ := World.applyDecision_eq conf host log hrejected
        (hentry.version (by simp [hs])) w
      obtain ⟨h', answers', hrest, hcount, hrouted'⟩ := ih hold
        { w with sessions := h, answers := w.answers ++ answers }
      rw [if_pos hs, happly, hrest]
      refine ⟨h', answers ++ answers', by rw [List.append_assoc], fun p ↦ ?_, fun a ha ↦ ?_⟩
      · rw [List.map_append, List.count_append, hid, hcount, total_cons]
        rfl
      · rcases List.mem_append.1 ha with ha | ha
        · have hmem : a.packetId ∈ c.packetId := by
            rw [show c.packetId = answers.map Answer.packetId from hid.symm]
            exact List.mem_map_of_mem ha
          exact ⟨c, List.mem_cons_self, hmem, hs, hrouted a ha⟩
        · obtain ⟨c', hc', hrest⟩ := hrouted' a ha
          exact ⟨c', List.mem_cons_of_mem _ hc', hrest⟩
    · -- the packet of a user has no identifier
      rw [if_neg (by simp [hs])]
      obtain ⟨h', answers', hrest, hcount, hrouted'⟩ := ih hold w
      refine ⟨h', answers', hrest, fun p ↦ ?_, fun a ha ↦ ?_⟩
      · rw [hcount, total_cons, held, hentry.packetId hs, List.count_nil, Nat.zero_add]
      · obtain ⟨c', hc', hrest⟩ := hrouted' a ha
        exact ⟨c', List.mem_cons_of_mem _ hc', hrest⟩
    · exact absurd hs hstate

/-- What `clean_connections_list` does: part of the hash, spared by the state COMPLETING, is taken
out and answered. -/
theorem Core.Inv.cleaned {w : World} (hw : Core.Inv w) (conf : Params) (host : Host)
    (log : Logger) (clock : Connection → Int) :
    ∃ old rest h answers, w.cleanConnectionsList conf host log clock =
        { w with sessions := h, connList := rest, answers := w.answers ++ answers } ∧
      w.connList.Perm (old ++ rest) ∧ (∀ c ∈ old, c.state ≠ .completing) ∧
      (∀ p, (answers.map Answer.packetId).count p = total (held p) old) ∧
      ∀ a ∈ answers, ∃ c ∈ old, a.packetId ∈ c.packetId ∧ c.state = .authreq ∧ a.For c := by
  rw [World.cleanConnectionsList]
  dsimp only
  generalize hkeys : ((w.connList.filter fun c ↦ getOldConn conf (clock c) c).map
    Connection.tracking).reverse = keys
  have hmem : ∀ k, k ∈ keys ↔ ∃ c ∈ w.connList, getOldConn conf (clock c) c = true ∧
      c.tracking = k := by
    intro k
    rw [← hkeys, List.mem_reverse, List.mem_map]
    simp only [List.mem_filter, and_assoc]
  have hnodup : keys.Nodup := by
    rw [← hkeys, List.nodup_reverse]
    exact hw.keys.sublist (List.filter_sublist.map _)
  obtain ⟨old, rest, heq, hperm, hold⟩ := stealOldConns_eq host.order hnodup []
    (fun c hc ↦ (hw.entries c hc).canonical) hw.keys (fun k hk ↦ by
      obtain ⟨c, hc, -, hct⟩ := (hmem k).1 hk
      exact List.mem_map.2 ⟨c, hc, hct⟩)
  have hstate : ∀ c ∈ old, EntryConn c ∧ c.state ≠ .completing := by
    intro c hc
    have hcl : c ∈ w.connList := hperm.mem_iff.2 (List.mem_append_left _ hc)
    obtain ⟨c', hc', hgo, hct⟩ := (hmem _).1 (hold c hc)
    rw [hw.eq_of_tracking hcl hc' hct.symm]
    refine ⟨hw.entries c' hc', ?_⟩
    simp only [getOldConn, decide_eq_true_eq] at hgo
    exact hgo.2.1
  rw [heq]
  dsimp only
  rw [List.append_nil, List.append_nil]
  obtain ⟨h, answers, hfold, hcount, hrouted⟩ := rejectOldConns_eq conf host log hstate
    { w with connList := rest }
  exact ⟨old, rest, h, answers, hfold, hperm, fun c hc ↦ (hstate c hc).2, hcount, hrouted⟩

end Nufw
