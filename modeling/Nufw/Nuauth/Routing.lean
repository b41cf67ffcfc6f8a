import Nufw.Nuauth.Accounting

/-!
# Answers and the gateway that asked

A connection has one session and one protocol version, and all its identifiers are answered on that
session and in that version. They are those of the gateway that announced an identifier as long as
the identifiers of a connection come from one gateway, which is what `GatewayConn` says.

A request that meets an entry with the same tracking breaks this when it comes from another
gateway: an entry in state AUTHREQ changes to the session of the new request and keeps its version,
and an entry in state COMPLETING keeps both. Without such a fold (`NoForeignFold`) every answer goes
where it should; `answers_misrouted` is a run where one happens.
-/

namespace Nufw

variable {version : SessionId → ℕ}

/-- The connection belongs to one gateway: its identifiers come from its session, and it is in the
protocol of that session. -/
def GatewayConn (version : SessionId → ℕ) (c : Connection) : Prop :=
  ∃ s, c.tls = some s ∧ c.nufwVersion = version s ∧ ∀ p ∈ c.packetId, p.origin = some s

/-- The answer goes to the session that asked, in its protocol. -/
def Answer.Routed (version : SessionId → ℕ) (a : Answer) : Prop :=
  ∃ s, a.packetId.origin = some s ∧ a.session = some s ∧ a.version = version s ∧
    a.message.head? = some (UInt8.ofNat (version s))

/-- A request that is pushed carries the session it was read from, in the protocol of that
session. -/
def FromGateway (version : SessionId → ℕ) : Event → Prop
  | .pushAuthreq conn => GatewayConn version conn
  | _ => True

/-- The step does not fold a request into an entry of another gateway. -/
def NoForeignFold (host : Host) (w : World) : Event → Prop
  | .searchAndFill _ _ => ∀ new queue packet, w.connectionsQueue = new :: queue →
      new.state = .authreq → w.connList.find? (hasKey host.order new.tracking) = some packet →
      packet.state ≠ .userpckt → packet.tls = new.tls
  | _ => True

/-- All connections belong to one gateway each, and the answers are routed. -/
structure Routing (version : SessionId → ℕ) (w : World) : Prop where
  queue : ∀ c ∈ w.connectionsQueue, c.state = .authreq → GatewayConn version c
  entries : ∀ c ∈ w.connList, c.state ≠ .userpckt → GatewayConn version c
  workers : ∀ c ∈ w.decisionsWorkers, GatewayConn version c
  answers : ∀ a ∈ w.answers, a.Routed version

theorem Answer.For.routed {a : Answer} {c : Connection} (ha : a.For c)
    (hc : GatewayConn version c) (hp : a.packetId ∈ c.packetId) : a.Routed version := by
  obtain ⟨s, htls, hv, horigin⟩ := hc
  obtain ⟨hsession, hversion, hmessage⟩ := ha
  exact ⟨s, horigin _ hp, hsession.trans htls, hversion.trans hv, hv ▸ hmessage⟩

theorem GatewayConn.congr {c c' : Connection} (hc : GatewayConn version c)
    (htls : c'.tls = c.tls) (hv : c'.nufwVersion = c.nufwVersion)
    (hp : ∀ p ∈ c'.packetId, p ∈ c.packetId) : GatewayConn version c' := by
  obtain ⟨s, hs, hsv, horigin⟩ := hc
  exact ⟨s, htls.trans hs, hv.trans hsv, fun p h ↦ horigin p (hp p h)⟩

/-- Folding a request into an entry of its own gateway. -/
theorem GatewayConn.prepend {new packet : Connection} (hnew : GatewayConn version new)
    (hpacket : GatewayConn version packet) (htls : packet.tls = new.tls) :
    GatewayConn version (prependPacketId new packet) := by
  obtain ⟨s, hs, hv, horigin⟩ := hpacket
  obtain ⟨s', hs', -, horigin'⟩ := hnew
  obtain rfl : s' = s := Option.some.inj (hs'.symm.trans (htls.symm.trans hs))
  refine ⟨s', hs, hv, fun p hp ↦ ?_⟩
  rcases List.mem_append.1 hp with hp | hp
  · exact horigin' p (List.mem_of_mem_head? (Option.mem_toList.1 hp))
  · exact horigin p hp

/-- An entry that is filled without a foreign fold belongs to one gateway. -/
theorem GatewayConn.fill {host : Host} {h : Sessions} {new packet : Connection}
    (hnew : QueueConn new) (hpacket : EntryConn packet)
    (hcopy : new.state ≠ .completing) (hn : new.state = .authreq → GatewayConn version new)
    (hp : packet.state ≠ .userpckt → GatewayConn version packet)
    (hfold : new.state = .authreq → packet.state ≠ .userpckt → packet.tls = new.tls)
    (hstate : (searchAndFillUpdate host h new packet).packet.state ≠ .userpckt) :
    GatewayConn version (searchAndFillUpdate host h new packet).packet := by
  rcases hnew.state with hns | hns | hns
  · rcases hpacket.state with hps | hps | hps
    · have htls := hfold hns (by simp [hps])
      rw [searchAndFillUpdate_authreq_authreq host h hps hns, mergeNufwSession_of_eq htls]
      exact (hn hns).prepend (hp (by simp [hps])) htls
    · rw [searchAndFillUpdate_userpckt_authreq host h hps hns]
      exact (hn hns).congr rfl rfl fun p h ↦ h
    · rw [searchAndFillUpdate_decided_authreq host h (Or.inl hps) hns]
      exact (hn hns).prepend (hp (by simp [hps])) (hfold hns (by simp [hps]))
  · rcases hpacket.state with hps | hps | hps
    · rw [searchAndFillUpdate_authreq_userpckt host h hps hns]
      exact (hp (by simp [hps])).congr rfl rfl fun p h ↦ h
    · rw [searchAndFillUpdate_userpckt host h (Or.inl hps) hns] at hstate
      exact absurd hps hstate
    · rw [searchAndFillUpdate_userpckt host h (Or.inr (Or.inl hps)) hns]
      exact hp (by simp [hps])
  · exact absurd hns hcopy

namespace Routing

variable {w : World}

theorem searched {host : Host} {new : Connection} {queue : List Connection} {w' : World}
    (hr : Routing version w) (hw : Core.Inv w) (hq : w.connectionsQueue = new :: queue)
    (hfold : ∀ packet, new.state = .authreq →
      w.connList.find? (hasKey host.order new.tracking) = some packet →
      packet.state ≠ .userpckt → packet.tls = new.tls)
    (h : Searched host w new queue w') : Routing version w' := by
  have hnew := hw.queue new (by simp [hq])
  have hqueue : ∀ c ∈ queue, c.state = .authreq → GatewayConn version c :=
    fun c hc ↦ hr.queue c (by simp [hq, hc])
  have hrn : new.state = .authreq → GatewayConn version new := hr.queue new (by simp [hq])
  cases h with
  | insert hnone q =>
    refine ⟨hqueue, fun c hc hs ↦ ?_, hr.workers, hr.answers⟩
    rcases List.mem_cons.1 hc with rfl | hc
    · rcases hnew.state with hns | hns | hns
      · exact hrn hns
      · exact absurd hns hs
      · -- a copy has its entry, so that it is never inserted
        obtain ⟨e, he, -, het⟩ := hw.exists_entry (Or.inr (by simp [hq])) hns
        exact absurd het (hnone e he)
    · exact hr.entries c hc hs
  | fill packet l₁ l₂ f hfind hlist ht hf hwell hdecide =>
    subst hf
    have hmem : packet ∈ w.connList := by simp [hlist]
    refine ⟨hqueue, forall_mem_replace hlist hr.entries ?_, hr.workers, hr.answers⟩
    exact GatewayConn.fill hnew (hw.entries packet hmem) (hwell.entry hdecide).2 hrn
      (hr.entries packet hmem) fun hns ↦ hfold packet hns hfind
  | later packet decided l₁ l₂ hlist ht hn hp hdecided hid htls hversion =>
    have hpacket := hr.entries packet (by simp [hlist]) (by simp [hp])
    refine ⟨hqueue, fun c hc ↦ hr.entries c (mem_of_split hlist hc), fun c hc ↦ ?_, hr.answers⟩
    rcases List.mem_append.1 hc with hc | hc
    · exact hr.workers c hc
    · rw [List.mem_singleton.1 hc]
      exact hpacket.congr htls hversion fun p h ↦ hid ▸ h
  | now packet l₁ l₂ h answers hlist ht hn hp hanswers hrouted =>
    have hpacket := hr.entries packet (by simp [hlist]) (by simp [hp])
    refine ⟨hqueue, fun c hc ↦ hr.entries c (mem_of_split hlist hc), hr.workers, fun a ha ↦ ?_⟩
    rcases List.mem_append.1 ha with ha | ha
    · exact hr.answers a ha
    · exact (hrouted a ha).routed hpacket (hanswers ▸ List.mem_map_of_mem ha)

theorem cleaned (hr : Routing version w) (hw : Core.Inv w) (conf : Params) (host : Host)
    (log : Logger) (clock : Connection → Int) :
    Routing version (w.cleanConnectionsList conf host log clock) := by
  obtain ⟨old, rest, h, answers, heq, hperm, -, -, hrouted⟩ := hw.cleaned conf host log clock
  rw [heq]
  refine ⟨hr.queue, fun c hc ↦ hr.entries c (hperm.mem_iff.2 (List.mem_append_right _ hc)),
    hr.workers, fun a ha ↦ ?_⟩
  rcases List.mem_append.1 ha with ha | ha
  · exact hr.answers a ha
  · obtain ⟨c, hc, hp, hs, hfor⟩ := hrouted a ha
    exact hfor.routed (hr.entries c (hperm.mem_iff.2 (List.mem_append_left _ hc))
      (by simp [hs])) hp

/-- Every event that neither forges a session nor folds two gateways together keeps the routing. -/
theorem step (hr : Routing version w) (hw : Core.Inv w) (conf : Params) (host : Host) {e : Event}
    (he : w.enabled e) (hfrom : FromGateway version e) (hfold : NoForeignFold host w e) :
    Routing version (w.step conf host e) := by
  cases e with
  | pushAuthreq conn =>
    refine ⟨fun c hc hs ↦ ?_, hr.entries, hr.workers, hr.answers⟩
    rcases List.mem_append.1 hc with hc | hc
    · exact hr.queue c hc hs
    · rw [List.mem_singleton.1 hc]
      exact hfrom
  | pushUserpckt conn =>
    refine ⟨fun c hc hs ↦ ?_, hr.entries, hr.workers, hr.answers⟩
    rcases List.mem_append.1 hc with hc | hc
    · exact hr.queue c hc hs
    · rw [List.mem_singleton.1 hc, UserpcktConn.state he] at hs
      cases hs
  | searchAndFill log now =>
    rw [World.step]
    cases hq : w.connectionsQueue with
    | nil => exact absurd hq he
    | cons new queue =>
      exact hr.searched hw hq (fun packet ↦ hfold new queue packet hq)
        (searched_of_inv conf host log now hw hq)
  | aclCheckAndDecide i acls =>
    rw [World.step]
    cases hi : w.aclCheckers[i]? with
    | none => exact absurd (List.getElem?_eq_none_iff.1 hi) (Nat.not_le.2 he)
    | some element =>
      have helement := hw.checkers element (List.mem_of_getElem? hi)
      show Routing version (World.aclCheckAndDecide conf acls element
        { w with aclCheckers := w.aclCheckers.eraseIdx i })
      rw [World.aclCheckAndDecide, if_pos helement.state]
      refine ⟨fun c hc hs ↦ ?_, hr.entries, hr.workers, hr.answers⟩
      rcases List.mem_append.1 hc with hc | hc
      · exact hr.queue c hc hs
      · rw [List.mem_singleton.1 hc] at hs
        exact absurd (helement.state.symm.trans hs) (by simp)
  | cleanConnectionsList log clock => exact hr.cleaned hw conf host log clock
  | decisionsQueueWork i log =>
    rw [World.step]
    cases hi : w.decisionsWorkers[i]? with
    | none => exact absurd (List.getElem?_eq_none_iff.1 hi) (Nat.not_le.2 he)
    | some element =>
      have hmem := List.mem_of_getElem? hi
      have helement := hw.workers element hmem
      obtain ⟨h, answers, happly, hid, hrouted⟩ := World.applyDecision_eq conf host log
        (by simp [helement.state]) helement.version
        { w with decisionsWorkers := w.decisionsWorkers.eraseIdx i }
      show Routing version (World.decisionsQueueWork conf host log element
        { w with decisionsWorkers := w.decisionsWorkers.eraseIdx i })
      rw [World.decisionsQueueWork, happly]
      refine ⟨hr.queue, hr.entries, fun c hc ↦ hr.workers c (List.mem_of_mem_eraseIdx hc),
        fun a ha ↦ ?_⟩
      rcases List.mem_append.1 ha with ha | ha
      · exact hr.answers a ha
      · exact (hrouted a ha).routed (hr.workers element hmem) (hid ▸ List.mem_map_of_mem ha)
  | sessions h => exact ⟨hr.queue, hr.entries, hr.workers, hr.answers⟩

end Routing

/-- **Without a fold between gateways, every answer goes to the gateway that asked, in its own
protocol.** -/
theorem answers_routed_of_noForeignFold {conf : Params} {host : Host} {w : World}
    (h : (core conf host).Reach (fun w e ↦ FromGateway version e ∧ NoForeignFold host w e) w) :
    ∀ a ∈ w.answers, a.Routed version := by
  have hinv : Core.Inv w ∧ Routing version w := by
    refine h.invariant (I := fun w ↦ Core.Inv w ∧ Routing version w) ?_ ?_
    · rintro w ⟨h, rfl⟩
      refine ⟨Core.Inv.start h, ?_, ?_, ?_, ?_⟩ <;> intro c hc <;> cases hc
    · rintro w e ⟨hw, hr⟩ he ⟨hfrom, hfold⟩
      exact ⟨hw.step conf host he, hr.step hw conf host he hfrom hfold⟩
  exact hinv.2.answers

/-- A request, filed and answered when it has waited for too long. -/
def timeoutRun (requests : List Connection) : List Event :=
  requests.map .pushAuthreq ++ requests.map (fun _ ↦ .searchAndFill Logger.sample 0) ++
    [.cleanConnectionsList Logger.sample fun _ ↦ 100]

/-- One gateway alone gets its answer. -/
theorem answer_routed_of_single_request :
    let w := (core Params.default Host.sample).run (World.start fun _ ↦ NufwSession.new)
      (timeoutRun [Connection.request 1 0 5])
    w.answers ≠ [] ∧ ∀ a ∈ w.answers, a.Routed fun _ ↦ 5 := by
  intro w
  refine ⟨by decide, answers_routed_of_noForeignFold
    ((core Params.default Host.sample).reach_run ⟨fun _ ↦ NufwSession.new, rfl⟩
      (timeoutRun [Connection.request 1 0 5]) ?_)⟩
  refine ⟨⟨Connection.request_authreqConn 1 0 (by decide), by simp [World.start]⟩,
    ⟨⟨0, rfl, rfl, ?_⟩, trivial⟩, List.cons_ne_nil _ _, ⟨trivial, ?_⟩, trivial,
    ⟨trivial, trivial⟩, trivial⟩
  · intro p hp
    rw [List.mem_singleton.1 hp]
  · rintro new queue packet _ _ hfind
    cases hfind

/-- **Two gateways ask for the same connection**: the first one is answered on the session of the
second, and the second in the protocol of the first. -/
theorem answers_misrouted :
    let version : SessionId → ℕ := fun s ↦ if s = 0 then 5 else 6
    let requests := [Connection.request 1 0 5, Connection.request 1 1 6]
    let w := (core Params.default Host.sample).run (World.start fun _ ↦ NufwSession.new)
      (timeoutRun requests)
    (core Params.default Host.sample).Reach (fun _ e ↦ FromGateway version e) w ∧
      (∃ a ∈ w.answers, a.packetId.origin = some 0 ∧ a.session = some 1) ∧
      (∃ a ∈ w.answers, a.packetId.origin = some 1 ∧ a.version = version 0) ∧
      ¬∀ a ∈ w.answers, a.Routed version := by
  intro version requests w
  have hsession : ∃ a ∈ w.answers, a.packetId.origin = some 0 ∧ a.session = some 1 := by decide
  refine ⟨(core Params.default Host.sample).reach_run ⟨fun _ ↦ NufwSession.new, rfl⟩
    (timeoutRun requests) ?_, hsession, by decide, fun hall ↦ ?_⟩
  · refine ⟨⟨Connection.request_authreqConn 1 0 (by decide), by simp [World.start]⟩,
      ⟨0, rfl, rfl, ?_⟩, ⟨Connection.request_authreqConn 1 1 (by decide), by decide⟩,
      ⟨1, rfl, rfl, ?_⟩, List.cons_ne_nil _ _, trivial, List.cons_ne_nil _ _, trivial, trivial,
      trivial, trivial⟩
    · intro p hp
      rw [List.mem_singleton.1 hp]
    · intro p hp
      rw [List.mem_singleton.1 hp]
  · obtain ⟨a, ha, horigin, hsession⟩ := hsession
    obtain ⟨s, hs, hs', -⟩ := hall a ha
    rw [horigin] at hs
    rw [hsession, ← hs] at hs'
    simp at hs'

end Nufw
