import Nufw.Lib.History
import Nufw.Lib.Wire
import Nufw.Nuauth.Accounting

/-!
# Where an acceptance comes from

What the firewall is for: nuauth tells a gateway to accept a packet only if the gateway asked about
it, an authenticated user announced the very same connection, and an ACL that the checkers found for
that connection accepts that user.

An answer does not say any of this. The user, the interfaces and the ACLs meet in an entry of the
hash, by way of a copy that goes through the ACL checkers, while other requests and other users may
come with the same tracking. So the invariant `Provenance` is about the world and the events so far:
it follows an entry and the copy made of it (`HalvesOf`) from the moment when both halves of the
connection are there until the copy comes back. That one packet of one user stands behind both of
them is what makes an acceptance trustworthy, and it holds because an entry in state COMPLETING
takes nothing more from a user.
-/

namespace Nufw

/-! ### The decision in an answer -/

/-- The byte of the decision in the message. -/
def Answer.decision? (a : Answer) : Option UInt8 :=
  a.message[if a.version = protoVersionNufwV20 then 4 else 2]?

/-- The gateway is told to accept. -/
def Answer.Accepts (a : Answer) : Prop := a.decision? = some Decision.accept.toByte

instance : DecidablePred Answer.Accepts := fun a ↦
  inferInstanceAs (Decidable (a.decision? = some Decision.accept.toByte))

/-- The message has the identifier of its packet. -/
def Answer.Identifies (a : Answer) : Prop :=
  ∀ m : Memory, m.Holds 0 a.message →
    m.be32 (if a.version = protoVersionNufwV20 then 8 else 4) = a.packetId.id

/-- The answer is for an identifier of the connection, and accepts only what was accepted. -/
structure Answer.Reports (a : Answer) (c : Connection) : Prop where
  packetId : a.packetId ∈ c.packetId
  decision : a.Accepts → c.decision = .accept
  identifies : a.Identifies

theorem Decision.toByte_injective : Function.Injective Decision.toByte := by
  intro d d' h
  cases d <;> cases d' <;> first | rfl | exact absurd h (by decide)

/-- A message carries the decision of the connection. -/
theorem decision?_authResponse {host : Host} {element : Connection} {packetId : UInt32}
    {message : Bytes} (h : authResponse host element packetId = some message) :
    message[if element.nufwVersion = protoVersionNufwV20 then 4 else 2]? =
      some element.decision.toByte := by
  rw [authResponse] at h
  split_ifs at h with h₃ h₅ h₆
  · rw [if_pos h₃, ← Option.some.inj h]
    rfl
  · rw [if_neg h₃, ← Option.some.inj h]
    rfl
  · rw [if_neg h₃, ← Option.some.inj h]
    rfl

/-- A message carries the identifier of the packet. -/
theorem be32_authResponse {host : Host} {element : Connection} {packetId : UInt32}
    {message : Bytes} (h : authResponse host element packetId = some message) {m : Memory}
    (hm : m.Holds 0 message) :
    m.be32 (if element.nufwVersion = protoVersionNufwV20 then 8 else 4) = packetId := by
  rw [authResponse] at h
  split_ifs at h with h₃ h₅ h₆
  · rw [if_pos h₃]
    rw [← Option.some.inj h] at hm
    simp only [Memory.holds_append, List.length_append, List.length_cons, List.length_nil,
      length_htons, length_htonl] at hm
    exact Memory.Holds.be32_eq hm.1.1.1.2
  · rw [if_neg h₃]
    rw [← Option.some.inj h] at hm
    simp only [Memory.holds_append, List.length_append, List.length_cons, List.length_nil,
      length_htons, length_htonl] at hm
    exact Memory.Holds.be32_eq hm.1.1.1.1.2
  · rw [if_neg h₃]
    rw [← Option.some.inj h] at hm
    simp only [Memory.holds_append, List.length_append, List.length_cons, List.length_nil,
      length_htons, length_htonl] at hm
    exact Memory.Holds.be32_eq hm.1.1.1.1.1.2

theorem reports_of_mem_sendAuthResponses {host : Host} {element : Connection} {ps : List PacketId}
    {h : Sessions} {a : Answer} (ha : a ∈ (sendAuthResponses host element ps h).2) :
    a.packetId ∈ ps ∧ (a.Accepts → element.decision = .accept) ∧ a.Identifies := by
  induction ps generalizing h with
  | nil => cases ha
  | cons p ps ih =>
    rw [sendAuthResponses, sendAuthResponse] at ha
    cases hm : authResponse host element p.id with
    | none =>
      rw [hm] at ha
      obtain ⟨hmem, hrest⟩ := ih (h := h) (by simpa using ha)
      exact ⟨List.mem_cons_of_mem _ hmem, hrest⟩
    | some message =>
      rw [hm] at ha
      dsimp only at ha
      have hcase : a = ⟨p, element.tls, element.nufwVersion, message⟩ ∨
          ∃ h', a ∈ (sendAuthResponses host element ps h').2 := by
        split at ha
        · exact (List.mem_append.1 ha).imp List.mem_singleton.1 fun h' ↦ ⟨_, h'⟩
        · exact (List.mem_append.1 ha).imp List.mem_singleton.1 fun h' ↦ ⟨_, h'⟩
      rcases hcase with rfl | ⟨h', ha'⟩
      · refine ⟨List.mem_cons_self, fun haccept ↦ Decision.toByte_injective ?_,
          fun m hholds ↦ be32_authResponse hm hholds⟩
        have hbyte := (decision?_authResponse hm).symm.trans haccept
        exact Option.some.inj hbyte
      · obtain ⟨hmem, hrest⟩ := ih ha'
        exact ⟨List.mem_cons_of_mem _ hmem, hrest⟩

/-- `apply_decision` reports the decision, or drops for lack of a log. -/
theorem World.applyDecision_reports (conf : Params) (host : Host) (log : Logger)
    {element : Connection} (hs : element.state ≠ .userpckt) (w : World) :
    ∃ h answers, w.applyDecision conf host log element =
        { w with sessions := h, answers := w.answers ++ answers } ∧
      ∀ a ∈ answers, a.Reports element := by
  unfold World.applyDecision Nufw.applyDecision
  rw [if_neg hs]
  dsimp only
  generalize logUserPacket conf log element _ = ret
  refine ⟨_, _, by rw [List.append_nil], fun a ha ↦ ?_⟩
  obtain ⟨hmem, haccept, hidentifies⟩ := reports_of_mem_sendAuthResponses ha
  split_ifs at hmem haccept with hdrop
  · exact ⟨hmem, fun h ↦ absurd (haccept h) (by simp), hidentifies⟩
  · exact ⟨hmem, haccept, hidentifies⟩

/-- `take_decision` takes its entry out of the hash, and hands on or reports what it decided. -/
theorem World.takeDecision_reports (conf : Params) (host : Host) (log : Logger) (now : Int)
    (element : Connection) {w : World} {packet : Connection} {l₁ l₂ : List Connection}
    (hlist : w.connList = l₁ ++ packet :: l₂)
    (hkey : hasKey host.order element.tracking packet = true)
    (hnot : ∀ c ∈ l₁, hasKey host.order element.tracking c = false)
    (hs : element.state ≠ .userpckt) :
    ∃ h workers answers, w.takeDecision conf host log now .inHash element =
        { w with
          sessions := h
          connList := l₁ ++ l₂
          decisionsWorkers := w.decisionsWorkers ++ workers
          answers := w.answers ++ answers } ∧
      (∀ d ∈ workers, d = decidedElement conf now element) ∧
      ∀ a ∈ answers, a.Reports (decidedElement conf now element) := by
  obtain ⟨-, ht, hst, -, -⟩ := decidedElement_request conf now element
  rw [← ht] at hkey hnot
  rw [World.takeDecision]
  generalize decidedElement conf now element = decided at *
  dsimp only
  rw [if_pos rfl, if_pos rfl]
  by_cases hsync : conf.logUsersSync = true
  · rw [if_pos hsync, World.connClRemove_split host hlist hkey hnot]
    exact ⟨w.sessions, [decided], [], by rw [List.append_nil], fun d hd ↦ List.mem_singleton.1 hd,
      by simp⟩
  · rw [if_neg hsync]
    have hdecided : decided.state ≠ .userpckt := by rwa [hst]
    obtain ⟨h, answers, happly, hreports⟩ := World.applyDecision_reports conf host log hdecided w
    have hremove := World.connClRemove_split host
      (w := { w with sessions := h, answers := w.answers ++ answers }) hlist hkey hnot
    refine ⟨h, [], answers, ?_, by simp, hreports⟩
    rw [happly, hremove, List.append_nil]
    rfl

/-- The old connections are not accepted. -/
theorem rejectOldConns_reports (conf : Params) (host : Host) (log : Logger)
    (old : List Connection) (w : World) :
    ∃ h answers, old.foldl (fun w element ↦ w.rejectOldConn conf host log element) w =
        { w with sessions := h, answers := w.answers ++ answers } ∧
      ∀ a ∈ answers, ¬a.Accepts := by
  induction old generalizing w with
  | nil => exact ⟨w.sessions, [], by rw [List.foldl_nil, List.append_nil], by simp⟩
  | cons c old ih =>
    rw [List.foldl_cons, World.rejectOldConn]
    dsimp only
    by_cases hs : c.state = .authreq
    · rw [if_pos hs]
      have hstate : { c with decision :=
          if conf.rejectAfterTimeout then .reject else .drop }.state ≠ .userpckt := by
        simp [hs]
      obtain ⟨h, answers, happly, hreports⟩ :=
        World.applyDecision_reports conf host log hstate w
      obtain ⟨h', answers', hrest, hnot⟩ :=
        ih { w with sessions := h, answers := w.answers ++ answers }
      rw [happly, hrest]
      refine ⟨h', answers ++ answers', by rw [List.append_assoc], fun a ha haccept ↦ ?_⟩
      rcases List.mem_append.1 ha with ha | ha
      · have hdecision := (hreports a ha).decision haccept
        dsimp only at hdecision
        split_ifs at hdecision
      · exact hnot a ha haccept
    · rw [if_neg hs]
      exact ih w

/-! ### The ACL behind an ACCEPT -/

/-- A run of probes that ends in an ACCEPT has hit an ACL that accepts, within its period. -/
theorem exists_hit_of_accept {conf : Params} {now : Int} {ps : List Probe} {o : Outcome}
    (h : (runOutcome conf now ps o).answer = .accept) :
    o.answer = .accept ∨
      ∃ a, .hit a ∈ ps ∧ a.answer = .accept ∧ a.inPeriod conf now = true := by
  induction ps generalizing o with
  | nil => exact Or.inl h
  | cons p ps ih =>
    by_cases hd : o.Decided
    · rw [runOutcome, foldUntil_of_stop hd] at h
      exact Or.inl h
    · rw [runOutcome, foldUntil_cons hd] at h
      rcases ih h with hstep | ⟨a, ha, haccept⟩
      · cases p with
        | null => cases hstep
        | strict a => exact absurd hstep (rejectOrDrop_ne_accept conf)
        | hit a =>
          rw [outcomeStep] at hstep
          split_ifs at hstep with haccept hperiod
          · exact Or.inr ⟨a, List.mem_cons_self, haccept, hperiod⟩
          · exact absurd hstep haccept
        | miss a => exact Or.inl hstep
      · exact Or.inr ⟨a, List.mem_cons_of_mem _ ha, haccept⟩

/-- **Behind an ACCEPT there is an ACL**: it accepts, is within its period, asks for no more quality
than the connection has, and names the user or a group of the user. -/
theorem exists_acl_of_accept {conf : Params} {now : Int} {c : Connection}
    (h : (decidedElement conf now c).decision = .accept) :
    ∃ a, some a ∈ c.aclGroups ∧ a.answer = .accept ∧ a.inPeriod conf now = true ∧
      a.tooStrict c = false ∧ a.names conf c = true := by
  have hne : c.aclGroups ≠ [] := fun hnil ↦ decidedElement_of_nil conf now hnil h
  obtain ⟨haccept, -⟩ := (decidedElement_accept_iff hne).1 h
  rcases exists_hit_of_accept haccept with hstart | ⟨a, ha, hanswer, hperiod⟩
  · cases hstart
  · obtain ⟨hmem, hquality, hnames⟩ := hit_mem_probes.1 ha
    exact ⟨a, hmem, hanswer, hperiod, hquality, hnames⟩

/-! ### The two halves of a connection -/

/-- What an entry has from the packet of its user. -/
structure FromUser (u e : Connection) : Prop where
  tracking : e.tracking = u.tracking
  userGroups : e.userGroups = u.userGroups
  userId : e.userId = u.userId
  username : e.username = u.username
  authQuality : e.authQuality = u.authQuality
  protoVersion : e.protoVersion = u.protoVersion

/-- What the ACL checkers see: the connection, the application and the system are those that the
user announced, and the interfaces are those of the request. -/
structure Shows (u r c : Connection) : Prop where
  tracking : c.tracking = u.tracking
  appName : c.appName = u.appName
  appSig : c.appSig = u.appSig
  osSysname : c.osSysname = u.osSysname
  osRelease : c.osRelease = u.osRelease
  osVersion : c.osVersion = u.osVersion
  ifaceNfo : c.ifaceNfo = r.ifaceNfo

/-- The entry and its copy are made of one packet of one user and of requests of gateways. -/
def HalvesOf (es : List Event) (e c : Connection) : Prop :=
  ∃ u r, Event.pushUserpckt u ∈ es ∧ Event.pushAuthreq r ∈ es ∧ r.tracking = u.tracking ∧
    FromUser u e ∧ Shows u r c

/-- A gateway has asked about each identifier, for this tracking. -/
def AskedFor (es : List Event) (c : Connection) : Prop :=
  ∀ p ∈ c.packetId, ∃ r, Event.pushAuthreq r ∈ es ∧ p ∈ r.packetId ∧ r.tracking = c.tracking

/-- A request of a gateway has brought the interfaces. -/
def IfacesFrom (es : List Event) (c : Connection) : Prop :=
  ∃ r, Event.pushAuthreq r ∈ es ∧ r.tracking = c.tracking ∧ c.ifaceNfo = r.ifaceNfo

section

variable (conf : Params) (host : Host) (w₀ : World)

/-- At some point of the run the checkers were given this copy, and found these ACLs. -/
def LookedUp (es : List Event) (copy : Connection) (acls : List (Option AclGroup)) : Prop :=
  ∃ es₁ i es₂, es = es₁ ++ .aclCheckAndDecide i acls :: es₂ ∧
    ((core conf host).run w₀ es₁).aclCheckers[i]? = some copy

/-- **A user may open the connection.** The user `u` announced it, a gateway asked about it in `r`,
and among the ACLs found for what both said there is one that accepts the user, for the quality of
the authentication and at the time of the decision. -/
def Allowed (es : List Event) (t : Tracking) : Prop :=
  ∃ u r copy acls log now a, Event.pushUserpckt u ∈ es ∧ Event.pushAuthreq r ∈ es ∧
    u.tracking = t ∧ r.tracking = t ∧ Shows u r copy ∧ LookedUp conf host w₀ es copy acls ∧
    Event.searchAndFill log now ∈ es ∧ some a ∈ acls ∧ a.answer = .accept ∧
    a.names conf u = true ∧ a.tooStrict u = false ∧ a.inPeriod conf now = true

/-- Where a connection of `connections_queue` comes from. -/
structure Queued (es : List Event) (c : Connection) : Prop where
  authreq : c.state = .authreq → .pushAuthreq c ∈ es
  userpckt : c.state = .userpckt → .pushUserpckt c ∈ es
  copy : c.state = .completing → ∃ copy acls, LookedUp conf host w₀ es copy acls ∧
    c = { copy with aclGroups := acls }

/-- Where an entry of `conn_list` comes from. -/
structure Filed (es : List Event) (e : Connection) : Prop where
  gateway : e.state ≠ .userpckt → AskedFor es e ∧ IfacesFrom es e
  user : e.state = .userpckt → .pushUserpckt e ∈ es

/-- **Where everything comes from.** -/
structure Provenance (es : List Event) (w : World) : Prop where
  queue : ∀ c ∈ w.connectionsQueue, Queued conf host w₀ es c
  entries : ∀ e ∈ w.connList, Filed es e
  /-- An entry and the copy with its tracking belong together. -/
  copies : ∀ c, c ∈ w.aclCheckers ∨ c ∈ w.connectionsQueue → c.state = .completing →
    ∀ e ∈ w.connList, e.tracking = c.tracking → HalvesOf es e c
  workers : ∀ d ∈ w.decisionsWorkers, AskedFor es d ∧
    (d.decision = .accept → Allowed conf host w₀ es d.tracking)
  answers : ∀ a ∈ w.answers, a.Accepts → a.Identifies ∧
    ∃ r, .pushAuthreq r ∈ es ∧ a.packetId ∈ r.packetId ∧ Allowed conf host w₀ es r.tracking

end

/-! ### The past does not change -/

section

variable {conf : Params} {host : Host} {w₀ w : World} {es : List Event} {c e u r : Connection}

theorem HalvesOf.mono (h : HalvesOf es e c) (es' : List Event) : HalvesOf (es ++ es') e c := by
  obtain ⟨u, r, hu, hr, hrest⟩ := h
  exact ⟨u, r, List.mem_append_left _ hu, List.mem_append_left _ hr, hrest⟩

theorem AskedFor.mono (h : AskedFor es c) (es' : List Event) : AskedFor (es ++ es') c := by
  intro p hp
  obtain ⟨r, hr, hrest⟩ := h p hp
  exact ⟨r, List.mem_append_left _ hr, hrest⟩

theorem IfacesFrom.mono (h : IfacesFrom es c) (es' : List Event) : IfacesFrom (es ++ es') c := by
  obtain ⟨r, hr, hrest⟩ := h
  exact ⟨r, List.mem_append_left _ hr, hrest⟩

theorem LookedUp.mono {acls : List (Option AclGroup)} (h : LookedUp conf host w₀ es c acls)
    (es' : List Event) : LookedUp conf host w₀ (es ++ es') c acls := by
  obtain ⟨es₁, i, es₂, rfl, hcopy⟩ := h
  exact ⟨es₁, i, es₂ ++ es', by rw [List.append_assoc, List.cons_append], hcopy⟩

theorem Allowed.mono {t : Tracking} (h : Allowed conf host w₀ es t) (es' : List Event) :
    Allowed conf host w₀ (es ++ es') t := by
  obtain ⟨u, r, copy, acls, log, now, a, hu, hr, hut, hrt, hshows, hlooked, hnow, hacl⟩ := h
  exact ⟨u, r, copy, acls, log, now, a, List.mem_append_left _ hu, List.mem_append_left _ hr, hut,
    hrt, hshows, hlooked.mono es', List.mem_append_left _ hnow, hacl⟩

theorem Queued.mono (h : Queued conf host w₀ es c) (es' : List Event) :
    Queued conf host w₀ (es ++ es') c where
  authreq hs := List.mem_append_left _ (h.authreq hs)
  userpckt hs := List.mem_append_left _ (h.userpckt hs)
  copy hs := by
    obtain ⟨copy, acls, hlooked, hc⟩ := h.copy hs
    exact ⟨copy, acls, hlooked.mono es', hc⟩

theorem Filed.mono (h : Filed es e) (es' : List Event) : Filed (es ++ es') e where
  gateway hs := (h.gateway hs).imp (fun h ↦ h.mono es') fun h ↦ h.mono es'
  user hs := List.mem_append_left _ (h.user hs)

theorem Provenance.mono (h : Provenance conf host w₀ es w) (es' : List Event) :
    Provenance conf host w₀ (es ++ es') w where
  queue c hc := (h.queue c hc).mono es'
  entries e he := (h.entries e he).mono es'
  copies c hc hs e he ht := (h.copies c hc hs e he ht).mono es'
  workers d hd := (h.workers d hd).imp (fun h ↦ h.mono es') fun h hd ↦ (h hd).mono es'
  answers a ha haccept := by
    obtain ⟨hidentifies, r, hr, hp, hallowed⟩ := h.answers a ha haccept
    exact ⟨hidentifies, r, List.mem_append_left _ hr, hp, hallowed.mono es'⟩

/-! ### Filling an entry -/

theorem AskedFor.prepend {new packet : Connection} (hpacket : AskedFor es packet)
    (hnew : .pushAuthreq new ∈ es) (ht : packet.tracking = new.tracking) :
    AskedFor es (prependPacketId new packet) := by
  intro p hp
  rcases List.mem_append.1 hp with hp | hp
  · have hmem : p ∈ new.packetId := by
      rw [Option.mem_toList] at hp
      exact List.mem_of_mem_head? hp
    exact ⟨new, hnew, hmem, ht.symm⟩
  · exact hpacket p hp

/-- What comes of an entry when `new` meets it: where the entry comes from, that it keeps the halves
it was made of, and that a copy is handed out only along with the halves it is made of. -/
structure FilledFrom (es : List Event) (new packet : Connection) (f : Filled) : Prop where
  filed : Filed es f.packet
  keeps : ∀ c, packet.state = .completing → HalvesOf es packet c → HalvesOf es f.packet c
  checked : ∀ c ∈ f.checked, HalvesOf es f.packet c

theorem filledFrom_keep {h : Sessions} {new packet : Connection} (hpacket : Filed es packet) :
    FilledFrom es new packet (Filled.keep h packet) where
  filed := hpacket
  keeps _ _ hc := hc
  checked c hc := by cases hc

theorem filledFrom_prepend {h : Sessions} {new packet packet' : Connection}
    (hpacket : Filed es packet) (hs : packet.state ≠ .userpckt) (hnew : .pushAuthreq new ∈ es)
    (ht : packet.tracking = new.tracking) (htls : ∃ tls, packet' = { packet with tls }) :
    FilledFrom es new packet (Filled.keep h (prependPacketId new packet')) := by
  obtain ⟨tls, rfl⟩ := htls
  obtain ⟨hasked, hifaces⟩ := hpacket.gateway hs
  refine ⟨⟨fun _ ↦ ⟨?_, hifaces⟩, fun h ↦ absurd h hs⟩, ?_, fun c hc ↦ by cases hc⟩
  · exact hasked.prepend hnew ht
  · rintro c - ⟨u, r, hu, hr, hur, hfrom, hshows⟩
    exact ⟨u, r, hu, hr, hur, ⟨hfrom.tracking, hfrom.userGroups, hfrom.userId, hfrom.username,
      hfrom.authQuality, hfrom.protoVersion⟩, hshows⟩

/-- The user completes the request of a gateway. -/
theorem filledFrom_completedByUser {h : Sessions} {new packet : Connection}
    (hpacket : Filed es packet) (hs : packet.state = .authreq) (hnew : .pushUserpckt new ∈ es)
    (ht : packet.tracking = new.tracking) :
    FilledFrom es new packet
      ⟨h, completedByUser new packet, some (copyOfUser new packet), false, [], []⟩ := by
  have hgateway := hpacket.gateway (by simp [hs])
  refine ⟨⟨fun _ ↦ hgateway, fun h ↦ by cases h⟩, fun c hc ↦ absurd (hs.symm.trans hc) (by simp),
    fun c hc ↦ ?_⟩
  obtain rfl := Option.some.inj hc
  obtain ⟨-, r, hr, hrt, hiface⟩ := hgateway
  exact ⟨new, r, hnew, hr, hrt.trans ht, ⟨ht, rfl, rfl, rfl, rfl, rfl⟩,
    ⟨rfl, rfl, rfl, rfl, rfl, rfl, hiface⟩⟩

/-- A gateway completes the packet of a user. -/
theorem filledFrom_completedByGateway {h : Sessions} {new packet : Connection}
    (hpacket : Filed es packet) (hs : packet.state = .userpckt) (hnew : .pushAuthreq new ∈ es)
    (ht : packet.tracking = new.tracking) :
    FilledFrom es new packet
      ⟨h, completedByGateway new packet, some (copyOfGateway new packet), false, [], []⟩ := by
  refine ⟨⟨fun _ ↦ ⟨fun p hp ↦ ⟨new, hnew, hp, ht.symm⟩, ⟨new, hnew, ht.symm, rfl⟩⟩,
      fun h ↦ by cases h⟩,
    fun c hc ↦ absurd (hs.symm.trans hc) (by simp), fun c hc ↦ ?_⟩
  obtain rfl := Option.some.inj hc
  exact ⟨packet, new, hpacket.user hs, hnew, ht.symm, ⟨rfl, rfl, rfl, rfl, rfl, rfl⟩,
    ⟨ht.symm, rfl, rfl, rfl, rfl, rfl, rfl⟩⟩

/-- `search_and_fill_update` on the pairs that can meet, except for the return of the ACLs. -/
theorem filledFrom_searchAndFillUpdate (host : Host) (h : Sessions) {new packet : Connection}
    (hqueued : Queued conf host w₀ es new) (hpacket : Filed es packet)
    (ht : packet.tracking = new.tracking)
    (hn : new.state = .authreq ∨ new.state = .userpckt)
    (hp : packet.state = .authreq ∨ packet.state = .userpckt ∨ packet.state = .completing) :
    FilledFrom es new packet (searchAndFillUpdate host h new packet) := by
  rcases hn with hn | hn
  · have hnew := hqueued.authreq hn
    rcases hp with hp | hp | hp
    · rw [searchAndFillUpdate_authreq_authreq host h hp hn]
      exact filledFrom_prepend hpacket (by simp [hp]) hnew ht
        ⟨new.tls, mergeNufwSession_snd h packet new⟩
    · rw [searchAndFillUpdate_userpckt_authreq host h hp hn]
      exact filledFrom_completedByGateway hpacket hp hnew ht
    · rw [searchAndFillUpdate_decided_authreq host h (Or.inl hp) hn]
      exact filledFrom_prepend hpacket (by simp [hp]) hnew ht ⟨packet.tls, rfl⟩
  · have hnew := hqueued.userpckt hn
    rcases hp with hp | hp | hp
    · rw [searchAndFillUpdate_authreq_userpckt host h hp hn]
      exact filledFrom_completedByUser hpacket hp hnew ht
    · rw [searchAndFillUpdate_userpckt host h (Or.inl hp) hn]
      exact filledFrom_keep hpacket
    · rw [searchAndFillUpdate_userpckt host h (Or.inr (Or.inl hp)) hn]
      exact filledFrom_keep hpacket

end

/-! ### The steps -/

section

variable {conf : Params} {host : Host} {w₀ w : World} {es : List Event}

/-- The ACLs are back: the entry leaves the hash, with a decision. -/
theorem Core.Inv.returned (hw : Core.Inv w) {new : Connection} {queue : List Connection}
    (hq : w.connectionsQueue = new :: queue) (hn : new.state = .completing) (log : Logger)
    (now : Int) :
    ∃ packet l₁ l₂ h workers answers, w.connList = l₁ ++ packet :: l₂ ∧
      packet.tracking = new.tracking ∧ packet.state = .completing ∧
      { w with connectionsQueue := queue }.searchAndFill conf host log now new =
        { w with
          sessions := h
          connectionsQueue := queue
          connList := l₁ ++ l₂
          decisionsWorkers := w.decisionsWorkers ++ workers
          answers := w.answers ++ answers } ∧
      let decided := decidedElement conf now
        { packet with aclGroups := new.aclGroups, state := .ready }
      (∀ d ∈ workers, d = decided) ∧ ∀ a ∈ answers, a.Reports decided := by
  have hnew := hw.queue new (by simp [hq])
  obtain ⟨e, he, hes, het⟩ := hw.exists_entry (c := new) (Or.inr (by simp [hq])) hn
  rw [World.searchAndFill]
  dsimp only
  cases hfind : w.connList.find? (hasKey host.order new.tracking) with
  | none =>
    exact absurd ((hw.tracking_of_hasKey hnew he).2 het) (List.find?_eq_none.1 hfind e he)
  | some packet =>
    obtain ⟨l₁, l₂, hlist, hkey, hnot⟩ := exists_split_of_find? hfind
    have hmem : packet ∈ w.connList := by simp [hlist]
    have ht := (hw.tracking_of_hasKey hnew hmem).1 hkey
    have hp : packet.state = .completing := by
      rw [hw.eq_of_tracking hmem he (ht.trans het.symm), hes]
    dsimp only
    rw [searchAndFillUpdate_completing_completing host w.sessions hp hn]
    dsimp only
    rw [if_pos rfl, hlist, updateFirst_split hnot hkey, Option.toList_none, List.append_nil,
      List.append_nil, List.append_nil]
    have hcanonical := (hw.entries packet hmem).canonical
    have hself : hasKey host.order packet.tracking packet = true :=
      (hasKey_iff hcanonical hcanonical).2 rfl
    have hnot' : ∀ c ∈ l₁, hasKey host.order packet.tracking c = false := by
      rw [ht]
      exact hnot
    obtain ⟨h, workers, answers, htake, hrest⟩ := World.takeDecision_reports conf host log now
      { packet with aclGroups := new.aclGroups, state := .ready }
      (w := { w with
        connectionsQueue := queue
        connList := l₁ ++ { packet with aclGroups := new.aclGroups, state := .ready } :: l₂ })
      rfl hself hnot' (by simp)
    exact ⟨packet, l₁, l₂, h, workers, answers, rfl, ht, hp, htake, hrest⟩

/-- What was decided on an entry whose ACLs are back: an ACCEPT is allowed. -/
theorem allowed_of_returned {new packet : Connection} {log : Logger} {now : Int}
    (hqueued : Queued conf host w₀ es new) (hn : new.state = .completing)
    (hhalves : HalvesOf es packet new) (hnow : .searchAndFill log now ∈ es)
    (haccept : (decidedElement conf now
      { packet with aclGroups := new.aclGroups, state := .ready }).decision = .accept) :
    Allowed conf host w₀ es packet.tracking := by
  obtain ⟨copy, acls, hlooked, rfl⟩ := hqueued.copy hn
  obtain ⟨u, r, hu, hr, hur, hfrom, hshows⟩ := hhalves
  obtain ⟨a, hmem, hanswer, hperiod, hquality, hnames⟩ := exists_acl_of_accept haccept
  refine ⟨u, r, copy, acls, log, now, a, hu, hr, hfrom.tracking.symm,
    hur.trans hfrom.tracking.symm, ⟨hshows.tracking, hshows.appName, hshows.appSig,
      hshows.osSysname, hshows.osRelease, hshows.osVersion, hshows.ifaceNfo⟩, hlooked, hnow, hmem,
    hanswer, ?_, ?_, hperiod⟩
  · rw [AclGroup.names, ← hfrom.userId, ← hfrom.userGroups]
    exact hnames
  · rw [AclGroup.tooStrict, ← hfrom.authQuality]
    exact hquality

/-- No other entry has the tracking of an entry. -/
theorem keys_notMem {l₁ l₂ : List Connection} {c : Connection}
    (h : ((l₁ ++ c :: l₂).map Connection.tracking).Nodup) :
    c.tracking ∉ (l₁ ++ l₂).map Connection.tracking := by
  rw [(List.perm_middle.map Connection.tracking).nodup_iff, List.map_cons, List.nodup_cons] at h
  exact h.1

/-- The copies that were on their way before an entry was filled. -/
theorem Provenance.copies_replaced (hp : Provenance conf host w₀ es w) (hw : Core.Inv w)
    {packet packet' c e : Connection} {l₁ l₂ : List Connection}
    (hlist : w.connList = l₁ ++ packet :: l₂) (ht : packet'.tracking = packet.tracking)
    (hkeeps : ∀ c, packet.state = .completing → HalvesOf es packet c → HalvesOf es packet' c)
    (hc : c ∈ w.aclCheckers ∨ c ∈ w.connectionsQueue) (hs : c.state = .completing)
    (he : e = packet' ∨ e ∈ l₁ ++ l₂) (hct : e.tracking = c.tracking) : HalvesOf es e c := by
  rcases he with rfl | he
  · have hmem : packet ∈ w.connList := by simp [hlist]
    obtain ⟨e', he', hes', het'⟩ := hw.exists_entry hc hs
    obtain rfl : packet = e' := hw.eq_of_tracking hmem he' (ht.symm.trans (hct.trans het'.symm))
    exact hkeeps c hes' (hp.copies c hc hs packet hmem het')
  · exact hp.copies c hc hs e (mem_of_split hlist he) hct

/-- **An iteration of `search_and_fill`.** -/
theorem Provenance.searched (hp : Provenance conf host w₀ es w) (hw : Core.Inv w)
    {new : Connection} {queue : List Connection} (hq : w.connectionsQueue = new :: queue)
    {log : Logger} {now : Int} (hnow : .searchAndFill log now ∈ es) :
    Provenance conf host w₀ es
      ({ w with connectionsQueue := queue }.searchAndFill conf host log now new) := by
  have hnewmem : new ∈ w.connectionsQueue := by simp [hq]
  have hnew := hp.queue new hnewmem
  have hqueue : ∀ c ∈ queue, c ∈ w.connectionsQueue := fun c hc ↦ by simp [hq, hc]
  by_cases hn : new.state = .completing
  · -- the entry goes, and what was decided on it has the provenance of the pair
    obtain ⟨packet, l₁, l₂, h, workers, answers, hlist, ht, hps, heq, hworkers, hanswers⟩ :=
      @Core.Inv.returned conf host w hw new queue hq hn log now
    have hmem : packet ∈ w.connList := by simp [hlist]
    have hhalves := hp.copies new (Or.inr hnewmem) hn packet hmem ht
    obtain ⟨hasked, -⟩ := (hp.entries packet hmem).gateway (by simp [hps])
    obtain ⟨hid, htracking, -⟩ := decidedElement_request conf now
      { packet with aclGroups := new.aclGroups, state := .ready }
    have hallowed := allowed_of_returned hnew hn hhalves hnow
    rw [heq]
    refine ⟨fun c hc ↦ hp.queue c (hqueue c hc), fun e he ↦ hp.entries e (mem_of_split hlist he),
      fun c hc hs e he ↦ hp.copies c (hc.imp_right (hqueue c)) hs e (mem_of_split hlist he),
      fun d hd ↦ ?_, fun a ha haccept ↦ ?_⟩
    · rcases List.mem_append.1 hd with hd | hd
      · exact hp.workers d hd
      · rw [hworkers d hd]
        refine ⟨fun p hp ↦ ?_, fun haccept ↦ ?_⟩
        · rw [hid] at hp
          rw [htracking]
          exact hasked p hp
        · rw [htracking]
          exact hallowed haccept
    · rcases List.mem_append.1 ha with ha | ha
      · exact hp.answers a ha haccept
      · obtain ⟨hpacket, hdecision, hidentifies⟩ := hanswers a ha
        rw [hid] at hpacket
        obtain ⟨r, hr, hrp, hrt⟩ := hasked a.packetId hpacket
        exact ⟨hidentifies, r, hr, hrp, hrt ▸ hallowed (hdecision haccept)⟩
  · have hstate : new.state = .authreq ∨ new.state = .userpckt := by
      rcases (hw.queue new hnewmem).state with hs | hs | hs
      · exact Or.inl hs
      · exact Or.inr hs
      · exact absurd hs hn
    obtain hsearched := searched_of_inv conf host log now hw hq
    generalize { w with connectionsQueue := queue }.searchAndFill conf host log now new = w'
      at hsearched
    cases hsearched with
    | insert hnone q =>
      refine ⟨fun c hc ↦ hp.queue c (hqueue c hc), fun e he ↦ ?_, fun c hc hs e he ht ↦ ?_,
        hp.workers, hp.answers⟩
      · rcases List.mem_cons.1 he with rfl | he
        · refine ⟨fun hs ↦ ?_, hnew.userpckt⟩
          have hpushed := hnew.authreq (hstate.resolve_right hs)
          exact ⟨fun p hp ↦ ⟨e, hpushed, hp, rfl⟩, e, hpushed, rfl, rfl⟩
        · exact hp.entries e he
      · have hc' := hc.imp_right (hqueue c)
        rcases List.mem_cons.1 he with rfl | he
        · -- a copy on its way has another entry with this tracking
          obtain ⟨e', he', -, het'⟩ := hw.exists_entry hc' hs
          exact absurd (het'.trans ht.symm) (hnone e' he')
        · exact hp.copies c hc' hs e he ht
    | fill packet l₁ l₂ f hfind hlist ht hf hwell hdecide =>
      have hmem : packet ∈ w.connList := by simp [hlist]
      have hpstate := (hw.entries packet hmem).state
      obtain ⟨hfiled, hkeeps, hchecked⟩ := hf ▸ filledFrom_searchAndFillUpdate host w.sessions hnew
        (hp.entries packet hmem) ht hstate hpstate
      refine ⟨fun c hc ↦ hp.queue c (hqueue c hc), fun e he ↦ ?_, fun c hc hs e he hct ↦ ?_,
        hp.workers, hp.answers⟩
      · rcases List.mem_cons.1 (List.perm_middle.mem_iff.1 he) with rfl | he
        · exact hfiled
        · exact hp.entries e (mem_of_split hlist he)
      · have hsplit := List.mem_cons.1 (List.perm_middle.mem_iff.1 he)
        rcases or_assoc.1 (hc.imp_left List.mem_append.1) with hold | hcheck | hold
        · exact hp.copies_replaced hw hlist hwell.tracking hkeeps (Or.inl hold) hs hsplit hct
        · have hcheck' : c ∈ f.checked := Option.mem_toList.1 hcheck
          rcases hsplit with rfl | he
          · exact hchecked c hcheck'
          · -- no other entry has the tracking of the new copy
            have hpt : e.tracking = packet.tracking :=
              hct.trans ((hwell.checked c hcheck').2.trans ht.symm)
            exact absurd (List.mem_map.2 ⟨e, he, hpt⟩) (keys_notMem (hlist ▸ hw.keys))
        · exact hp.copies_replaced hw hlist hwell.tracking hkeeps (Or.inr (hqueue c hold)) hs
            hsplit hct
    | later packet decided l₁ l₂ hlist ht hn' => exact absurd hn' hn
    | now packet l₁ l₂ h answers hlist ht hn' => exact absurd hn' hn

/-- **Cleaning** accepts nothing. -/
theorem Provenance.cleaned (hp : Provenance conf host w₀ es w) (hw : Core.Inv w) (log : Logger)
    (clock : Connection → Int) :
    Provenance conf host w₀ es (w.cleanConnectionsList conf host log clock) := by
  obtain ⟨old, rest, h, answers, heq, hperm, -⟩ := hw.cleaned conf host log clock
  have hreports : ∀ a ∈ (w.cleanConnectionsList conf host log clock).answers,
      a.Accepts → a ∈ w.answers := by
    rw [World.cleanConnectionsList]
    dsimp only
    obtain ⟨h', answers', heq', hnot⟩ := rejectOldConns_reports conf host log
      (stealOldConns host.order _ w.connList []).2.1
      { w with
        connList := (stealOldConns host.order _ w.connList []).1
        warnings := w.warnings ++ (stealOldConns host.order _ w.connList []).2.2 }
    rw [heq']
    intro a ha haccept
    rcases List.mem_append.1 ha with ha | ha
    · exact ha
    · exact absurd haccept (hnot a ha)
  rw [heq] at hreports ⊢
  have hrest : ∀ e ∈ rest, e ∈ w.connList := fun e he ↦
    hperm.mem_iff.2 (List.mem_append_right _ he)
  exact ⟨hp.queue, fun e he ↦ hp.entries e (hrest e he),
    fun c hc hs e he ↦ hp.copies c hc hs e (hrest e he), hp.workers,
    fun a ha haccept ↦ hp.answers a (hreports a ha haccept) haccept⟩

/-- **Every event keeps the provenance.** -/
theorem Provenance.step {e : Event} (hp : Provenance conf host w₀ es ((core conf host).run w₀ es))
    (hw : Core.Inv ((core conf host).run w₀ es)) (he : ((core conf host).run w₀ es).enabled e) :
    Provenance conf host w₀ (es ++ [e]) (((core conf host).run w₀ es).step conf host e) := by
  have hlast : e ∈ es ++ [e] := List.mem_append_right _ (List.mem_singleton.2 rfl)
  have hp' := hp.mono [e]
  cases e with
  | pushAuthreq conn =>
    refine ⟨fun c hc ↦ ?_, hp'.entries, fun c hc hs ↦ hp'.copies c ?_ hs, hp'.workers, hp'.answers⟩
    · rcases List.mem_append.1 hc with hc | hc
      · exact hp'.queue c hc
      · obtain rfl := List.mem_singleton.1 hc
        have hs := he.1.state
        exact ⟨fun _ ↦ hlast, fun h ↦ absurd (hs.symm.trans h) (by simp),
          fun h ↦ absurd (hs.symm.trans h) (by simp)⟩
    · refine hc.imp_right fun hc ↦ (List.mem_append.1 hc).resolve_right fun hc ↦ ?_
      obtain rfl := List.mem_singleton.1 hc
      exact absurd (he.1.state.symm.trans hs) (by simp)
  | pushUserpckt conn =>
    refine ⟨fun c hc ↦ ?_, hp'.entries, fun c hc hs ↦ hp'.copies c ?_ hs, hp'.workers, hp'.answers⟩
    · rcases List.mem_append.1 hc with hc | hc
      · exact hp'.queue c hc
      · obtain rfl := List.mem_singleton.1 hc
        have hs : c.state = .userpckt := UserpcktConn.state he
        exact ⟨fun h ↦ absurd (hs.symm.trans h) (by simp), fun _ ↦ hlast,
          fun h ↦ absurd (hs.symm.trans h) (by simp)⟩
    · refine hc.imp_right fun hc ↦ (List.mem_append.1 hc).resolve_right fun hc ↦ ?_
      obtain rfl := List.mem_singleton.1 hc
      exact absurd ((UserpcktConn.state he).symm.trans hs) (by simp)
  | searchAndFill log now =>
    rw [World.step]
    cases hq : ((core conf host).run w₀ es).connectionsQueue with
    | nil => exact absurd hq he
    | cons new queue => exact hp'.searched hw hq hlast
  | aclCheckAndDecide i acls =>
    rw [World.step]
    cases hi : ((core conf host).run w₀ es).aclCheckers[i]? with
    | none => exact absurd (List.getElem?_eq_none_iff.1 hi) (Nat.not_le.2 he)
    | some element =>
      have hmem := List.mem_of_getElem? hi
      have helement := hw.checkers element hmem
      show Provenance conf host w₀ _ (World.aclCheckAndDecide conf acls element
        { (core conf host).run w₀ es with
          aclCheckers := ((core conf host).run w₀ es).aclCheckers.eraseIdx i })
      rw [World.aclCheckAndDecide, if_pos helement.state]
      refine ⟨fun c hc ↦ ?_, hp'.entries, fun c hc hs e he ht ↦ ?_, hp'.workers, hp'.answers⟩
      · rcases List.mem_append.1 hc with hc | hc
        · exact hp'.queue c hc
        · obtain rfl := List.mem_singleton.1 hc
          exact ⟨fun h ↦ absurd (helement.state.symm.trans h) (by simp),
            fun h ↦ absurd (helement.state.symm.trans h) (by simp),
            fun _ ↦ ⟨element, acls, ⟨es, i, [], rfl, hi⟩, rfl⟩⟩
      · rcases or_assoc.2 (hc.imp_right List.mem_append.1) with hc | hc
        · exact hp'.copies c (hc.imp_left List.mem_of_mem_eraseIdx) hs e he ht
        · -- the copy with its ACLs is still the copy of its entry
          obtain rfl := List.mem_singleton.1 hc
          obtain ⟨u, r, hu, hr, hur, hfrom, hshows⟩ :=
            hp'.copies element (Or.inl hmem) helement.state e he ht
          exact ⟨u, r, hu, hr, hur, hfrom, ⟨hshows.tracking, hshows.appName, hshows.appSig,
            hshows.osSysname, hshows.osRelease, hshows.osVersion, hshows.ifaceNfo⟩⟩
  | cleanConnectionsList log clock => exact hp'.cleaned hw log clock
  | decisionsQueueWork i log =>
    rw [World.step]
    cases hi : ((core conf host).run w₀ es).decisionsWorkers[i]? with
    | none => exact absurd (List.getElem?_eq_none_iff.1 hi) (Nat.not_le.2 he)
    | some element =>
      have hmem := List.mem_of_getElem? hi
      have helement : element.state ≠ .userpckt := by simp [(hw.workers element hmem).state]
      obtain ⟨h, answers, happly, hreports⟩ := World.applyDecision_reports conf host log helement
        { (core conf host).run w₀ es with
          decisionsWorkers := ((core conf host).run w₀ es).decisionsWorkers.eraseIdx i }
      show Provenance conf host w₀ _ (World.decisionsQueueWork conf host log element
        { (core conf host).run w₀ es with
          decisionsWorkers := ((core conf host).run w₀ es).decisionsWorkers.eraseIdx i })
      rw [World.decisionsQueueWork, happly]
      refine ⟨hp'.queue, hp'.entries, hp'.copies,
        fun d hd ↦ hp'.workers d (List.mem_of_mem_eraseIdx hd), fun a ha haccept ↦ ?_⟩
      rcases List.mem_append.1 ha with ha | ha
      · exact hp'.answers a ha haccept
      · obtain ⟨hpacket, hdecision, hidentifies⟩ := hreports a ha
        obtain ⟨hasked, hallowed⟩ := hp'.workers element hmem
        obtain ⟨r, hr, hrp, hrt⟩ := hasked a.packetId hpacket
        exact ⟨hidentifies, r, hr, hrp, hrt ▸ hallowed (hdecision haccept)⟩
  | sessions h => exact ⟨hp'.queue, hp'.entries, hp'.copies, hp'.workers, hp'.answers⟩

/-- The provenance along a run. -/
theorem provenance_of_path {h : Sessions}
    (hpath : (core conf host).Path (fun _ _ ↦ True) (World.start h) es) :
    Provenance conf host (World.start h) es ((core conf host).run (World.start h) es) := by
  have hinv := hpath.history
    (I := fun es w ↦ w = (core conf host).run (World.start h) es ∧ Core.Inv w ∧
      Provenance conf host (World.start h) es w) ?_ ?_
  · exact hinv.2.2
  · refine ⟨rfl, Core.Inv.start h, ?_, ?_, ?_, ?_, ?_⟩
    · exact fun c hc ↦ by cases hc
    · exact fun c hc ↦ by cases hc
    · exact fun c _ _ e he ↦ by cases he
    · exact fun c hc ↦ by cases hc
    · exact fun c hc ↦ by cases hc
  · rintro es e - ⟨-, hw, hp⟩ he -
    exact ⟨((core conf host).run_concat _ _ _).symm, hw.step conf host he, hp.step hw he⟩

end

/-- **No packet is accepted without a user.** In every run, from nothing, with connections, ACLs
found, decisions, timeouts and changes of the sessions in any order: when a gateway is told to
accept a packet, some gateway has asked about that identifier, a user has announced the tracking of
that request, and among the ACLs that the checkers found for the application and the system
announced in the same packet of the same user there is one that accepts this user at the time of the
decision. -/
theorem accept_only_allowed {conf : Params} {host : Host} {h : Sessions} {es : List Event}
    (hpath : (core conf host).Path (fun _ _ ↦ True) (World.start h) es) :
    ∀ a ∈ ((core conf host).run (World.start h) es).answers, a.Accepts →
      ∃ r, Event.pushAuthreq r ∈ es ∧ a.packetId ∈ r.packetId ∧
        Allowed conf host (World.start h) es r.tracking :=
  fun a ha haccept ↦ ((provenance_of_path hpath).answers a ha haccept).2

/-- The run of a connection that is accepted: the request and the packet of the user meet, the ACLs
are found, and the decision is applied. -/
def acceptedRun : List Event :=
  [.pushAuthreq (Connection.request 1 0 6), .pushUserpckt (Connection.userPacket 7),
    .searchAndFill Logger.sample 0, .searchAndFill Logger.sample 0,
    .aclCheckAndDecide 0 [some (AclGroup.forUser 7 .accept)], .searchAndFill Logger.sample 0,
    .decisionsQueueWork 0 Logger.sample]

/-- The user of the accepted connection is the one that the ACL names. -/
theorem accept_of_acceptedRun :
    let w := (core Params.default Host.sample).run (World.start fun _ ↦ NufwSession.new) acceptedRun
    w.answers.map (fun a ↦ (a.packetId.id, decide a.Accepts)) = [(1, true)] ∧
      Allowed Params.default Host.sample (World.start fun _ ↦ NufwSession.new) acceptedRun
        Tracking.sample := by
  intro w
  have hpath : (core Params.default Host.sample).Path (fun _ _ ↦ True)
      (World.start fun _ ↦ NufwSession.new) acceptedRun :=
    ⟨⟨Connection.request_authreqConn 1 0 (by decide), by simp [World.start]⟩, trivial,
      Connection.userPacket_userpcktConn 7, trivial, List.cons_ne_nil _ _, trivial,
      List.cons_ne_nil _ _, trivial, Nat.zero_lt_succ _, trivial, List.cons_ne_nil _ _, trivial,
      Nat.zero_lt_succ _, trivial, trivial⟩
  have hanswers : w.answers.map (fun a ↦ (a.packetId.id, decide a.Accepts)) = [(1, true)] := by
    decide +kernel
  refine ⟨hanswers, ?_⟩
  obtain ⟨a, ha, heq⟩ := List.map_eq_singleton_iff.1 hanswers
  have hmem : a ∈ w.answers := ha ▸ List.mem_singleton_self a
  obtain ⟨r, hr, -, hallowed⟩ := accept_only_allowed hpath a hmem
    (of_decide_eq_true (Prod.mk.inj heq).2)
  have hrequest : r.tracking = Tracking.sample := by
    simp only [acceptedRun, List.mem_cons, Event.pushAuthreq.injEq, reduceCtorEq,
      List.not_mem_nil, or_false] at hr
    rw [hr]
    rfl
  exact hrequest ▸ hallowed

end Nufw
