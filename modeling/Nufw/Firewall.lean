import Nufw.Nuauth.Arrivals
import Nufw.Nuauth.Provenance
import Nufw.Nuauth.Routing
import Nufw.Nufw.Accepted
import Nufw.Nufw.DecodedRequests

/-!
# The firewall

The gateways, the authentication server and the clients together. A gateway writes its requests on
its session, the server decodes them and takes what its users send, and its answers go back on the
session of a connection. What has been written may be read at any later time, in any order, or
never; a request is read once. The threads of the server, the packets of the kernel and the clients
take turns in any way.

The result is about packets and users: what a gateway accepts, and does not belong to a connection
that is there already, is a packet of a connection that a user has announced on an authenticated
session and that an ACL allows to this user. It composes what is known of the two programs: an
ACCEPT verdict comes from an answer (`letsThrough_exec`), an answer that accepts has its provenance
(`Provenance`), a request names its packet (`authpcktDecode_identifies`), the answer goes where the
request came from (`Routing`), and what the server takes for the packet of a user is one
(`userCheckAndDecide_userpcktConn`).

The server of the source may fold a request into an entry that another gateway has opened, and then
answers on the wrong session: an identifier of one gateway is taken by another one for its own. So
the steps are asked not to do this (`NoForeignFold`), which they never do when there is one gateway.
-/

namespace Nufw

/-! ### Packets and messages -/

/-- A packet that `treat_packet` makes of what the library tells. -/
structure NfqData.Makes (nfa : NfqData) (pckt : QueuedPckt) : Prop where
  payload : nfa.payload = some (pckt.payload, pckt.payloadLen)
  packetId : nfa.packetId = some pckt.packetId

/-- The tracking is the one of the packet. -/
def NfqData.HasTracking (nfa : NfqData) (t : Tracking) : Prop :=
  ∃ payload payloadLen, nfa.payload = some (payload, payloadLen) ∧ TrackingOf payload payloadLen t

/-- The message asks about the packet. -/
def AsksAbout (order : ByteOrder) (nfa : NfqData) (message : Bytes) : Prop :=
  ∃ type pckt, nfa.Makes pckt ∧ authRequestMessage order type pckt = some message

theorem mem_authRequestSend {order : ByteOrder} {writable : Bool} {type : UInt8}
    {pckt : QueuedPckt} {message : Bytes}
    (h : message ∈ (authRequestSend order writable type pckt).2) :
    authRequestMessage order type pckt = some message := by
  rw [authRequestSend] at h
  cases hm : authRequestMessage order type pckt with
  | none =>
    rw [hm] at h
    cases h
  | some message' =>
    rw [hm] at h
    dsimp only at h
    split_ifs at h
    · rw [List.mem_singleton.1 h]
    · cases h

/-- What `treat_packet` writes asks about its packet. -/
theorem PacketsList.asksAbout_treatPacket {order : ByteOrder} {params : GatewayParams}
    {clock : TreatClock} {writable ret : Bool} {a fuel : ℕ} {l l' : PacketsList} {nfa : NfqData}
    {written : List Bytes} {calls : List NfqCall}
    (h : l.treatPacket order params clock writable a fuel nfa = some (ret, l', written, calls)) :
    ∀ message ∈ written, AsksAbout order nfa message := by
  rw [treatPacket] at h
  split at h
  · next payload payloadLen indev physindev outdev physoutdev packetId hpayload hifaces hid =>
    dsimp only at h
    split_ifs at h with hflags
    · obtain ⟨-, -, rfl, -⟩ := h
      exact fun message hmem ↦ ⟨_, _, ⟨hpayload, hid⟩, mem_authRequestSend hmem⟩
    · obtain ⟨r, hask, heq⟩ := Option.map_eq_some_iff.1 h
      obtain ⟨-, rfl⟩ := heq
      rw [askAuthentication] at hask
      split at hask
      · cases hask
      · obtain ⟨-, rfl, -⟩ := hask
        exact fun message hmem ↦ absurd hmem List.not_mem_nil
      · split at hask
        · next hsend =>
          obtain ⟨-, rfl, -⟩ := hask
          exact fun message hmem ↦ ⟨_, _, ⟨hpayload, hid⟩,
            mem_authRequestSend (by rw [hsend]; exact hmem)⟩
        · next hsend =>
          obtain ⟨r', -, heq⟩ := Option.map_eq_some_iff.1 hask
          obtain ⟨-, rfl, -⟩ := heq
          exact fun message hmem ↦ ⟨_, _, ⟨hpayload, hid⟩,
            mem_authRequestSend (by rw [hsend]; exact hmem)⟩
  · obtain ⟨-, -, rfl, -⟩ := h
    exact fun message hmem ↦ absurd hmem List.not_mem_nil

/-! ### The parties -/

/-- The gateways, one for each session, what they have written, and the server. -/
structure Firewall where
  gateways : SessionId → GatewayRun
  requests : SessionId → List Bytes
  world : World

/-- What the threads of the server do by themselves. -/
def Event.Internal : Event → Prop
  | .pushAuthreq _ => False
  | .pushUserpckt _ => False
  | _ => True

/-- What can happen. -/
inductive FirewallEvent where
  /-- The kernel queues a packet at a gateway. -/
  | packet (s : SessionId) (fuel : ℕ) (clock : PacketsList.TreatClock) (writable : Bool) (a : ℕ)
      (nfa : NfqData)
  /-- The server decodes a request. -/
  | request (s : SessionId) (conn : Connection)
  /-- The server takes a connection from what a client has sent. -/
  | user (session : UserSession) (conn : Connection)
  | core (e : Event) (h : e.Internal)
  /-- A gateway reads an answer, into memory. -/
  | answer (s : SessionId) (fuel : ℕ) (now : Int) (a : Answer) (dgram : Memory)
  | clean (s : SessionId) (fuel : ℕ) (now : Int)

/-- What the event is for the server. -/
def FirewallEvent.coreEvent : FirewallEvent → Option Event
  | .request _ conn => some (.pushAuthreq conn)
  | .user _ conn => some (.pushUserpckt conn)
  | .core e _ => some e
  | _ => none

/-- What the events are for the server. -/
def coreEvents (es : List FirewallEvent) : List Event := es.filterMap FirewallEvent.coreEvent

/-- What the event is for a gateway: `auth_packet_to_decision` takes the answers of the current
protocol. -/
def FirewallEvent.gatewayEvent : FirewallEvent → Option (SessionId × ℕ × GatewayEvent)
  | .packet s fuel clock writable a nfa => some (s, fuel, .treatPacket clock writable a nfa)
  | .answer s fuel now a dgram =>
    if dgram 0 = UInt8.ofNat protoVersionNufwV24 ∧ dgram 1 = authAnswer then
      some (s, fuel, .authProcessAnswer now dgram a.message.length)
    else none
  | .clean s fuel now => some (s, fuel, .cleanOldPackets now)
  | _ => none

section

variable (conf : Params) (host : Host) (env : SessionId → GatewayEnv)

/-- What the gateway of the event writes. -/
def Firewall.written (fw : Firewall) : FirewallEvent → Option (SessionId × List Bytes)
  | .packet s fuel clock writable a nfa =>
    ((fw.gateways s).packetsList.treatPacket (env s).host.order (env s).params clock writable a
      fuel nfa).map fun r ↦ (s, r.2.2.1)
  | _ => none

/-- What the event does. -/
def Firewall.step (fw : Firewall) (e : FirewallEvent) : Firewall where
  gateways :=
    match e.gatewayEvent with
    | some (s, fuel, d) =>
      Function.update fw.gateways s (((fw.gateways s).exec (env s) fuel d).getD (fw.gateways s))
    | none => fw.gateways
  requests :=
    match fw.written env e with
    | some (s, written) => Function.update fw.requests s (fw.requests s ++ written)
    | none => fw.requests
  world :=
    match e.coreEvent with
    | some d => fw.world.step conf host d
    | none => fw.world

/-- The event can happen. -/
def Firewall.enabled (fw : Firewall) : FirewallEvent → Prop
  | .packet s fuel clock writable a nfa =>
    (gatewayMachine (env s)).enabled (fw.gateways s) (fuel, .treatPacket clock writable a nfa)
  | .request s conn => ∃ message ∈ fw.requests s, ∃ fuel localid now m d c,
    m.Holds 0 message ∧ authpcktDecode fuel conf localid now m message.length = some d ∧
      d.new.Produces c ∧ c.state = .authreq ∧ conn = c.ofSession s ∧
      ∀ p ∈ conn.packetId, p ∉ fw.world.received
  | .user session conn => ∃ env clock fuel now reads heap r,
    userCheckAndDecide conf env clock fuel now reads heap session = some r ∧
      conn ∈ r.connectionsQueue
  | .core e _ => fw.world.enabled e
  | .answer s fuel now a dgram => a ∈ fw.world.answers ∧ a.session = some s ∧
    dgram.Holds 0 a.message ∧ (gatewayMachine (env s)).enabled (fw.gateways s)
      (fuel, .authProcessAnswer now dgram a.message.length)
  | .clean s fuel now =>
    (gatewayMachine (env s)).enabled (fw.gateways s) (fuel, .cleanOldPackets now)

/-- Nothing has happened yet. -/
def Firewall.start (h : Sessions) : Firewall :=
  ⟨fun _ ↦ ⟨.empty, [], [], []⟩, fun _ ↦ [], World.start h⟩

/-- No request is folded into an entry of another gateway. -/
def Firewall.KeepsApart (fw : Firewall) (e : FirewallEvent) : Prop :=
  ∀ d ∈ e.coreEvent, NoForeignFold host fw.world d

/-- The packet was queued at the gateway. -/
def QueuedAt (es : List FirewallEvent) (s : SessionId) (nfa : NfqData) : Prop :=
  ∃ fuel clock writable a, FirewallEvent.packet s fuel clock writable a nfa ∈ es

/-- **A user has opened the connection.** The packet `u` came on an authenticated session and
announces the tracking; `copy` shows the application and the system of `u`, and among the ACLs that
the checkers found for it there is one that accepts the user of the session. -/
def OpenedByUser (h : Sessions) (es : List FirewallEvent) (t : Tracking) : Prop :=
  ∃ session u r copy acls now a, FirewallEvent.user session u ∈ es ∧ OfUserSession session u ∧
    u.tracking = t ∧ Shows u r copy ∧
    LookedUp conf host (World.start h) (coreEvents es) copy acls ∧ some a ∈ acls ∧
    a.answer = .accept ∧ a.names conf u = true ∧ a.authQuality ≤ session.authQuality ∧
    a.inPeriod conf now = true

/-- Why a gateway lets a packet through. -/
def Justified (h : Sessions) (es : List FirewallEvent) (s : SessionId) (id : UInt32) : Prop :=
  ∃ nfa, QueuedAt es s nfa ∧ nfa.packetId = some id ∧
    (nfa.Control ∨ ∃ t, nfa.HasTracking t ∧ OpenedByUser conf host h es t)

end

/-! ### The past does not change -/

theorem coreEvents_append (es es' : List FirewallEvent) :
    coreEvents (es ++ es') = coreEvents es ++ coreEvents es' := List.filterMap_append

section

variable {conf : Params} {host : Host} {env : SessionId → GatewayEnv} {h : Sessions}
  {es : List FirewallEvent} {fw : Firewall} {s : SessionId}

theorem QueuedAt.mono {nfa : NfqData} (hq : QueuedAt es s nfa) (es' : List FirewallEvent) :
    QueuedAt (es ++ es') s nfa := by
  obtain ⟨fuel, clock, writable, a, hmem⟩ := hq
  exact ⟨fuel, clock, writable, a, List.mem_append_left _ hmem⟩

theorem OpenedByUser.mono {t : Tracking} (ho : OpenedByUser conf host h es t)
    (es' : List FirewallEvent) : OpenedByUser conf host h (es ++ es') t := by
  obtain ⟨session, u, r, copy, acls, now, a, hu, hsession, ht, hshows, hlooked, hrest⟩ := ho
  refine ⟨session, u, r, copy, acls, now, a, List.mem_append_left _ hu, hsession, ht, hshows, ?_,
    hrest⟩
  rw [coreEvents_append]
  exact hlooked.mono _

theorem Justified.mono {id : UInt32} (hj : Justified conf host h es s id)
    (es' : List FirewallEvent) : Justified conf host h (es ++ es') s id := by
  obtain ⟨nfa, hq, hid, hcase⟩ := hj
  refine ⟨nfa, hq.mono es', hid, hcase.imp_right ?_⟩
  rintro ⟨t, ht, hopened⟩
  exact ⟨t, ht, hopened.mono es'⟩

/-! ### What holds along a run -/

variable (conf host env h)

/-- The steps of the server in a run of the firewall. -/
def ServerStep (w : World) (e : Event) : Prop :=
  FromGateway (fun _ ↦ protoVersionNufwV24) e ∧ NoForeignFold host w e

/-- **The invariant of the firewall**, with the events that led to the state. -/
structure Firewall.Traced (es : List FirewallEvent) (fw : Firewall) : Prop where
  path : (core conf host).Path (ServerStep host) (World.start h) (coreEvents es)
  world : fw.world = (core conf host).run (World.start h) (coreEvents es)
  requests : ∀ s, ∀ message ∈ fw.requests s,
    ∃ nfa, QueuedAt es s nfa ∧ AsksAbout (env s).host.order nfa message
  asked : ∀ s conn, .request s conn ∈ es → ∃ nfa id, QueuedAt es s nfa ∧ nfa.packetId = some id ∧
    conn.packetId = [⟨id, some s⟩] ∧ nfa.HasTracking conn.tracking
  users : ∀ session conn, .user session conn ∈ es → OfUserSession session conn
  calls : ∀ s, ∀ call ∈ (fw.gateways s).calls, call.Accepts →
    Justified conf host h es s call.packetId

variable {conf host env h}

/-- The server routes its answers. -/
theorem routing_of_path {es : List Event}
    (hpath : (core conf host).Path (ServerStep host) (World.start h) es) :
    Routing (fun _ ↦ protoVersionNufwV24) ((core conf host).run (World.start h) es) := by
  have hinv := (Machine.reach_run (core conf host) ⟨h, rfl⟩ es hpath).invariant
    (I := fun w ↦ Core.Inv w ∧ Routing (fun _ ↦ protoVersionNufwV24) w) ?_ ?_
  · exact hinv.2
  · rintro w ⟨h, rfl⟩
    refine ⟨Core.Inv.start h, ?_, ?_, ?_, ?_⟩ <;> intro c hc <;> cases hc
  · rintro w e ⟨hw, hr⟩ he ⟨hfrom, hfold⟩
    exact ⟨hw.step conf host he, hr.step hw conf host he hfrom hfold⟩

/-- A request of the server was decoded by an event. -/
theorem mem_of_pushAuthreq {r : Connection} (hr : .pushAuthreq r ∈ coreEvents es) :
    ∃ s, .request s r ∈ es := by
  obtain ⟨e, he, heq⟩ := List.mem_filterMap.1 hr
  cases e with
  | request s conn =>
    obtain rfl := Event.pushAuthreq.inj (Option.some.inj heq)
    exact ⟨s, he⟩
  | user session conn => cases heq
  | core e hi =>
    obtain rfl := Option.some.inj heq
    exact absurd hi id
  | packet s fuel clock writable a nfa => cases heq
  | answer s fuel now a dgram => cases heq
  | clean s fuel now => cases heq

/-- A packet of a user was taken by an event. -/
theorem mem_of_pushUserpckt {u : Connection} (hu : .pushUserpckt u ∈ coreEvents es) :
    ∃ session, .user session u ∈ es := by
  obtain ⟨e, he, heq⟩ := List.mem_filterMap.1 hu
  cases e with
  | request s conn => cases heq
  | user session conn =>
    obtain rfl := Event.pushUserpckt.inj (Option.some.inj heq)
    exact ⟨session, he⟩
  | core e hi =>
    obtain rfl := Option.some.inj heq
    exact absurd hi id
  | packet s fuel clock writable a nfa => cases heq
  | answer s fuel now a dgram => cases heq
  | clean s fuel now => cases heq

/-- What the server allows has been opened by a user. -/
theorem Firewall.Traced.openedByUser (ht : fw.Traced conf host env h es) {t : Tracking}
    (hallowed : Allowed conf host (World.start h) (coreEvents es) t) :
    OpenedByUser conf host h es t := by
  obtain ⟨u, r, copy, acls, log, now, a, hu, -, hut, -, hshows, hlooked, -, hmem, hanswer, hnames,
    hstrict, hperiod⟩ := hallowed
  obtain ⟨session, huser⟩ := mem_of_pushUserpckt hu
  have hsession := ht.users session u huser
  refine ⟨session, u, r, copy, acls, now, a, huser, hsession, hut, hshows, hlooked, hmem, hanswer,
    hnames, ?_, hperiod⟩
  rw [← hsession.authQuality]
  exact AclGroup.tooStrict_eq_false.1 hstrict

/-- **An answer that accepts**, read at the gateway it was sent to. -/
theorem Firewall.Traced.justified_of_answer (ht : fw.Traced conf host env h es) {a : Answer}
    {dgram : Memory} (ha : a ∈ fw.world.answers) (hs : a.session = some s)
    (hdgram : dgram.Holds 0 a.message) (hlength : nuv4DecisionResponseSize ≤ a.message.length)
    (haccept : dgram 2 = Decision.accept.toByte) : Justified conf host h es s (dgram.be32 4) := by
  have hprovenance := provenance_of_path (ht.path.mono fun _ _ _ ↦ trivial)
  have hrouting := routing_of_path ht.path
  rw [← ht.world] at hprovenance hrouting
  obtain ⟨s', horigin, hsession, hversion, -⟩ := hrouting.answers a ha
  obtain rfl : s = s' := Option.some.inj (hs.symm.trans hsession)
  have hv : a.version ≠ protoVersionNufwV20 := by
    rw [hversion]
    show protoVersionNufwV24 ≠ protoVersionNufwV20
    decide
  have haccepts : a.Accepts := by
    have hlt : 2 < a.message.length := Nat.lt_of_lt_of_le (by decide) hlength
    rw [Answer.Accepts, Answer.decision?, if_neg hv, List.getElem?_eq_getElem hlt,
      ← Memory.holds_iff_getElem.1 hdgram 2 hlt, Nat.zero_add, haccept]
  obtain ⟨hidentifies, r, hr, hid, hallowed⟩ := hprovenance.answers a ha haccepts
  have hbytes := hidentifies dgram hdgram
  rw [if_neg hv] at hbytes
  obtain ⟨s', hrequest⟩ := mem_of_pushAuthreq hr
  obtain ⟨nfa, id, hqueued, hnfa, hpacketId, htracking⟩ := ht.asked s' r hrequest
  rw [hpacketId, List.mem_singleton] at hid
  -- the answer went to the gateway of the request
  have hs' : some s' = some s := by rw [← horigin, hid]
  obtain rfl := Option.some.inj hs'
  refine ⟨nfa, hqueued, ?_, Or.inr ⟨r.tracking, htracking, ht.openedByUser hallowed⟩⟩
  rw [hbytes, hid]
  exact hnfa

/-- **A request**, as the server takes it. -/
theorem Firewall.Traced.request (ht : fw.Traced conf host env h es) {conn : Connection}
    (he : fw.enabled conf env (.request s conn)) :
    fw.world.enabled (.pushAuthreq conn) ∧
      FromGateway (fun _ ↦ protoVersionNufwV24) (.pushAuthreq conn) ∧
      ∃ nfa id, QueuedAt es s nfa ∧ nfa.packetId = some id ∧ conn.packetId = [⟨id, some s⟩] ∧
        nfa.HasTracking conn.tracking := by
  obtain ⟨message, hmem, fuel, localid, now, m, d, c, hm, hd, hc, hstate, rfl, hfresh⟩ := he
  obtain ⟨nfa, hqueued, type, pckt, hmakes, hmessage⟩ := ht.requests s message hmem
  have hauthreq := authpcktDecode_authreqConn hd hc hstate s
  rw [length_authRequestMessage hmessage] at hd
  obtain ⟨hpacketId, hversion, htracking⟩ :=
    authpcktDecode_identifies (isRequest hmessage hm) hd hc hstate
  have hid : (c.ofSession s).packetId = [⟨pckt.packetId, some s⟩] := by
    show c.packetId.map _ = _
    rw [hpacketId]
    rfl
  refine ⟨⟨hauthreq, hfresh⟩, ⟨s, rfl, hversion, fun p hp ↦ ?_⟩, nfa, pckt.packetId, hqueued,
    hmakes.packetId, hid, ⟨pckt.payload, pckt.payloadLen, hmakes.payload, htracking⟩⟩
  rw [hid, List.mem_singleton] at hp
  rw [hp]

/-- What the server can do, and does as `NoForeignFold` asks. -/
theorem Firewall.Traced.serverStep (ht : fw.Traced conf host env h es) {e : FirewallEvent}
    (he : fw.enabled conf env e) (hok : fw.KeepsApart host e) {d : Event}
    (hd : e.coreEvent = some d) : fw.world.enabled d ∧ ServerStep host fw.world d := by
  have hfold := hok d hd
  cases e with
  | request s conn =>
    obtain rfl := Option.some.inj hd
    obtain ⟨henabled, hfrom, -⟩ := ht.request he
    exact ⟨henabled, hfrom, hfold⟩
  | user session conn =>
    obtain rfl := Option.some.inj hd
    obtain ⟨env, clock, fuel, now, reads, heap, r, hr, hmem⟩ := he
    exact ⟨userCheckAndDecide_userpcktConn hr conn hmem, trivial, hfold⟩
  | core e hi =>
    obtain rfl := Option.some.inj hd
    refine ⟨he, ?_, hfold⟩
    cases e with
    | pushAuthreq conn => exact absurd hi id
    | pushUserpckt conn => exact absurd hi id
    | searchAndFill log now => exact trivial
    | aclCheckAndDecide i acls => exact trivial
    | cleanConnectionsList log clock => exact trivial
    | decisionsQueueWork i log => exact trivial
    | sessions h => exact trivial
  | packet s fuel clock writable a nfa => cases hd
  | answer s fuel now a dgram => cases hd
  | clean s fuel now => cases hd

/-- What a gateway has written so far. -/
theorem Firewall.Traced.requests_step (ht : fw.Traced conf host env h es) (e : FirewallEvent) :
    ∀ s, ∀ message ∈ (fw.step conf host env e).requests s,
      ∃ nfa, QueuedAt (es ++ [e]) s nfa ∧ AsksAbout (env s).host.order nfa message := by
  have hold : ∀ s, ∀ message ∈ fw.requests s,
      ∃ nfa, QueuedAt (es ++ [e]) s nfa ∧ AsksAbout (env s).host.order nfa message := by
    intro s message hmem
    obtain ⟨nfa, hqueued, hasks⟩ := ht.requests s message hmem
    exact ⟨nfa, hqueued.mono [e], hasks⟩
  intro s message hmem
  rw [Firewall.step] at hmem
  cases e with
  | packet s' fuel clock writable a nfa =>
    dsimp only [Firewall.written] at hmem
    cases htreat : (fw.gateways s').packetsList.treatPacket (env s').host.order (env s').params
        clock writable a fuel nfa with
    | none =>
      rw [htreat] at hmem
      exact hold s message hmem
    | some r =>
      rw [htreat] at hmem
      by_cases hs : s = s'
      · subst hs
        simp only [Option.map_some, Function.update_self] at hmem
        rcases List.mem_append.1 hmem with hmem | hmem
        · exact hold s message hmem
        · have hlast : FirewallEvent.packet s fuel clock writable a nfa ∈
              es ++ [.packet s fuel clock writable a nfa] :=
            List.mem_append_right _ (List.mem_singleton_self _)
          exact ⟨nfa, ⟨fuel, clock, writable, a, hlast⟩,
            PacketsList.asksAbout_treatPacket htreat message hmem⟩
      · simp only [Option.map_some, Function.update_of_ne hs] at hmem
        exact hold s message hmem
  | request s' conn => exact hold s message hmem
  | user session conn => exact hold s message hmem
  | core d hi => exact hold s message hmem
  | answer s' fuel now a dgram => exact hold s message hmem
  | clean s' fuel now => exact hold s message hmem

/-- What the gateways let through is justified. -/
theorem Firewall.Traced.calls_step (ht : fw.Traced conf host env h es) {e : FirewallEvent}
    (he : fw.enabled conf env e) :
    ∀ s, ∀ call ∈ ((fw.step conf host env e).gateways s).calls, call.Accepts →
      Justified conf host h (es ++ [e]) s call.packetId := by
  intro s call hcall haccepts
  have hold : call ∈ (fw.gateways s).calls → Justified conf host h (es ++ [e]) s call.packetId :=
    fun hmem ↦ (ht.calls s call hmem haccepts).mono [e]
  rw [Firewall.step] at hcall
  cases hg : e.gatewayEvent with
  | none =>
    rw [hg] at hcall
    exact hold hcall
  | some g =>
    obtain ⟨s', fuel, d⟩ := g
    rw [hg] at hcall
    dsimp only at hcall
    by_cases hs : s = s'
    · subst hs
      rw [Function.update_self] at hcall
      cases hexec : (fw.gateways s).exec (env s) fuel d with
      | none =>
        rw [hexec] at hcall
        exact hold hcall
      | some g =>
        rw [hexec] at hcall
        refine (GatewayRun.letsThrough_exec hexec hcall haccepts).elim hold fun hthrough ↦ ?_
        cases e with
        | packet s' fuel' clock writable a nfa =>
          obtain ⟨rfl, rfl, rfl⟩ := Option.some.inj hg
          exact ⟨nfa, ⟨_, _, _, _, List.mem_append_right _ (List.mem_singleton_self _)⟩,
            hthrough.1, Or.inl hthrough.2⟩
        | answer s' fuel' now a dgram =>
          obtain ⟨ha, hsession, hdgram, -⟩ := he
          rw [FirewallEvent.gatewayEvent] at hg
          split_ifs at hg
          obtain ⟨rfl, rfl, rfl⟩ := Option.some.inj hg
          obtain ⟨hlength, hid, haccept⟩ := hthrough
          exact hid ▸ (ht.justified_of_answer ha hsession hdgram hlength haccept).mono _
        | clean s' fuel' now =>
          obtain ⟨rfl, rfl, rfl⟩ := Option.some.inj hg
          exact absurd hthrough id
        | request s' conn => cases hg
        | user session conn => cases hg
        | core d' hi => cases hg
    · rw [Function.update_of_ne hs] at hcall
      exact hold hcall

/-- **Every event keeps the invariant.** -/
theorem Firewall.Traced.step (ht : fw.Traced conf host env h es) {e : FirewallEvent}
    (he : fw.enabled conf env e) (hok : fw.KeepsApart host e) :
    (fw.step conf host env e).Traced conf host env h (es ++ [e]) := by
  have hserver := fun d (hd : e.coreEvent = some d) ↦ ht.serverStep he hok hd
  have hlast : ∀ e' ∈ es ++ [e], e' ∈ es ∨ e' = e := fun e' he' ↦
    (List.mem_append.1 he').imp_right List.mem_singleton.1
  refine ⟨?_, ?_, ht.requests_step e, fun s conn hmem ↦ ?_, fun session conn hmem ↦ ?_,
    ht.calls_step he⟩
  · rw [coreEvents_append]
    cases hd : e.coreEvent with
    | none =>
      rw [show coreEvents [e] = [] from List.filterMap_cons_none hd, List.append_nil]
      exact ht.path
    | some d =>
      obtain ⟨henabled, hstep⟩ := hserver d hd
      rw [ht.world] at henabled hstep
      rw [show coreEvents [e] = [d] from List.filterMap_cons_some hd]
      exact Machine.path_concat ht.path henabled hstep
  · rw [coreEvents_append, Firewall.step]
    cases hd : e.coreEvent with
    | none =>
      rw [show coreEvents [e] = [] from List.filterMap_cons_none hd, List.append_nil]
      exact ht.world
    | some d =>
      rw [show coreEvents [e] = [d] from List.filterMap_cons_some hd, Machine.run_concat,
        ← ht.world]
      rfl
  · rcases hlast _ hmem with hmem | rfl
    · obtain ⟨nfa, id, hqueued, hrest⟩ := ht.asked s conn hmem
      exact ⟨nfa, id, hqueued.mono [e], hrest⟩
    · obtain ⟨-, -, nfa, id, hqueued, hrest⟩ := ht.request he
      exact ⟨nfa, id, hqueued.mono _, hrest⟩
  · rcases hlast _ hmem with hmem | rfl
    · exact ht.users session conn hmem
    · obtain ⟨env, clock, fuel, now, reads, heap, r, hr, hconn⟩ := he
      obtain ⟨ret, session', buffer, bufferLen, conns, hconns, hpushes⟩ :=
        userCheckAndDecide_pushesOf hr
      have hpushed : PushedWell conf session r := by
        rw [hpushes]
        exact PushedWell.nil.foldl fun c hc ↦ (hconns c hc).ofUserSession rfl
      exact (hpushed.connectionsQueue conn hconn).1

end

/-- The SYN of a connection, as the kernel queues it. -/
def NfqData.syn : NfqData :=
  ⟨some (.ofBytes synDgram, 40), 0,
    some (.replicate 16 0, .replicate 16 0, .replicate 16 0, .replicate 16 0), some 100, some 7⟩

end Nufw
