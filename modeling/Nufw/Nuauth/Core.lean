import Nufw.Lib.Table
import Nufw.Lib.Transition
import Nufw.Nuauth.AuthHash
import Nufw.Nuauth.TakeDecision

/-!
# The core of nuauth

The threads and queues between the arrival of a request and its answer, as a machine:

* connections arrive in `connections_queue`, from the gateways (AUTHREQ) and from the users
  (USERPCKT);
* `search_and_fill` takes them out one by one, files them in the hash `conn_list` or completes the
  entry that is there, handing a copy to the `acl_checkers`;
* `acl_check_and_decide` gives the copy its ACLs and sends it back through `connections_queue`,
  upon which `take_decision` decides on the entry and answers, at once or through the
  `decisions_workers`;
* `clean_connections_list` answers the entries that have waited for too long.

The workers of a pool run in parallel, so an event says which of the waiting connections is
finished next. Gateways come and go beside all this: the event `sessions` changes their heap.

Only what decides the fate of a connection is kept: `free_connection` also logs and tells the
caches that the ACLs and the user data are not used any more, and this is left out.
-/

namespace Nufw

/-! ### Logging -/

/-- The state of the user logging facility. -/
structure Logger where
  /-- `nuauthdatas->loggers_pool_full`. -/
  poolFull : Bool
  /-- `modules_user_logs`. -/
  userLogs : Connection → TcpState → NuError

/-- `ACL_FLAGS_ASYNC`. -/
def aclFlagsAsync : UInt32 := 1
/-- `ACL_FLAGS_NOLOG`. -/
def aclFlagsNolog : UInt32 := 2
/-- `ACL_FLAGS_SYNC`. -/
def aclFlagsSync : UInt32 := 4

/-- `log_user_packet`: what it returns. A packet that is not logged at once goes to a logger
thread. -/
def logUserPacket (conf : Params) (log : Logger) (element : Connection) (state : TcpState) :
    NuError :=
  if element.flags &&& aclFlagsNolog ≠ 0 then .ok
  else if log.poolFull then .error
  else if state = .open ∧ ((conf.logUsersSync ∧ element.flags &&& aclFlagsAsync = 0) ∨
      element.flags &&& aclFlagsSync ≠ 0) then
    if conf.logUsers &&& 8 ≠ 0 then log.userLogs element state else .ok
  else .ok

/-! ### The state -/

/-- The queues, the hash and the answers. -/
structure World where
  sessions : Sessions
  connectionsQueue : List Connection
  connList : List Connection
  aclCheckers : List Connection
  decisionsWorkers : List Connection
  /-- Connections of the hello mode, on their way to `localid_auth`. -/
  localidAuthQueue : List Connection
  /-- `WARN_MESSAGE`s for the users, with the tracking and the interfaces. -/
  tlsPushQueue : List (Tracking × IfaceNfo)
  answers : List Answer
  warnings : List Warning
  /-- **Ghost**: the packet identifiers received so far. -/
  received : List PacketId

/-! ### Deciding -/

/-- `apply_decision` on a connection: the sessions, the connection without its identifiers, the
answers and the warnings. -/
def applyDecision (conf : Params) (host : Host) (log : Logger) (h : Sessions)
    (element : Connection) : Sessions × Connection × List Answer × List Warning :=
  if element.state = .userpckt then (h, element, [], [.userOnlyPacket])
  else
    let ret := logUserPacket conf log element
      (if element.decision = .accept then .open else .drop)
    let element := if ret ≠ .ok ∧ conf.dropIfNoLogging then { element with decision := .drop }
      else element
    let (h, answers) := sendAuthResponses host element element.packetId h
    (h, { element with packetId := [] }, answers, [])

/-- `apply_decision`, its effect on the world. -/
def World.applyDecision (conf : Params) (host : Host) (log : Logger) (element : Connection)
    (w : World) : World :=
  let (h, _, answers, warnings) := Nufw.applyDecision conf host log w.sessions element
  { w with
    sessions := h
    answers := w.answers ++ answers
    warnings := w.warnings ++ warnings }

/-- `conn_cl_remove`: whether the entry was there, and the world without it. -/
def World.connClRemove (host : Host) (element : Connection) (w : World) : Bool × World :=
  if w.connList.any (hasKey host.order element.tracking) then
    (true, { w with connList := w.connList.eraseP (hasKey host.order element.tracking) })
  else (false, { w with warnings := w.warnings ++ [.removalFailed] })

/-- `packet_place_t`. -/
inductive PacketPlace where
  | inHash
  | alone
  deriving DecidableEq

/-- `take_decision`. -/
def World.takeDecision (conf : Params) (host : Host) (log : Logger) (now : Int)
    (place : PacketPlace) (element : Connection) (w : World) : World :=
  let element := decidedElement conf now element
  if conf.logUsersSync then
    let w := if place = .inHash then (w.connClRemove host element).2 else w
    { w with decisionsWorkers := w.decisionsWorkers ++ [element] }
  else
    let w := w.applyDecision conf host log element
    if place = .inHash then
      let (removed, w) := w.connClRemove host element
      if removed then w else { w with warnings := w.warnings ++ [.unableToSuppress] }
    else w

/-! ### The threads -/

/-- What `search_and_fill` does with a connection taken out of the queue. -/
def World.searchAndFill (conf : Params) (host : Host) (log : Logger) (now : Int)
    (new : Connection) (w : World) : World :=
  match w.connList.find? (hasKey host.order new.tracking) with
  | none =>
    let w := { w with connList := new :: w.connList }
    -- `search_and_push`
    if conf.push ∧ new.state = .authreq then
      { w with tlsPushQueue := w.tlsPushQueue ++ [(new.tracking, new.ifaceNfo)] }
    else w
  | some packet =>
    let filled := searchAndFillUpdate host w.sessions new packet
    let w := { w with
      sessions := filled.sessions
      connList :=
        updateFirst (hasKey host.order new.tracking) (fun _ ↦ filled.packet) w.connList
      aclCheckers := w.aclCheckers ++ filled.checked.toList
      answers := w.answers ++ filled.answers
      warnings := w.warnings ++ filled.warnings }
    if filled.decide then w.takeDecision conf host log now .inHash filled.packet else w

/-- `acl_check_and_decide`, with the ACLs that the cache or the modules find. -/
def World.aclCheckAndDecide (conf : Params) (acls : List (Option AclGroup)) (element : Connection)
    (w : World) : World :=
  if element.state = .completing then
    { w with connectionsQueue := w.connectionsQueue ++ [{ element with aclGroups := acls }] }
  else if conf.helloAuthentication ∧ element.state = .hellomode then
    { w with localidAuthQueue := w.localidAuthQueue ++ [{ element with aclGroups := acls }] }
  else w

/-- `decisions_queue_work`. -/
def World.decisionsQueueWork (conf : Params) (host : Host) (log : Logger) (element : Connection)
    (w : World) : World :=
  w.applyDecision conf host log element

/-! ### Cleaning -/

/-- `get_old_conn`. The time goes through `GINT_TO_POINTER`, which keeps 32 bits of it. -/
def getOldConn (conf : Params) (now : Int) (conn : Connection) : Bool :=
  now.bmod (2 ^ 32) - conn.timestamp > conf.packetTimeout ∧
    conn.state ≠ .completing ∧ conn.state ≠ .ready

/-- The loop of `clean_connections_list` that takes the old connections out of the hash: the hash,
the connections taken out, and the warnings. -/
def stealOldConns (order : ByteOrder) :
    List Tracking → List Connection → List Connection →
      List Connection × List Connection × List Warning
  | [], connList, old => (connList, old, [])
  | key :: keys, connList, old =>
    match connList.find? (hasKey order key) with
    | some value => stealOldConns order keys (connList.eraseP (hasKey order key)) (value :: old)
    | none =>
      let (connList, old, warnings) := stealOldConns order keys connList old
      (connList, old, .noEntry :: warnings)

/-- What becomes of one old connection: only a request of a gateway is answered. -/
def World.rejectOldConn (conf : Params) (host : Host) (log : Logger) (element : Connection)
    (w : World) : World :=
  let element := { element with
    decision := if conf.rejectAfterTimeout then .reject else .drop }
  if element.state = .authreq then w.applyDecision conf host log element else w

/-- `clean_connections_list`. The clock is read once for each entry. -/
def World.cleanConnectionsList (conf : Params) (host : Host) (log : Logger)
    (clock : Connection → Int) (w : World) : World :=
  let keys := ((w.connList.filter fun c ↦ getOldConn conf (clock c) c).map
    Connection.tracking).reverse
  let (connList, old, warnings) := stealOldConns host.order keys w.connList []
  old.foldl (fun w element ↦ w.rejectOldConn conf host log element)
    { w with connList := connList, warnings := w.warnings ++ warnings }

/-! ### The machine -/

/-- What can happen. -/
inductive Event where
  | pushAuthreq (conn : Connection)
  | pushUserpckt (conn : Connection)
  | searchAndFill (log : Logger) (now : Int)
  | aclCheckAndDecide (i : ℕ) (acls : List (Option AclGroup))
  | cleanConnectionsList (log : Logger) (clock : Connection → Int)
  | decisionsQueueWork (i : ℕ) (log : Logger)
  | sessions (h : Sessions)

/-- A request as `authpckt_decode` builds it, with one packet identifier. -/
structure AuthreqConn (conn : Connection) : Prop where
  state : conn.state = .authreq
  packetId : ∃ p, conn.packetId = [p]
  canonical : conn.tracking.Canonical
  version : KnownVersion conn.nufwVersion

/-- A user packet as `user_request` builds it. -/
structure UserpcktConn (conn : Connection) : Prop where
  state : conn.state = .userpckt
  packetId : conn.packetId = []
  canonical : conn.tracking.Canonical

/-- The event can happen. -/
def World.enabled (w : World) : Event → Prop
  | .pushAuthreq conn => AuthreqConn conn ∧ ∀ p ∈ conn.packetId, p ∉ w.received
  | .pushUserpckt conn => UserpcktConn conn
  | .searchAndFill _ _ => w.connectionsQueue ≠ []
  | .aclCheckAndDecide i _ => i < w.aclCheckers.length
  | .cleanConnectionsList _ _ => True
  | .decisionsQueueWork i _ => i < w.decisionsWorkers.length
  | .sessions _ => True

/-- What the event does. -/
def World.step (conf : Params) (host : Host) (w : World) : Event → World
  | .pushAuthreq conn =>
    { w with
      connectionsQueue := w.connectionsQueue ++ [conn]
      received := conn.packetId ++ w.received }
  | .pushUserpckt conn => { w with connectionsQueue := w.connectionsQueue ++ [conn] }
  | .searchAndFill log now =>
    match w.connectionsQueue with
    | [] => w
    | new :: queue => { w with connectionsQueue := queue }.searchAndFill conf host log now new
  | .aclCheckAndDecide i acls =>
    match w.aclCheckers[i]? with
    | none => w
    | some element =>
      { w with aclCheckers := w.aclCheckers.eraseIdx i }.aclCheckAndDecide conf acls element
  | .cleanConnectionsList log clock => w.cleanConnectionsList conf host log clock
  | .decisionsQueueWork i log =>
    match w.decisionsWorkers[i]? with
    | none => w
    | some element =>
      { w with decisionsWorkers := w.decisionsWorkers.eraseIdx i }.decisionsQueueWork conf host log
        element
  | .sessions h => { w with sessions := h }

/-- Nothing has arrived yet. -/
def World.start (h : Sessions) : World := ⟨h, [], [], [], [], [], [], [], [], []⟩

/-- The machine of the core. -/
def core (conf : Params) (host : Host) : Machine World Event where
  init w := ∃ h, w = World.start h
  enabled := World.enabled
  step := World.step conf host

end Nufw
