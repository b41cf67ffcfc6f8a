import Nufw.Nuauth.CoreInv

/-!
# Requests of the hello mode

`localid_auth.c`: a request that only a hello can authenticate waits in a table of its own, under an
identifier drawn at random, while the clients at its source address are asked for that identifier.
The answer of a client gives the request an identity and sends it to the ACL checkers; it then comes
back through the queue of the thread, and is decided on.

A message of the queue is a connection, told by its state: AUTHREQ for a request of a gateway,
USERPCKT for the answer of a client, HELLOMODE for a request that the ACL checkers send back. A
refresh is an event of its own. The thread is started when both `push` and `hello_authentication`
are set.

The search for an identifier that is not used is a loop, which has to end within `fuel` turns.
Whether a client is connected at an address, which is what `warn_clients` returns, is given by the
event.
-/

namespace Nufw

/-- `PORTAL_STRING`: `Java portal`. -/
def portalString : Bytes := [74, 97, 118, 97, 32, 112, 111, 114, 116, 97, 108]

/-- What a request becomes when a client answers its hello. -/
def helloElement (pckt element : Connection) : Connection :=
  { element with
    state := .hellomode
    userId := pckt.userId
    mark := pckt.mark
    username := pckt.username
    userGroups := pckt.userGroups
    appName := some portalString
    authQuality := authqHello
    expire := -1 }

/-- The queues and workers, and the table of the thread. -/
structure LocalidWorld where
  core : World
  /-- `localid_auth_hash`. -/
  table : List (UInt32 × Connection)
  /-- The thread runs. -/
  running : Bool
  /-- **Ghost**: what others than the requests of the hello mode add to the usage of a session. -/
  others : SessionId → Int

/-- The loop that looks for an identifier that is not used. -/
def freeId (table : List (UInt32 × Connection)) : ℕ → UInt32 → Option UInt32
  | 0, _ => none
  | fuel + 1, randomid =>
    if table.any (·.1 = randomid) then freeId table fuel (randomid + 1) else some randomid

namespace LocalidWorld

/-- `g_hash_table_lookup`. -/
def lookup (w : LocalidWorld) (id : UInt32) : Option Connection :=
  (w.table.find? (·.1 = id)).map Prod.snd

/-- `g_hash_table_steal`. -/
def steal (w : LocalidWorld) (id : UInt32) : LocalidWorld :=
  { w with table := w.table.eraseP (·.1 = id) }

/-- `localid_insert_message`. The identifier is the one that `freeId` has found, and `clients` tells
whether `warn_clients` finds somebody at an address. -/
def insertMessage (conf : Params) (host : Host) (log : Logger) (now : Int)
    (clients : In6Addr → Bool) (randomid : UInt32) (pckt : Connection) (w : LocalidWorld) :
    LocalidWorld :=
  match pckt.state with
  | .authreq =>
    if clients pckt.tracking.saddr then { w with table := (randomid, pckt) :: w.table }
    -- nobody is connected: the request is freed
    else w
  | .userpckt =>
    match pckt.packetId with
    | [] => w
    | helloid :: _ =>
      match w.lookup helloid.id with
      | none => w
      | some element =>
        let w := if ipv6Equal element.tracking.saddr pckt.tracking.saddr then
            { w with core := { w.core with
              aclCheckers := w.core.aclCheckers ++ [helloElement pckt element] } }
          else w
        -- the entry goes in both cases
        w.steal helloid.id
  | .hellomode => { w with core := w.core.takeDecision conf host log now .alone pckt }
  | _ => w

/-- A `REFRESH_MESSAGE`: the old requests are freed. -/
def refresh (conf : Params) (now : Int) (w : LocalidWorld) : LocalidWorld :=
  { w with table := w.table.filter fun e ↦ !getOldConn conf now e.2 }

end LocalidWorld

/-! ### The machine -/

/-- What happens to the requests of the hello mode. -/
inductive LocalidEvent where
  /-- `treat_nufw_request` pushes a request. -/
  | pushAuthreq (conn : Connection)
  /-- `user_check_and_decide` pushes an answer. -/
  | pushUserpckt (conn : Connection)
  /-- The thread takes a message. -/
  | insertMessage (log : Logger) (now : Int) (clients : In6Addr → Bool) (random : UInt32) (fuel : ℕ)
  | refresh (now : Int)
  | aclCheckAndDecide (i : ℕ) (acls : List (Option AclGroup))
  | decisionsQueueWork (i : ℕ) (log : Logger)
  /-- The thread ends, and destroys its table. -/
  | stop
  /-- Something else happens to the sessions. -/
  | sessions (h : Sessions)

/-- A request of the hello mode, as `treat_nufw_request` pushes it. -/
structure HelloRequest (conn : Connection) : Prop where
  state : conn.state = .authreq
  packetId : ∃ p, conn.packetId = [p]
  version : KnownVersion conn.nufwVersion

/-- An answer to a hello, as `user_check_and_decide` pushes it. -/
structure HelloAnswer (conn : Connection) : Prop where
  state : conn.state = .userpckt
  packetId : ∃ p, conn.packetId = [p]

namespace LocalidWorld

/-- The event can happen. -/
def enabled (w : LocalidWorld) : LocalidEvent → Prop
  | .pushAuthreq conn => HelloRequest conn ∧ ∀ p ∈ conn.packetId, p ∉ w.core.received
  | .pushUserpckt conn => HelloAnswer conn
  | .insertMessage _ _ _ random fuel =>
    w.running ∧ ∃ pckt ∈ w.core.localidAuthQueue.head?,
      pckt.state = .authreq → (freeId w.table fuel random).isSome
  | .refresh _ => w.running
  | .aclCheckAndDecide i _ => i < w.core.aclCheckers.length
  | .decisionsQueueWork i _ => i < w.core.decisionsWorkers.length
  | .stop => w.running
  | .sessions _ => True

/-- What the event does. -/
def step (conf : Params) (host : Host) (w : LocalidWorld) : LocalidEvent → LocalidWorld
  | .pushAuthreq conn =>
    { w with core := { w.core with
      sessions := increaseNufwSessionUsage w.core.sessions conn.tls
      localidAuthQueue := w.core.localidAuthQueue ++ [conn]
      received := conn.packetId ++ w.core.received } }
  | .pushUserpckt conn =>
    { w with core := { w.core with localidAuthQueue := w.core.localidAuthQueue ++ [conn] } }
  | .insertMessage log now clients random fuel =>
    match w.core.localidAuthQueue with
    | [] => w
    | pckt :: queue =>
      let w' := { w with core := { w.core with localidAuthQueue := queue } }
      w'.insertMessage conf host log now clients ((freeId w.table fuel random).getD random) pckt
  | .refresh now => w.refresh conf now
  | .aclCheckAndDecide i acls =>
    match w.core.aclCheckers[i]? with
    | none => w
    | some element =>
      let core := { w.core with aclCheckers := w.core.aclCheckers.eraseIdx i }
      { w with core := core.aclCheckAndDecide conf acls element }
  | .decisionsQueueWork i log =>
    match w.core.decisionsWorkers[i]? with
    | none => w
    | some element =>
      let core := { w.core with decisionsWorkers := w.core.decisionsWorkers.eraseIdx i }
      { w with core := core.decisionsQueueWork conf host log element }
  | .stop => { w with table := [], running := false }
  | .sessions h =>
    { w with
      core := { w.core with sessions := h }
      others := fun s ↦ w.others s + ((h s).usage - (w.core.sessions s).usage) }

/-- Nothing has arrived yet. -/
def start (h : Sessions) : LocalidWorld := ⟨World.start h, [], true, fun s ↦ (h s).usage⟩

end LocalidWorld

/-- **The machine of the hello mode.** The thread is started with `push` and
`hello_authentication`. -/
def localid (conf : Params) (host : Host) : Machine LocalidWorld LocalidEvent where
  init w := conf.push ∧ conf.helloAuthentication ∧ ∃ h, w = LocalidWorld.start h
  enabled := LocalidWorld.enabled
  step := LocalidWorld.step conf host

end Nufw
