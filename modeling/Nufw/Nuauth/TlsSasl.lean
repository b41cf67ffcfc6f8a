import Nufw.Lib.Transition
import Nufw.Nuauth.ClientMngr

/-!
# Logging in

`tls_sasl.c`, with the push worker of `tls_user.c`: what becomes of a client from the handshake to
its registration. Every login is handled by a sasl worker of its own, and goes through these stages.

* The session is allocated, and refused if there are `single_ip_client_limit` sessions at its
  address already.
* The user is authenticated, which tells their name, and the protocol is negotiated. The session is
  refused if the user has `single_user_client_limit` sessions already.
* `tls_sasl_connect_ok` takes the realm off the name, if `log_users_without_realm` is set, and
  registers the session; or it leaves this to the push worker, if `push` is set.

Between the stages the worker waits for the client, and other logins go on. A session is known to
nobody else until it is registered. How registered sessions are removed is in `ClientMngr`.
-/

namespace Nufw

/-- The settings of `nuauthconf` that matter here. -/
structure LoginConf where
  /-- An `int`. -/
  singleUserClientLimit : Int
  /-- An `unsigned int`. -/
  singleIpClientLimit : ℕ
  push : Bool
  logUsersWithoutRealm : Bool

/-- `get_rid_of_domain`: what stands before the first `@`. -/
def getRidOfDomain (userDomain : Bytes) : Bytes := userDomain.takeWhile (· ≠ 64)

/-- The registered sessions, and the logins that are under way. -/
structure Logins where
  clients : Clients
  /-- Sasl workers past the test of the address. -/
  authenticating : List ClientId
  /-- Sasl workers past the test of the user. -/
  accepted : List ClientId
  /-- `INSERT_MESSAGE`s in `tls_push_queue`. -/
  inserts : List ClientId

/-- What can happen. -/
inductive LoginEvent where
  /-- `tls_sasl_connect` begins, for a session at some place. -/
  | connect (s : ClientId) (c : ClientSession)
  /-- The user is authenticated, unless something fails, and tested. -/
  | check (s : ClientId) (username : Option Bytes)
  /-- The client is told, which may fail, and `tls_sasl_connect_ok` is called. -/
  | connectOk (s : ClientId) (ok : Bool)
  /-- `push_worker` takes an `INSERT_MESSAGE`. -/
  | insert
  | deleteClientBySocket (socket : ℕ)
  | killExpiredClientsSession (now : Int) (trylock : ClientId → Bool × Bool)
  | killAllClients
  /-- Another thread changes a registered session. -/
  | touch (s : ClientId) (c : ClientSession)

namespace Logins

/-- The sessions that are not registered yet. -/
def underway (w : Logins) : List ClientId := w.authenticating ++ (w.accepted ++ w.inserts)

/-- Those of them that have passed both tests. -/
def pending (w : Logins) : List ClientId := w.accepted ++ w.inserts

/-- Apply a function to a session. -/
def modify (s : ClientId) (f : ClientSession → ClientSession) (w : Logins) : Logins :=
  { w with clients := w.clients.modify s f }

/-- The event can happen. A descriptor that is given to a new session is not in use. -/
def enabled (w : Logins) : LoginEvent → Prop
  | .connect s c => (∀ e ∈ w.clients.connHash, e.1 ≠ c.socket ∧ e.2 ≠ s) ∧
    ∀ t ∈ w.underway, (w.clients.heap t).socket ≠ c.socket ∧ t ≠ s
  | .check s _ => s ∈ w.authenticating
  | .connectOk s _ => s ∈ w.accepted
  | .insert => w.inserts ≠ []
  | .touch s c => w.clients.Registered s ∧ c.addr = (w.clients.heap s).addr ∧
    c.socket = (w.clients.heap s).socket ∧ c.userName = (w.clients.heap s).userName
  | _ => True

/-- `tls_sasl_connect`, up to the test of the address. -/
def connect (conf : LoginConf) (s : ClientId) (c : ClientSession) (w : Logins) : Logins :=
  let w := w.modify s fun _ ↦ c
  if 0 < conf.singleIpClientLimit ∧
      conf.singleIpClientLimit ≤ (w.clients.sessionsAt c.addr).length then
    -- "Policy: too many connection attempts from already overused IP"
    w
  else { w with authenticating := w.authenticating ++ [s] }

/-- `tls_sasl_connect`, up to the test of the user. -/
def check (conf : LoginConf) (s : ClientId) (username : Option Bytes) (w : Logins) : Logins :=
  let w := { w with authenticating := w.authenticating.erase s }
  match username with
  | none => w
  | some username =>
    let w := w.modify s fun c ↦ { c with userName := username }
    if 0 < conf.singleUserClientLimit ∧
        w.clients.testUsernameCountVsMax username conf.singleUserClientLimit = false then
      -- `policy_refuse_user`, `PER_USER_TOO_MANY_LOGINS`
      w
    else { w with accepted := w.accepted ++ [s] }

/-- The name under which a session is registered. -/
def registeredName (conf : LoginConf) (username : Bytes) : Bytes :=
  if conf.logUsersWithoutRealm then getRidOfDomain username else username

/-- `tls_sasl_connect_ok`. -/
def connectOk (conf : LoginConf) (s : ClientId) (ok : Bool) (w : Logins) : Logins :=
  let w := { w with accepted := w.accepted.erase s }.modify s fun c ↦
    { c with userName := registeredName conf c.userName }
  if ok then
    if conf.push then { w with inserts := w.inserts ++ [s] }
    else { w with clients := w.clients.addClient (w.clients.heap s).socket s }
  else w

/-- What the event does. -/
def step (conf : LoginConf) (w : Logins) : LoginEvent → Logins
  | .connect s c => w.connect conf s c
  | .check s username => w.check conf s username
  | .connectOk s ok => w.connectOk conf s ok
  | .insert =>
    match w.inserts with
    | [] => w
    | s :: inserts =>
      { w with inserts := inserts, clients := w.clients.addClient (w.clients.heap s).socket s }
  | .deleteClientBySocket socket =>
    { w with clients := (w.clients.deleteClientBySocket socket).2 }
  | .killExpiredClientsSession now trylock =>
    { w with clients := w.clients.killExpiredClientsSession now trylock }
  | .killAllClients => { w with clients := w.clients.killAllClients }
  | .touch s c => w.modify s fun _ ↦ c

/-- Nobody is there. -/
def start (heap : ClientId → ClientSession) : Logins where
  clients := ⟨heap, [], fun _ ↦ none⟩
  authenticating := []
  accepted := []
  inserts := []

end Logins

/-- **The machine of the logins**, for fixed settings. -/
def loginMachine (conf : LoginConf) : Machine Logins LoginEvent where
  init w := ∃ heap, w = Logins.start heap
  enabled := Logins.enabled
  step := Logins.step conf

end Nufw
