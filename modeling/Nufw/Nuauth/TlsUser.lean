import Nufw.Lib.Transition
import Nufw.Nuauth.ClientMngr

/-!
# The threads that serve the clients

`tls_user.c`, with `tls_sasl_connect_ok` and `warn_clients`: how a session of a client is handed
from one thread to another.

* A sasl worker registers a new session, by itself or through the push worker, activates it, and
  puts it into `mx_queue`.
* The event loop takes the sessions out of `mx_queue` (the *injector*): it disconnects those that
  are marked for it, and listens to the others.
* When a client has sent something, the loop stops listening and gives its session to the pool
  `user_workers`. When there is a message for a client, `warn_clients` puts its socket into
  `writer_queue`, provided that the session is activated, and the loop does the same (the *writer*).
* A worker holds the `rw_lock` of the session while it empties its `workunits_queue`. Then it puts
  the session back into `mx_queue`, releases the lock, and signals the event loop that is named in
  the session.
* `kill_expired_clients_session` and `kill_all_clients` disconnect sessions at any time.

The threads run in parallel. What happens under the lock of the client tables is one event; a worker
does without, so it has one event for each of its steps. A pointer to a session may be one that was
used before, and a new session has a socket that no session has that is not destroyed.
-/

namespace Nufw

/-- The sessions, and where they are on their way. -/
structure UserServer where
  clients : Clients
  /-- `client_watcher` is started. -/
  watching : ClientId → Bool
  /-- Sasl workers in `tls_sasl_connect_ok`, past the registration. -/
  connecting : List ClientId
  /-- `INSERT_MESSAGE`s in `tls_push_queue`. -/
  inserts : List ClientId
  /-- `user_workers`. -/
  pool : List ClientId
  /-- Workers in their loop. -/
  draining : List ClientId
  /-- Workers past their last `g_async_queue_try_pop`. -/
  leaving : List ClientId
  /-- Workers that have put their session back, and still hold its `rw_lock`. -/
  finishing : List ClientId
  /-- Workers that have released the `rw_lock`, and have not yet signalled the event loop. -/
  signalling : List ClientId
  mxQueue : List ClientId
  writerQueue : List ℕ

/-- What libev reports. -/
inductive Revents where
  | error
  | read
  | other
  deriving DecidableEq

/-- What can happen. -/
inductive UserEvent where
  /-- `tls_sasl_connect_ok` registers a session, with or without `push`. -/
  | connectOk (push : Bool) (s : ClientId) (c : ClientSession)
  /-- `tls_sasl_connect_ok` activates the session. -/
  | activate (s : ClientId)
  /-- `tls_sasl_connect_ok` puts the session into `mx_queue`. -/
  | connectPush (s : ClientId)
  /-- `push_worker` takes an `INSERT_MESSAGE`. -/
  | insert
  /-- `client_activity_cb`. -/
  | activity (fd : ℕ) (revents : Revents)
  /-- One turn of `__client_writer_cb`. -/
  | writer
  /-- A worker takes a session of the pool. -/
  | workerStart (s : ClientId)
  /-- One turn of the loop of `user_worker`: whether reading or writing succeeds, and the time of
  the request that was read. -/
  | workerTurn (s : ClientId) (ok : Bool) (lastRequest : Int)
  /-- `user_worker` puts the session into `mx_queue`. -/
  | workerPush (s : ClientId)
  /-- `user_worker` releases the `rw_lock`. -/
  | workerUnlock (s : ClientId)
  /-- `user_worker` calls `ev_async_send`. -/
  | workerSignal (s : ClientId)
  /-- One turn of `__client_injector_cb`. -/
  | injector
  /-- `warn_clients`; `check` is what `scheck` tells. -/
  | warnClients (addr : In6Addr) (check : ClientId → Bool) (msg : Bytes)
  | killExpiredClientsSession (now : Int) (trylock : ClientId → Bool × Bool)
  | killAllClients

namespace UserServer

/-- Somebody holds the `rw_lock`. -/
def Locked (w : UserServer) (s : ClientId) : Prop :=
  s ∈ w.draining ∨ s ∈ w.leaving ∨ s ∈ w.finishing

instance (w : UserServer) (s : ClientId) : Decidable (w.Locked s) :=
  inferInstanceAs (Decidable (_ ∨ _ ∨ _))

/-- `ev_io_start` and `ev_io_stop`. -/
def watch (s : ClientId) (b : Bool) (w : UserServer) : UserServer :=
  { w with watching := Function.update w.watching s b }

/-- Apply a function to a session. -/
def modify (s : ClientId) (f : ClientSession → ClientSession) (w : UserServer) : UserServer :=
  { w with clients := w.clients.modify s f }

theorem clients_modify (s : ClientId) (f : ClientSession → ClientSession) (w : UserServer) :
    (w.modify s f).clients = w.clients.modify s f := rfl

/-- `delete_client_by_socket_ext`, which stops the watcher. -/
def delete (fd : ℕ) (w : UserServer) : UserServer :=
  match w.clients.getClientDatasBySocket fd with
  | none => w
  | some s => { w.watch s false with clients := (w.clients.deleteClientBySocketExt fd).2 }

/-- `client_activity_cb` on the session of the descriptor. -/
def clientActivity (fd : ℕ) (revents : Revents) (s : ClientId) (w : UserServer) : UserServer :=
  let w := (w.modify s fun c ↦ { c with activated := false }).watch s false
  match revents with
  | .error => w.delete fd
  | .read =>
    { w.modify s fun c ↦ { c with workunitsQueue := c.workunitsQueue ++ [.read] } with
      pool := w.pool ++ [s] }
  | .other =>
    -- "Surprising event from libev"
    if w.Locked s then w.modify s fun c ↦ { c with pendingDisconnect := true }
    else w.delete (w.clients.heap s).socket

/-- A turn of `__client_writer_cb` on the session of the descriptor. -/
def clientWriter (s : ClientId) (w : UserServer) : UserServer :=
  if w.Locked s then w else { w.watch s false with pool := w.pool ++ [s] }

/-- A turn of `__client_injector_cb`. -/
def clientInjector (s : ClientId) (w : UserServer) : UserServer :=
  if (w.clients.heap s).pendingDisconnect then w.delete (w.clients.heap s).socket
  else (w.modify s fun c ↦ { c with activated := true }).watch s true

/-- `warn_clients` on one session: the message is queued, and an activated session is woken. -/
def warnSession (msg : Bytes) (w : UserServer) (s : ClientId) : UserServer :=
  let c := w.clients.heap s
  { w.modify s fun c ↦ { c with
      workunitsQueue := c.workunitsQueue ++ [.message msg]
      activated := false } with
    writerQueue := if c.activated then w.writerQueue ++ [c.socket] else w.writerQueue }

theorem clients_warnSession (msg : Bytes) (w : UserServer) (s : ClientId) :
    (w.warnSession msg s).clients = w.clients.modify s fun c ↦ { c with
      workunitsQueue := c.workunitsQueue ++ [.message msg]
      activated := false } := rfl

/-- A turn of the loop of `user_worker`. -/
def workerTurn (s : ClientId) (ok : Bool) (lastRequest : Int) (w : UserServer) : UserServer :=
  let left := { w with draining := w.draining.erase s, leaving := w.leaving ++ [s] }
  match (w.clients.heap s).workunitsQueue with
  | [] => left
  | unit :: rest =>
    let request := if unit = .read ∧ ok then lastRequest else (w.clients.heap s).lastRequest
    if ok then w.modify s fun c ↦ { c with workunitsQueue := rest, lastRequest := request }
    else left.modify s fun c ↦ { c with workunitsQueue := rest, pendingDisconnect := true }

/-- `kill_all_clients`, one entry: the watcher of a session that is killed is stopped. -/
def killClient (e : ℕ × ClientId) (w : UserServer) : UserServer :=
  { (if (w.clients.heap e.2).activated then w.watch e.2 false else w) with
    clients := w.clients.killClient e }

/-- A session as `tls_sasl_connect` allocates it. -/
structure NewSession (c : ClientSession) : Prop where
  workunitsQueue : c.workunitsQueue = []
  activated : c.activated = false
  pendingDisconnect : c.pendingDisconnect = false
  destroyed : c.destroyed = false

/-- The event can happen. -/
def enabled (w : UserServer) : UserEvent → Prop
  | .connectOk _ s c => NewSession c ∧ s ∉ w.inserts ∧
    (∀ e ∈ w.clients.connHash, e.1 ≠ c.socket ∧ e.2 ≠ s) ∧
    ∀ t ∈ w.inserts, (w.clients.heap t).socket ≠ c.socket
  | .activate s => s ∈ w.connecting
  | .connectPush s => s ∈ w.connecting
  | .insert => w.inserts ≠ []
  | .activity fd _ => ∀ s, w.clients.getClientDatasBySocket fd = some s → w.watching s = true
  | .writer => w.writerQueue ≠ []
  | .workerStart s => s ∈ w.pool
  | .workerTurn s _ _ => s ∈ w.draining
  | .workerPush s => s ∈ w.leaving
  | .workerUnlock s => s ∈ w.finishing
  | .workerSignal s => s ∈ w.signalling
  | .injector => w.mxQueue ≠ []
  | _ => True

/-- What the event does. -/
def step (w : UserServer) : UserEvent → UserServer
  | .connectOk push s c =>
    let w := (w.modify s fun _ ↦ c).watch s false
    if push then { w with inserts := w.inserts ++ [s], connecting := w.connecting ++ [s] }
    else { w with clients := w.clients.addClient c.socket s, connecting := w.connecting ++ [s] }
  | .activate s =>
    { w with clients := w.clients.activateClientBySocket (w.clients.heap s).socket }
  | .connectPush s =>
    { w with connecting := w.connecting.erase s, mxQueue := w.mxQueue ++ [s] }
  | .insert =>
    match w.inserts with
    | [] => w
    | s :: inserts =>
      { w with inserts := inserts, clients := w.clients.addClient (w.clients.heap s).socket s }
  | .activity fd revents =>
    match w.clients.getClientDatasBySocket fd with
    | none => w
    | some s => w.clientActivity fd revents s
  | .writer =>
    match w.writerQueue with
    | [] => w
    | fd :: queue =>
      let w := { w with writerQueue := queue }
      match w.clients.getClientDatasBySocket fd with
      | none => w
      | some s => w.clientWriter s
  | .workerStart s =>
    let w' := { w with pool := w.pool.erase s }
    if w.Locked s then w' else { w' with draining := w.draining ++ [s] }
  | .workerTurn s ok lastRequest => w.workerTurn s ok lastRequest
  | .workerPush s =>
    { w with
      leaving := w.leaving.erase s
      finishing := w.finishing ++ [s]
      mxQueue := w.mxQueue ++ [s] }
  | .workerUnlock s =>
    { w with finishing := w.finishing.erase s, signalling := w.signalling ++ [s] }
  | .workerSignal s => { w with signalling := w.signalling.erase s }
  | .injector =>
    match w.mxQueue with
    | [] => w
    | s :: queue => { w with mxQueue := queue }.clientInjector s
  | .warnClients addr check msg =>
    ((w.clients.sessionsAt addr).filter check).foldl (warnSession msg) w
  -- the watchers of the sessions that are killed run on
  | .killExpiredClientsSession now trylock =>
    { w with clients := w.clients.killExpiredClientsSession now trylock }
  | .killAllClients => w.clients.connHash.foldl (fun w e ↦ w.killClient e) w

/-- No client is there. -/
def start (heap : ClientId → ClientSession) : UserServer where
  clients := ⟨heap, [], fun _ ↦ none⟩
  watching _ := false
  connecting := []
  inserts := []
  pool := []
  draining := []
  leaving := []
  finishing := []
  signalling := []
  mxQueue := []
  writerQueue := []

end UserServer

/-- **The machine of the user server.** -/
def userServer : Machine UserServer UserEvent where
  init w := ∃ heap, w = UserServer.start heap
  enabled := UserServer.enabled
  step := UserServer.step

end Nufw
