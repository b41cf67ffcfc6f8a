import Mathlib.Logic.Function.Basic
import Nufw.Nuauth.UserAuthsrv

/-!
# The tables of the clients

`client_mngr.c`: a session of a client is registered in two tables, `client_conn_hash` by its
socket and `client_ip_hash` by its address. The first owns the session, and destroys it with
`log_clean_session` when the entry is removed; the second has a list of pointers for each address.

The sessions live in a heap that is a function from their number. Both tables are behind one lock,
which every function takes, or has its caller take, so a function is one step; only the `rw_lock` of
a session changes under it, and what `g_mutex_trylock` returns is therefore a parameter. The tables
of GLib are a list of entries and, where nothing iterates over it, a function.
-/

namespace Nufw

/-- A pointer to a `user_session_t`. -/
abbrev ClientId := ℕ

/-- What waits in the `workunits_queue` of a session. -/
inductive Workunit where
  /-- `0x1`: there is something to read. -/
  | read
  /-- A message for the client. -/
  | message (msg : Bytes)
  deriving DecidableEq

/-- `user_session_t`, as far as the tables and the threads are concerned. -/
structure ClientSession where
  addr : In6Addr
  socket : ℕ
  userName : Bytes
  protoVersion : ℕ
  /-- `-1` for never. -/
  expire : Int
  lastRequest : Int
  workunitsQueue : List Workunit
  /-- The user server listens for events of the session. -/
  activated : Bool
  pendingDisconnect : Bool
  /-- `log_clean_session` has freed it. -/
  destroyed : Bool
  deriving DecidableEq

/-- `ip_sessions_t`. -/
structure IpSessions where
  sessions : List ClientId
  protoVersion : ℕ

/-- The tables, and the heap. -/
structure Clients where
  heap : ClientId → ClientSession
  /-- `client_conn_hash`. -/
  connHash : List (ℕ × ClientId)
  /-- `client_ip_hash`. -/
  ipHash : In6Addr → Option IpSessions

namespace Clients

/-- Apply a function to a session. -/
def modify (s : ClientId) (f : ClientSession → ClientSession) (w : Clients) : Clients :=
  { w with heap := Function.update w.heap s (f (w.heap s)) }

@[simp] theorem heap_modify_self (s : ClientId) (f : ClientSession → ClientSession)
    (w : Clients) : (w.modify s f).heap s = f (w.heap s) := Function.update_self _ _ _

theorem heap_modify_of_ne {s t : ClientId} (h : t ≠ s) (f : ClientSession → ClientSession)
    (w : Clients) : (w.modify s f).heap t = w.heap t := Function.update_of_ne h _ _

/-- What a change of a session leaves alone. -/
theorem apply_heap_modify {β : Type} (g : ClientSession → β) {s : ClientId}
    {f : ClientSession → ClientSession} {w : Clients}
    (hf : g (f (w.heap s)) = g (w.heap s)) (t : ClientId) :
    g ((w.modify s f).heap t) = g (w.heap t) := by
  by_cases hts : t = s
  · rw [hts, heap_modify_self, hf]
  · rw [heap_modify_of_ne hts]

/-- The sessions at an address. -/
def sessionsAt (w : Clients) (a : In6Addr) : List ClientId :=
  ((w.ipHash a).map IpSessions.sessions).getD []

/-- The session is registered under its socket. -/
def Registered (w : Clients) (s : ClientId) : Prop := ((w.heap s).socket, s) ∈ w.connHash

instance (w : Clients) (s : ClientId) : Decidable (w.Registered s) :=
  inferInstanceAs (Decidable (_ ∈ w.connHash))

/-- `log_clean_session`. -/
def logCleanSession (s : ClientId) (w : Clients) : Clients :=
  w.modify s fun c ↦ { c with destroyed := true }

@[simp] theorem addr_logCleanSession (w : Clients) (s t : ClientId) :
    ((w.logCleanSession s).heap t).addr = (w.heap t).addr :=
  apply_heap_modify (f := fun c ↦ { c with destroyed := true }) ClientSession.addr rfl t

@[simp] theorem socket_logCleanSession (w : Clients) (s t : ClientId) :
    ((w.logCleanSession s).heap t).socket = (w.heap t).socket :=
  apply_heap_modify (f := fun c ↦ { c with destroyed := true }) ClientSession.socket rfl t

/-- `g_hash_table_lookup (client_conn_hash, socket)`, as in `get_client_datas_by_socket`. -/
def getClientDatasBySocket (socket : ℕ) (w : Clients) : Option ClientId :=
  (w.connHash.find? (·.1 = socket)).map Prod.snd

/-- `g_hash_table_remove (client_conn_hash, socket)`, which destroys the session. -/
def removeConn (socket : ℕ) (w : Clients) : Clients :=
  match w.getClientDatasBySocket socket with
  | none => w
  | some s => { w.logCleanSession s with connHash := w.connHash.eraseP (·.1 = socket) }

/-! ### Adding -/

/-- The entry of an address in `add_client`: created if there is none, and the oldest protocol
wins. -/
def ipSessionsWith (c : ClientSession) (ipsessions : Option IpSessions) : IpSessions :=
  let ipsessions := ipsessions.getD ⟨[], c.protoVersion⟩
  if c.protoVersion < ipsessions.protoVersion then
    { ipsessions with protoVersion := c.protoVersion }
  else ipsessions

/-- `add_client`. A session that the table has for the socket is destroyed. -/
def addClient (socket : ℕ) (s : ClientId) (w : Clients) : Clients :=
  let c := w.heap s
  let ipsessions := ipSessionsWith c (w.ipHash c.addr)
  let w := w.removeConn socket
  { w with
    connHash := (socket, s) :: w.connHash
    ipHash := Function.update w.ipHash c.addr
      (some { ipsessions with sessions := s :: ipsessions.sessions }) }

/-! ### Removing -/

/-- `delete_session_from_hash`, with `destroy` zero. -/
def deleteSessionFromHash (ipsessions : IpSessions) (s : ClientId) (w : Clients) : Clients :=
  let sessions := ipsessions.sessions.erase s
  { w with
    ipHash := Function.update w.ipHash (w.heap s).addr
      (if sessions = [] then none else some { ipsessions with sessions := sessions }) }

/-- `cleanup_session`. -/
def cleanupSession (s : ClientId) (w : Clients) : NuError × Clients :=
  match w.ipHash (w.heap s).addr with
  | some ipsessions => (.ok, w.deleteSessionFromHash ipsessions s)
  -- "Could not find entry in ip hash"
  | none => (.error, w)

/-- `delete_client_by_socket_ext`. -/
def deleteClientBySocketExt (socket : ℕ) (w : Clients) : NuError × Clients :=
  match w.getClientDatasBySocket socket with
  | none => (.error, w)
  | some s =>
    match w.cleanupSession s with
    | (.ok, w) => (.ok, w.removeConn (w.heap s).socket)
    | (ret, w) => (ret, w)

/-- `delete_client_by_socket`. -/
def deleteClientBySocket (socket : ℕ) (w : Clients) : NuError × Clients :=
  w.deleteClientBySocketExt socket

/-- `delete_rw_locked_client`. -/
def deleteRwLockedClient (s : ClientId) (w : Clients) : NuError × Clients :=
  w.deleteClientBySocketExt (w.heap s).socket

/-! ### Removing many -/

/-- `NU_USER_HELLO_INTERVAL`. -/
def nuUserHelloInterval : Int := 30
/-- `NU_USER_HELLO_GRACETIME`. -/
def nuUserHelloGracetime : Int := 10

/-- One of the two tests of `is_expired_client`: the session can be killed if nobody holds its
`rw_lock`, and is marked otherwise. -/
def expireIf (p : Prop) [Decidable p] (trylock : Bool) (r : Bool × ClientSession) :
    Bool × ClientSession :=
  if p then
    if trylock then (true, r.2) else (r.1, { r.2 with pendingDisconnect := true })
  else r

/-- `is_expired_client`. The `rw_lock` is tried twice. -/
def isExpiredClient (now : Int) (trylock : Bool × Bool) (c : ClientSession) :
    Bool × ClientSession :=
  if c.expire = -1 then (false, c)
  else
    expireIf (now - c.lastRequest > nuUserHelloInterval + nuUserHelloGracetime) trylock.2
      (expireIf (c.expire < now) trylock.1 (false, c))

/-- Nothing but the mark is changed. -/
def MarkedFrom (c c' : ClientSession) : Prop :=
  ∃ b, (c.pendingDisconnect = true → b = true) ∧ c' = { c with pendingDisconnect := b }

theorem MarkedFrom.refl (c : ClientSession) : MarkedFrom c c := ⟨c.pendingDisconnect, id, rfl⟩

theorem MarkedFrom.trans {c c' c'' : ClientSession} (h : MarkedFrom c c') (h' : MarkedFrom c' c'') :
    MarkedFrom c c'' := by
  obtain ⟨b, hb, rfl⟩ := h
  obtain ⟨b', hb', rfl⟩ := h'
  exact ⟨b', fun hc ↦ hb' (hb hc), rfl⟩

theorem markedFrom_expireIf (p : Prop) [Decidable p] (trylock : Bool) {c : ClientSession}
    {r : Bool × ClientSession} (hr : MarkedFrom c r.2) :
    MarkedFrom c (expireIf p trylock r).2 := by
  rw [expireIf]
  split
  · split
    · exact hr
    · exact hr.trans ⟨true, fun _ ↦ rfl, rfl⟩
  · exact hr

theorem markedFrom_isExpiredClient (now : Int) (trylock : Bool × Bool) (c : ClientSession) :
    MarkedFrom c (isExpiredClient now trylock c).2 := by
  rw [isExpiredClient]
  split
  · exact .refl c
  · exact markedFrom_expireIf _ _ (markedFrom_expireIf _ _ (.refl c))

theorem expireIf_fst (p : Prop) [Decidable p] (trylock : Bool) {r r' : Bool × ClientSession}
    (h : r.1 = r'.1) : (expireIf p trylock r).1 = (expireIf p trylock r').1 := by
  rw [expireIf, expireIf]
  split
  · split
    · rfl
    · exact h
  · exact h

/-- The mark does not matter. -/
theorem isExpiredClient_pendingDisconnect (now : Int) (trylock : Bool × Bool) (c : ClientSession)
    (b : Bool) : (isExpiredClient now trylock { c with pendingDisconnect := b }).1 =
      (isExpiredClient now trylock c).1 := by
  rw [isExpiredClient, isExpiredClient]
  split
  · rfl
  · exact expireIf_fst _ _ (expireIf_fst _ _ rfl)

/-- `kill_expired_clients_session`, one entry. -/
def killExpiredClient (now : Int) (trylock : ClientId → Bool × Bool) (e : ℕ × ClientId)
    (w : Clients) : Clients :=
  let (expired, c) := isExpiredClient now (trylock e.2) (w.heap e.2)
  let w := w.modify e.2 fun _ ↦ c
  if expired then w.removeConn e.1 else w

/-- `kill_expired_clients_session`. -/
def killExpiredClientsSession (now : Int) (trylock : ClientId → Bool × Bool) (w : Clients) :
    Clients :=
  w.connHash.foldl (fun w e ↦ w.killExpiredClient now trylock e) w

/-- `kill_all_clients_cb`. -/
def killAllClientsCb (s : ClientId) (w : Clients) : Bool × Clients :=
  if (w.heap s).activated = false then
    (false, w.modify s fun c ↦ { c with pendingDisconnect := true })
  else
    match w.cleanupSession s with
    | (.ok, w) => (true, w)
    | (_, w) => (false, w)

/-- `kill_all_clients`, one entry. -/
def killClient (e : ℕ × ClientId) (w : Clients) : Clients :=
  match w.killAllClientsCb e.2 with
  | (true, w) => w.removeConn e.1
  | (false, w) => w

/-- `kill_all_clients`. -/
def killAllClients (w : Clients) : Clients := w.connHash.foldl (fun w e ↦ w.killClient e) w

/-- `activate_client_by_socket`. -/
def activateClientBySocket (socket : ℕ) (w : Clients) : Clients :=
  match w.getClientDatasBySocket socket with
  | none => w
  | some s => w.modify s fun c ↦ { c with activated := true }

/-! ### Counting -/

/-- The registered sessions of a user. -/
def userCount (w : Clients) (username : Bytes) : ℕ :=
  w.connHash.countP fun e ↦ (w.heap e.2).userName = username

/-- The registered sessions at an address. -/
def addrCount (w : Clients) (a : In6Addr) : ℕ :=
  w.connHash.countP fun e ↦ (w.heap e.2).addr = a

/-- `g_hash_table_find` with `count_username_callback`, from a value of the counter: some entry
makes it reach the maximum. -/
def countUsername (w : Clients) (username : Bytes) (max : Int) :
    Int → List (ℕ × ClientId) → Bool
  | _, [] => false
  | counter, e :: rest =>
    if (w.heap e.2).userName = username then
      if max ≤ counter + 1 then true else w.countUsername username max (counter + 1) rest
    else w.countUsername username max counter rest

/-- `test_username_count_vs_max`. -/
def testUsernameCountVsMax (username : Bytes) (maxcount : Int) (w : Clients) : Bool :=
  !w.countUsername username maxcount 0 w.connHash

theorem countUsername_iff (w : Clients) (username : Bytes) {max counter : Int}
    (h : counter < max) (l : List (ℕ × ClientId)) :
    w.countUsername username max counter l = true ↔
      max ≤ counter + l.countP fun e ↦ (w.heap e.2).userName = username := by
  induction l generalizing counter with
  | nil =>
    rw [countUsername, List.countP_nil]
    constructor
    · intro h
      cases h
    · omega
  | cons e rest ih =>
    rw [countUsername, List.countP_cons]
    by_cases hname : (w.heap e.2).userName = username
    · rw [if_pos hname, if_pos (decide_eq_true hname)]
      by_cases hmax : max ≤ counter + 1
      · rw [if_pos hmax]
        constructor
        · omega
        · exact fun _ ↦ rfl
      · rw [if_neg hmax, ih (by omega)]
        omega
    · rw [if_neg hname, ih h, if_neg fun h ↦ hname (of_decide_eq_true h), Nat.add_zero]

/-- The test compares the number of the registered sessions of the user. -/
theorem testUsernameCountVsMax_iff (w : Clients) (username : Bytes) {maxcount : Int}
    (h : 0 < maxcount) : w.testUsernameCountVsMax username maxcount = true ↔
      (w.userCount username : Int) < maxcount := by
  have hcount := w.countUsername_iff username h w.connHash
  rw [testUsernameCountVsMax, Bool.not_eq_true', ← Bool.not_eq_true, hcount, userCount]
  omega

end Clients

end Nufw
