import Mathlib.Data.List.Nodup
import Nufw.Lib.Table
import Nufw.Lib.Transition
import Nufw.Nuauth.Accounting
import Nufw.Nuauth.ClientMngr

/-!
# The two tables of the clients agree

A session is in `client_conn_hash` under its socket exactly if it is, once, in the list of its
address in `client_ip_hash`. `add_client` fills both tables, and `delete_client_by_socket_ext` and
`kill_all_clients` empty both. `kill_expired_clients_session` does not: it removes the sessions from
`client_conn_hash`, which frees them, and leaves the pointers in `client_ip_hash`, where
`warn_clients` finds them later.

So the tables agree in every run in which no session is killed in this way
(`client_tables_agree`).

A new session has a socket that no registered session has: the descriptor of a session is closed
only when it is destroyed. What other threads do to a session meanwhile is one event, `touch`; it
changes neither the address nor the socket, which are set when the session is allocated.
-/

namespace Nufw

/-- What happens to the tables. -/
inductive ClientEvent where
  /-- `add_client`, for a session allocated at some place. -/
  | addClient (s : ClientId) (c : ClientSession)
  | deleteClientBySocket (socket : ℕ)
  | deleteRwLockedClient (s : ClientId)
  | killExpiredClientsSession (now : Int) (trylock : ClientId → Bool × Bool)
  | killAllClients
  /-- Another thread changes a session. -/
  | touch (s : ClientId) (c : ClientSession)

namespace Clients

/-- The event can happen. -/
def enabled (w : Clients) : ClientEvent → Prop
  | .addClient s c => ∀ e ∈ w.connHash, e.1 ≠ c.socket ∧ e.2 ≠ s
  | .deleteRwLockedClient s => w.Registered s
  | .touch s c => c.addr = (w.heap s).addr ∧ c.socket = (w.heap s).socket
  | _ => True

/-- What the event does. -/
def step (w : Clients) : ClientEvent → Clients
  | .addClient s c => (w.modify s fun _ ↦ c).addClient c.socket s
  | .deleteClientBySocket socket => (w.deleteClientBySocket socket).2
  | .deleteRwLockedClient s => (w.deleteRwLockedClient s).2
  | .killExpiredClientsSession now trylock => w.killExpiredClientsSession now trylock
  | .killAllClients => w.killAllClients
  | .touch s c => w.modify s fun _ ↦ c

/-- No client is there. -/
def start (heap : ClientId → ClientSession) : Clients := ⟨heap, [], fun _ ↦ none⟩

/-- **No session is killed because it has expired.** -/
def NoneExpired (w : Clients) : ClientEvent → Prop
  | .killExpiredClientsSession now trylock =>
    ∀ e ∈ w.connHash, (isExpiredClient now (trylock e.2) (w.heap e.2)).1 = false
  | _ => True

/-- **The tables agree**: the lists of `client_ip_hash` have the registered sessions, each once and
under its address, and none of them is empty. -/
structure Agree (w : Clients) : Prop where
  keys : (w.connHash.map Prod.fst).Nodup
  sockets : ∀ e ∈ w.connHash, e.1 = (w.heap e.2).socket
  once : ∀ s, w.Registered s → (w.sessionsAt (w.heap s).addr).count s = 1
  only : ∀ a, ∀ s ∈ w.sessionsAt a, a = (w.heap s).addr ∧ w.Registered s
  nonempty : ∀ a ipsessions, w.ipHash a = some ipsessions → ipsessions.sessions ≠ []

end Clients

/-- **The machine of the client tables.** -/
def clientMachine : Machine Clients ClientEvent where
  init w := ∃ heap, w = Clients.start heap
  enabled := Clients.enabled
  step := Clients.step

namespace Clients

variable {w : Clients} {s : ClientId} {socket : ℕ}

theorem agree_start (heap : ClientId → ClientSession) : Agree (start heap) where
  keys := List.nodup_nil
  sockets _ he := absurd he List.not_mem_nil
  once _ hs := absurd hs List.not_mem_nil
  only _ _ hs := absurd hs List.not_mem_nil
  nonempty _ _ h := by cases h

/-! ### Looking up -/

/-- What is left when sessions are killed because they have expired: a registered session is found
by its socket, and is in the list of its address. Of the other pointers in the lists nothing is
said. -/
structure Sound (w : Clients) : Prop where
  keys : (w.connHash.map Prod.fst).Nodup
  sockets : ∀ e ∈ w.connHash, e.1 = (w.heap e.2).socket
  listed : ∀ s, w.Registered s → s ∈ w.sessionsAt (w.heap s).addr

theorem Agree.sound (hw : Agree w) : Sound w where
  keys := hw.keys
  sockets := hw.sockets
  listed s hs := List.count_pos_iff.1 (by rw [hw.once s hs]; exact Nat.zero_lt_one)

theorem Sound.lookup (hw : Sound w) (hs : w.Registered s) :
    w.getClientDatasBySocket (w.heap s).socket = some s := by
  rw [getClientDatasBySocket, find?_of_mem_of_nodup hw.keys hs]
  rfl

/-- No two sessions have the same socket. -/
theorem Sound.eq_of_socket (hw : Sound w) {t : ClientId} (ht : w.Registered t)
    (hs : w.Registered s) (h : (w.heap t).socket = (w.heap s).socket) : t = s :=
  congrArg Prod.snd (List.inj_on_of_nodup_map hw.keys ht hs h)

theorem Sound.registered_of_mem (hw : Sound w) {e : ℕ × ClientId} (he : e ∈ w.connHash) :
    w.Registered e.2 := by
  rw [Registered, ← hw.sockets e he]
  exact he

theorem Sound.registered_of_lookup (hw : Sound w)
    (h : w.getClientDatasBySocket socket = some s) :
    w.Registered s ∧ socket = (w.heap s).socket := by
  obtain ⟨e, hfind, rfl⟩ := Option.map_eq_some_iff.1 h
  have hmem := List.mem_of_find?_eq_some hfind
  have hkey : e.1 = socket := by simpa using List.find?_some hfind
  exact ⟨hw.registered_of_mem hmem, hkey.symm.trans (hw.sockets e hmem)⟩

/-- A registered session is in the list of its address. -/
theorem Sound.exists_ipSessions (hw : Sound w) (hs : w.Registered s) :
    ∃ ipsessions, w.ipHash (w.heap s).addr = some ipsessions ∧ s ∈ ipsessions.sessions := by
  have hmem := hw.listed s hs
  rw [sessionsAt] at hmem
  cases hip : w.ipHash (w.heap s).addr with
  | none =>
    rw [hip] at hmem
    exact absurd hmem List.not_mem_nil
  | some ipsessions =>
    rw [hip] at hmem
    exact ⟨ipsessions, rfl, hmem⟩

/-! ### Changing a session -/

section

variable {heap : ClientId → ClientSession}
  (hheap : ∀ e ∈ w.connHash, (heap e.2).addr = (w.heap e.2).addr ∧
    (heap e.2).socket = (w.heap e.2).socket)

include hheap

theorem registered_of_heap (s : ClientId) :
    Registered { w with heap := heap } s ↔ w.Registered s := by
  constructor
  · intro hs
    have hsocket : (heap s).socket = (w.heap s).socket := (hheap _ hs).2
    rw [Registered, ← hsocket]
    exact hs
  · intro hs
    show ((heap s).socket, s) ∈ w.connHash
    rw [(hheap _ hs).2]
    exact hs

/-- Only the addresses and the sockets of the registered sessions matter. -/
theorem Sound.of_heap (hw : Sound w) : Sound { w with heap := heap } := by
  refine ⟨hw.keys, fun e he ↦ (hw.sockets e he).trans (hheap e he).2.symm, fun s hs ↦ ?_⟩
  have hs := (registered_of_heap hheap s).1 hs
  show s ∈ w.sessionsAt (heap s).addr
  rw [(hheap _ hs).1]
  exact hw.listed s hs

theorem Agree.of_heap (hw : Agree w) : Agree { w with heap := heap } := by
  obtain ⟨hkeys, hsockets, -⟩ := hw.sound.of_heap hheap
  refine ⟨hkeys, hsockets, fun s hs ↦ ?_, fun a s hs ↦ ?_, hw.nonempty⟩
  · have hs := (registered_of_heap hheap s).1 hs
    show (w.sessionsAt (heap s).addr).count s = 1
    rw [(hheap _ hs).1]
    exact hw.once s hs
  · obtain ⟨ha, hs⟩ := hw.only a s hs
    exact ⟨ha.trans (hheap _ hs).1.symm, (registered_of_heap hheap s).2 hs⟩

end

theorem Agree.modify (hw : Agree w) {f : ClientSession → ClientSession}
    (haddr : (f (w.heap s)).addr = (w.heap s).addr)
    (hsocket : (f (w.heap s)).socket = (w.heap s).socket) : Agree (w.modify s f) :=
  Agree.of_heap (fun e _ ↦ ⟨apply_heap_modify ClientSession.addr haddr e.2,
    apply_heap_modify ClientSession.socket hsocket e.2⟩) hw

/-- A session is allocated. -/
theorem heap_allocate (hnew : ∀ e ∈ w.connHash, e.2 ≠ s) (f : ClientSession → ClientSession) :
    ∀ e ∈ w.connHash, ((w.modify s f).heap e.2).addr = (w.heap e.2).addr ∧
      ((w.modify s f).heap e.2).socket = (w.heap e.2).socket := by
  intro e he
  rw [heap_modify_of_ne (hnew e he)]
  exact ⟨rfl, rfl⟩

theorem Agree.allocate (hw : Agree w) (hnew : ∀ e ∈ w.connHash, e.2 ≠ s)
    (f : ClientSession → ClientSession) : Agree (w.modify s f) :=
  Agree.of_heap (heap_allocate hnew f) hw

/-! ### Adding and removing -/

theorem sessionsAt_of_update {w' : Clients} {b : In6Addr} {o : Option IpSessions}
    (h : w'.ipHash = Function.update w.ipHash b o) (a : In6Addr) :
    w'.sessionsAt a = if a = b then (o.map IpSessions.sessions).getD [] else w.sessionsAt a := by
  rw [sessionsAt, h]
  split
  · rename_i hab
    rw [hab, Function.update_self]
  · rename_i hab
    rw [Function.update_of_ne hab]
    rfl

theorem nonempty_of_update {w' : Clients} {b : In6Addr} {o : Option IpSessions}
    (hw : ∀ a ipsessions, w.ipHash a = some ipsessions → ipsessions.sessions ≠ [])
    (h : w'.ipHash = Function.update w.ipHash b o)
    (ho : ∀ ipsessions, o = some ipsessions → ipsessions.sessions ≠ []) :
    ∀ a ipsessions, w'.ipHash a = some ipsessions → ipsessions.sessions ≠ [] := by
  intro a ipsessions ha
  rw [h] at ha
  by_cases hab : a = b
  · rw [hab, Function.update_self] at ha
    exact ho ipsessions ha
  · rw [Function.update_of_ne hab] at ha
    exact hw a ipsessions ha

theorem sessions_ipSessionsWith (w : Clients) (c : ClientSession) :
    (ipSessionsWith c (w.ipHash c.addr)).sessions = w.sessionsAt c.addr := by
  rw [ipSessionsWith, sessionsAt]
  cases w.ipHash c.addr with
  | none => simp
  | some ipsessions =>
    simp only [Option.getD_some, Option.map_some]
    split
    · rfl
    · rfl

theorem removeConn_of_none (h : w.getClientDatasBySocket socket = none) :
    w.removeConn socket = w := by
  rw [removeConn, h]

section

variable {w' : Clients}

theorem registered_of_added (hheap : w'.heap = w.heap)
    (hconn : w'.connHash = ((w.heap s).socket, s) :: w.connHash) (t : ClientId) :
    w'.Registered t ↔ t = s ∨ w.Registered t := by
  rw [Registered, hheap, hconn, List.mem_cons, Prod.mk.injEq]
  exact or_congr_left ⟨fun h ↦ h.2, fun h ↦ ⟨by rw [h], h⟩⟩

/-- A session has been added to both tables. -/
theorem Sound.added (hw : Sound w) (hfree : ∀ e ∈ w.connHash, e.1 ≠ (w.heap s).socket ∧ e.2 ≠ s)
    (hheap : w'.heap = w.heap) (hconn : w'.connHash = ((w.heap s).socket, s) :: w.connHash)
    (hlist : ∀ a, w'.sessionsAt a =
      if a = (w.heap s).addr then s :: w.sessionsAt a else w.sessionsAt a) : Sound w' := by
  refine ⟨?_, fun e he ↦ ?_, fun t ht ↦ ?_⟩
  · rw [hconn]
    refine List.nodup_cons.2 ⟨fun hmem ↦ ?_, hw.keys⟩
    obtain ⟨e, he, hkey⟩ := List.mem_map.1 hmem
    exact (hfree e he).1 hkey
  · rw [hheap]
    rw [hconn] at he
    rcases List.mem_cons.1 he with rfl | he
    · rfl
    · exact hw.sockets e he
  · rw [hheap, hlist]
    rcases (registered_of_added hheap hconn t).1 ht with rfl | ht
    · rw [if_pos rfl]
      exact List.mem_cons_self
    · split
      · exact List.mem_cons_of_mem _ (hw.listed t ht)
      · exact hw.listed t ht

theorem Agree.added (hw : Agree w) (hfree : ∀ e ∈ w.connHash, e.1 ≠ (w.heap s).socket ∧ e.2 ≠ s)
    (hnew : ∀ a, s ∉ w.sessionsAt a) (hheap : w'.heap = w.heap)
    (hconn : w'.connHash = ((w.heap s).socket, s) :: w.connHash)
    (hlist : ∀ a, w'.sessionsAt a =
      if a = (w.heap s).addr then s :: w.sessionsAt a else w.sessionsAt a)
    (hnonempty : ∀ a ipsessions, w'.ipHash a = some ipsessions → ipsessions.sessions ≠ []) :
    Agree w' := by
  have hreg := registered_of_added hheap hconn
  obtain ⟨hkeys, hsockets, -⟩ := hw.sound.added hfree hheap hconn hlist
  refine ⟨hkeys, hsockets, fun t ht ↦ ?_, fun a t ht ↦ ?_, hnonempty⟩
  · rw [hheap, hlist]
    rcases (hreg t).1 ht with rfl | ht
    · rw [if_pos rfl, List.count_cons_self, List.count_eq_zero.2 (hnew _)]
    · have hts : s ≠ t := fun h ↦ (hfree _ ht).2 h.symm
      rw [← hw.once t ht]
      split
      · exact List.count_cons_of_ne hts
      · rfl
  · rw [hlist] at ht
    rw [hheap, hreg]
    have hold : t ∈ w.sessionsAt a → a = (w.heap t).addr ∧ (t = s ∨ w.Registered t) := fun h ↦
      ⟨(hw.only a t h).1, Or.inr (hw.only a t h).2⟩
    split at ht
    · rename_i ha
      rcases List.mem_cons.1 ht with rfl | ht
      · exact ⟨ha, Or.inl rfl⟩
      · exact hold ht
    · exact hold ht

theorem Sound.registered_of_removed (hw : Sound w) (hs : w.Registered s)
    (hsocket : ∀ t, (w'.heap t).socket = (w.heap t).socket)
    (hconn : w'.connHash = w.connHash.eraseP (·.1 = (w.heap s).socket)) (t : ClientId) :
    w'.Registered t ↔ t ≠ s ∧ w.Registered t := by
  rw [Registered, hsocket, hconn]
  constructor
  · intro ht
    refine ⟨fun hts ↦ ?_, List.mem_of_mem_eraseP ht⟩
    rw [hts] at ht
    exact List.find?_eq_none.1 (find?_eraseP_of_nodup hw.keys (w.heap s).socket) _ ht
      (decide_eq_true rfl)
  · rintro ⟨hts, ht⟩
    have hne : (w.heap t).socket ≠ (w.heap s).socket := fun hkey ↦ hts (hw.eq_of_socket ht hs hkey)
    exact (List.mem_eraseP_of_neg (by simp [hne])).2 ht

/-- A session has been taken out of `client_conn_hash`, and perhaps of the other table. -/
theorem Sound.removed (hw : Sound w) (hs : w.Registered s)
    (haddr : ∀ t, (w'.heap t).addr = (w.heap t).addr)
    (hsocket : ∀ t, (w'.heap t).socket = (w.heap t).socket)
    (hconn : w'.connHash = w.connHash.eraseP (·.1 = (w.heap s).socket))
    (hlist : ∀ a, ∀ t ∈ w.sessionsAt a, t ≠ s → t ∈ w'.sessionsAt a) : Sound w' := by
  refine ⟨?_, fun e he ↦ ?_, fun t ht ↦ ?_⟩
  · rw [hconn]
    exact hw.keys.sublist (List.eraseP_sublist.map _)
  · rw [hsocket]
    rw [hconn] at he
    exact hw.sockets e (List.mem_of_mem_eraseP he)
  · obtain ⟨hts, ht⟩ := (hw.registered_of_removed hs hsocket hconn t).1 ht
    rw [haddr]
    exact hlist _ t (hw.listed t ht) hts

/-- A session has been taken out of both tables. -/
theorem Agree.removed (hw : Agree w) (hs : w.Registered s)
    (haddr : ∀ t, (w'.heap t).addr = (w.heap t).addr)
    (hsocket : ∀ t, (w'.heap t).socket = (w.heap t).socket)
    (hconn : w'.connHash = w.connHash.eraseP (·.1 = (w.heap s).socket))
    (hlist : ∀ a, w'.sessionsAt a =
      if a = (w.heap s).addr then (w.sessionsAt a).erase s else w.sessionsAt a)
    (hnonempty : ∀ a ipsessions, w'.ipHash a = some ipsessions → ipsessions.sessions ≠ []) :
    Agree w' := by
  have hreg := hw.sound.registered_of_removed hs hsocket hconn
  obtain ⟨hkeys, hsockets, -⟩ := hw.sound.removed hs haddr hsocket hconn fun a t ht hts ↦ by
    rw [hlist]
    split
    · exact (List.mem_erase_of_ne hts).2 ht
    · exact ht
  refine ⟨hkeys, hsockets, fun t ht ↦ ?_, fun a t ht ↦ ?_, hnonempty⟩
  · obtain ⟨hts, ht⟩ := (hreg t).1 ht
    rw [haddr, hlist, ← hw.once t ht]
    split
    · exact List.count_erase_of_ne hts
    · rfl
  · rw [hlist] at ht
    rw [haddr, hreg]
    have hmem : t ∈ w.sessionsAt a := by
      split at ht
      · exact List.mem_of_mem_erase ht
      · exact ht
    obtain ⟨ha, ht'⟩ := hw.only a t hmem
    refine ⟨ha, fun hts ↦ ?_, ht'⟩
    -- the list had the session once
    rw [hts] at ha ht
    rw [if_pos ha] at ht
    have hcount := List.count_erase_self (a := s) (l := w.sessionsAt a)
    rw [ha, hw.once s hs] at hcount
    exact List.count_eq_zero.1 hcount (ha ▸ ht)

end

/-- What `add_client` does under a socket that nobody has. -/
theorem addClient_eq (hfree : ∀ e ∈ w.connHash, e.1 ≠ (w.heap s).socket ∧ e.2 ≠ s) :
    ∃ ipsessions : IpSessions, ipsessions.sessions = w.sessionsAt (w.heap s).addr ∧
      w.addClient (w.heap s).socket s = { w with
        connHash := ((w.heap s).socket, s) :: w.connHash
        ipHash := Function.update w.ipHash (w.heap s).addr
          (some { ipsessions with sessions := s :: ipsessions.sessions }) } := by
  have hnone : w.getClientDatasBySocket (w.heap s).socket = none :=
    Option.map_eq_none_iff.2 (List.find?_eq_none.2 fun e he hkey ↦
      (hfree e he).1 (of_decide_eq_true hkey))
  refine ⟨_, sessions_ipSessionsWith w (w.heap s), ?_⟩
  rw [Clients.addClient, removeConn_of_none hnone]

theorem heap_addClient (hfree : ∀ e ∈ w.connHash, e.1 ≠ (w.heap s).socket ∧ e.2 ≠ s) :
    (w.addClient (w.heap s).socket s).heap = w.heap := by
  obtain ⟨ipsessions, -, heq⟩ := addClient_eq hfree
  rw [heq]

theorem connHash_addClient (hfree : ∀ e ∈ w.connHash, e.1 ≠ (w.heap s).socket ∧ e.2 ≠ s) :
    (w.addClient (w.heap s).socket s).connHash = ((w.heap s).socket, s) :: w.connHash := by
  obtain ⟨ipsessions, -, heq⟩ := addClient_eq hfree
  rw [heq]

theorem registered_addClient (hfree : ∀ e ∈ w.connHash, e.1 ≠ (w.heap s).socket ∧ e.2 ≠ s)
    (t : ClientId) : (w.addClient (w.heap s).socket s).Registered t ↔ t = s ∨ w.Registered t :=
  registered_of_added (heap_addClient hfree) (connHash_addClient hfree) t

theorem sessionsAt_addClient (hfree : ∀ e ∈ w.connHash, e.1 ≠ (w.heap s).socket ∧ e.2 ≠ s)
    (a : In6Addr) : (w.addClient (w.heap s).socket s).sessionsAt a =
      if a = (w.heap s).addr then s :: w.sessionsAt a else w.sessionsAt a := by
  obtain ⟨ipsessions, hsessions, heq⟩ := addClient_eq hfree
  rw [heq, sessionsAt_of_update rfl]
  split
  · rename_i ha
    rw [Option.map_some, Option.getD_some, ha, ← hsessions]
  · rfl

/-- A session is registered under a socket that nobody has. -/
theorem Sound.addClient (hw : Sound w)
    (hfree : ∀ e ∈ w.connHash, e.1 ≠ (w.heap s).socket ∧ e.2 ≠ s) :
    Sound (w.addClient (w.heap s).socket s) := by
  exact hw.added hfree (heap_addClient hfree) (connHash_addClient hfree)
    (sessionsAt_addClient hfree)

theorem Agree.addClient (hw : Agree w)
    (hfree : ∀ e ∈ w.connHash, e.1 ≠ (w.heap s).socket ∧ e.2 ≠ s) :
    Agree (w.addClient (w.heap s).socket s) := by
  have hnew : ∀ a, s ∉ w.sessionsAt a := fun a hmem ↦ (hfree _ (hw.only a s hmem).2).2 rfl
  have hlist := sessionsAt_addClient hfree
  obtain ⟨ipsessions, -, heq⟩ := addClient_eq hfree
  rw [heq] at hlist ⊢
  refine hw.added hfree hnew rfl rfl hlist (nonempty_of_update hw.nonempty rfl ?_)
  rintro ips h
  rw [← Option.some.inj h]
  exact List.cons_ne_nil _ _

/-- A registered session leaves both tables. -/
def unregister (s : ClientId) (w : Clients) : Clients :=
  (w.cleanupSession s).2.removeConn (w.heap s).socket

theorem Sound.cleanupSession_ok (hw : Sound w) (hs : w.Registered s) :
    (w.cleanupSession s).1 = .ok := by
  obtain ⟨ipsessions, hip, -⟩ := hw.exists_ipSessions hs
  rw [cleanupSession, hip]

/-- What it does to the sockets, and to the sessions. -/
theorem Sound.unregister_eq (hw : Sound w) (hs : w.Registered s) :
    ∃ ipsessions, w.ipHash (w.heap s).addr = some ipsessions ∧
      w.unregister s = { (w.deleteSessionFromHash ipsessions s).logCleanSession s with
        connHash := w.connHash.eraseP (·.1 = (w.heap s).socket) } := by
  obtain ⟨ipsessions, hip, -⟩ := hw.exists_ipSessions hs
  have hlookup : (w.deleteSessionFromHash ipsessions s).getClientDatasBySocket
      (w.heap s).socket = some s := hw.lookup hs
  refine ⟨ipsessions, hip, ?_⟩
  rw [Clients.unregister, cleanupSession, hip]
  dsimp only
  rw [removeConn, hlookup]
  rfl

theorem Sound.heap_unregister (hw : Sound w) (hs : w.Registered s) :
    (w.unregister s).heap =
      Function.update w.heap s { w.heap s with destroyed := true } := by
  obtain ⟨ipsessions, -, heq⟩ := hw.unregister_eq hs
  rw [heq]
  rfl

theorem Sound.registered_unregister (hw : Sound w) (hs : w.Registered s) (t : ClientId) :
    (w.unregister s).Registered t ↔ t ≠ s ∧ w.Registered t := by
  obtain ⟨ipsessions, -, heq⟩ := hw.unregister_eq hs
  refine hw.registered_of_removed hs (fun t ↦ ?_) ?_ t
  · rw [heq]
    exact socket_logCleanSession (w.deleteSessionFromHash ipsessions s) s t
  · rw [heq]

theorem Sound.sessionsAt_unregister (hw : Sound w) (hs : w.Registered s) (a : In6Addr) :
    (w.unregister s).sessionsAt a =
      if a = (w.heap s).addr then (w.sessionsAt a).erase s else w.sessionsAt a := by
  obtain ⟨ipsessions, hip, heq⟩ := hw.unregister_eq hs
  rw [heq, sessionsAt_of_update rfl]
  split
  · rename_i ha
    have hlist : w.sessionsAt a = ipsessions.sessions := by
      rw [sessionsAt, ha, hip]
      rfl
    rw [hlist]
    split
    · rename_i hnil
      exact hnil.symm
    · rfl
  · rfl

theorem Sound.connHash_unregister (hw : Sound w) (hs : w.Registered s) :
    (w.unregister s).connHash = w.connHash.eraseP (·.1 = (w.heap s).socket) := by
  obtain ⟨ipsessions, -, heq⟩ := hw.unregister_eq hs
  rw [heq]

theorem Sound.unregister (hw : Sound w) (hs : w.Registered s) : Sound (w.unregister s) := by
  have hheap := hw.heap_unregister hs
  refine hw.removed hs (fun t ↦ ?_) (fun t ↦ ?_) (hw.connHash_unregister hs) fun a t ht hts ↦ ?_
  · rw [hheap]
    exact addr_logCleanSession w s t
  · rw [hheap]
    exact socket_logCleanSession w s t
  · rw [hw.sessionsAt_unregister hs]
    split
    · exact (List.mem_erase_of_ne hts).2 ht
    · exact ht

/-- **Leaving both tables keeps them in agreement.** -/
theorem Agree.unregister (hw : Agree w) (hs : w.Registered s) : Agree (w.unregister s) := by
  have hlist := hw.sound.sessionsAt_unregister hs
  obtain ⟨ipsessions, hip, heq⟩ := hw.sound.unregister_eq hs
  rw [heq] at hlist ⊢
  refine hw.removed hs (fun t ↦ ?_) (fun t ↦ ?_) rfl hlist
    (nonempty_of_update hw.nonempty rfl ?_)
  · exact addr_logCleanSession (w.deleteSessionFromHash ipsessions s) s t
  · exact socket_logCleanSession (w.deleteSessionFromHash ipsessions s) s t
  · rintro ips h
    split at h
    · cases h
    · rename_i hne
      rw [← Option.some.inj h]
      exact hne

/-! ### The functions -/

/-- `delete_client_by_socket_ext` on a registered session. -/
theorem Sound.deleteClientBySocketExt_eq (hw : Sound w) (hs : w.Registered s) :
    (w.deleteClientBySocketExt (w.heap s).socket).2 = w.unregister s := by
  obtain ⟨ipsessions, hip, -⟩ := hw.exists_ipSessions hs
  rw [Clients.deleteClientBySocketExt, hw.lookup hs, Clients.unregister]
  dsimp only
  rw [cleanupSession, hip]
  rfl

theorem Agree.deleteClientBySocketExt (hw : Agree w) (socket : ℕ) :
    Agree (w.deleteClientBySocketExt socket).2 := by
  cases hlookup : w.getClientDatasBySocket socket with
  | none =>
    rw [Clients.deleteClientBySocketExt, hlookup]
    exact hw
  | some s =>
    obtain ⟨hs, hsocket⟩ := hw.sound.registered_of_lookup hlookup
    rw [hsocket, hw.sound.deleteClientBySocketExt_eq hs]
    exact hw.unregister hs

/-- One entry of `kill_all_clients`. -/
theorem Sound.killClient_eq (hw : Sound w) {e : ℕ × ClientId} (he : e ∈ w.connHash) :
    w.killClient e = if (w.heap e.2).activated = false
      then w.modify e.2 fun c ↦ { c with pendingDisconnect := true } else w.unregister e.2 := by
  obtain ⟨ipsessions, hip, -⟩ := hw.exists_ipSessions (hw.registered_of_mem he)
  rw [Clients.killClient, killAllClientsCb]
  by_cases hact : (w.heap e.2).activated = false
  · rw [if_pos hact, if_pos hact]
  · rw [if_neg hact, if_neg hact, cleanupSession, hip, hw.sockets e he, Clients.unregister,
      cleanupSession, hip]

theorem Agree.killClient (hw : Agree w) {e : ℕ × ClientId} (he : e ∈ w.connHash) :
    Agree (w.killClient e) := by
  rw [hw.sound.killClient_eq he]
  split
  · exact hw.modify rfl rfl
  · exact hw.unregister (hw.sound.registered_of_mem he)

/-- The other entries stay. -/
theorem mem_connHash_removeConn {e : ℕ × ClientId} (he : e ∈ w.connHash) (hne : e.1 ≠ socket) :
    e ∈ (w.removeConn socket).connHash := by
  rw [removeConn]
  split
  · exact he
  · exact (List.mem_eraseP_of_neg (by simp [hne])).2 he

theorem connHash_cleanupSession (s : ClientId) (w : Clients) :
    (w.cleanupSession s).2.connHash = w.connHash := by
  rw [cleanupSession]
  split
  · rfl
  · rfl

theorem connHash_killAllClientsCb (s : ClientId) (w : Clients) :
    (w.killAllClientsCb s).2.connHash = w.connHash := by
  have hclean := connHash_cleanupSession s w
  rw [killAllClientsCb]
  split
  · rfl
  · split
    · rename_i h
      rw [h] at hclean
      exact hclean
    · rename_i h
      rw [h] at hclean
      exact hclean

theorem mem_connHash_killClient {e e' : ℕ × ClientId} (he : e' ∈ w.connHash) (hne : e'.1 ≠ e.1) :
    e' ∈ (w.killClient e).connHash := by
  have hcb := connHash_killAllClientsCb e.2 w
  rw [killClient]
  split
  · rename_i h
    rw [h] at hcb
    exact mem_connHash_removeConn (hcb ▸ he) hne
  · rename_i h
    rw [h] at hcb
    exact hcb ▸ he

/-- `kill_all_clients`, over some of the entries. -/
theorem Agree.foldl_killClient {l : List (ℕ × ClientId)} (hl : (l.map Prod.fst).Nodup)
    (hw : Agree w) (hmem : ∀ e ∈ l, e ∈ w.connHash) :
    Agree (l.foldl (fun w e ↦ w.killClient e) w) := by
  induction l generalizing w with
  | nil => exact hw
  | cons e l ih =>
    obtain ⟨hnot, hl⟩ := List.nodup_cons.1 hl
    refine ih hl (hw.killClient (hmem e List.mem_cons_self)) fun e' he' ↦ ?_
    refine mem_connHash_killClient (hmem e' (List.mem_cons_of_mem _ he')) fun hkey ↦ hnot ?_
    exact hkey ▸ List.mem_map_of_mem he'

/-- Sessions have been marked for disconnection, and nothing else has happened. -/
def Marked (w w' : Clients) : Prop :=
  ∃ heap, w' = { w with heap := heap } ∧ ∀ s, MarkedFrom (w.heap s) (heap s)

theorem Agree.marked {w' : Clients} (hw : Agree w) (h : Marked w w') : Agree w' := by
  obtain ⟨heap, rfl, hmark⟩ := h
  refine Agree.of_heap (fun e _ ↦ ?_) hw
  obtain ⟨b, -, hb⟩ := hmark e.2
  rw [hb]
  exact ⟨rfl, rfl⟩

/-- `kill_expired_clients_session`, over entries of which none has expired. -/
theorem Marked.foldl_killExpiredClient {now : Int} {trylock : ClientId → Bool × Bool}
    {w' : Clients} {l : List (ℕ × ClientId)}
    (hlive : ∀ e ∈ l, (isExpiredClient now (trylock e.2) (w.heap e.2)).1 = false)
    (h : Marked w w') :
    Marked w (l.foldl (fun w e ↦ w.killExpiredClient now trylock e) w') := by
  induction l generalizing w' with
  | nil => exact h
  | cons e l ih =>
    obtain ⟨heap, rfl, hmark⟩ := h
    have hself := markedFrom_isExpiredClient now (trylock e.2) (heap e.2)
    have hfst : (isExpiredClient now (trylock e.2) (heap e.2)).1 = false := by
      obtain ⟨b, -, hb⟩ := hmark e.2
      rw [hb, isExpiredClient_pendingDisconnect]
      exact hlive e List.mem_cons_self
    rw [List.foldl_cons]
    refine ih (fun e' he' ↦ hlive e' (List.mem_cons_of_mem _ he'))
      ⟨Function.update heap e.2 (isExpiredClient now (trylock e.2) (heap e.2)).2, ?_, fun s ↦ ?_⟩
    · rw [Clients.killExpiredClient]
      dsimp only
      rw [hfst]
      rfl
    · by_cases hs : s = e.2
      · rw [hs, Function.update_self]
        exact (hmark e.2).trans hself
      · rw [Function.update_of_ne hs]
        exact hmark s

theorem marked_killExpiredClientsSession {now : Int} {trylock : ClientId → Bool × Bool}
    (hlive : ∀ e ∈ w.connHash, (isExpiredClient now (trylock e.2) (w.heap e.2)).1 = false) :
    Marked w (w.killExpiredClientsSession now trylock) :=
  Marked.foldl_killExpiredClient hlive ⟨w.heap, rfl, fun _ ↦ .refl _⟩

section

variable (now : Int) (trylock : ClientId → Bool × Bool) {e : ℕ × ClientId}

/-- `kill_expired_clients_session`, one entry: a session that has expired is destroyed, and stays in
the list of its address. -/
theorem Sound.killExpiredClient_eq (hw : Sound w) (he : e ∈ w.connHash) :
    ∃ b, w.killExpiredClient now trylock e =
      if (isExpiredClient now (trylock e.2) (w.heap e.2)).1 = true then
        { w with
          heap := Function.update w.heap e.2
            { w.heap e.2 with pendingDisconnect := b, destroyed := true }
          connHash := w.connHash.eraseP (·.1 = (w.heap e.2).socket) }
      else w.modify e.2 fun c ↦ { c with pendingDisconnect := b } := by
  obtain ⟨b, -, hb⟩ := markedFrom_isExpiredClient now (trylock e.2) (w.heap e.2)
  have hlookup : (w.modify e.2 fun _ ↦ { w.heap e.2 with pendingDisconnect := b
      }).getClientDatasBySocket (w.heap e.2).socket = some e.2 :=
        hw.lookup (hw.registered_of_mem he)
  refine ⟨b, ?_⟩
  rw [Clients.killExpiredClient]
  dsimp only
  rw [hb]
  split
  · rw [hw.sockets e he, removeConn, hlookup]
    simp only [logCleanSession, modify, Function.update_idem, Function.update_self]
  · rfl

/-- What one entry leaves alone. -/
structure Killed (w w' : Clients) : Prop where
  ipHash : w'.ipHash = w.ipHash
  destroyed : ∀ t, (w.heap t).destroyed = true → (w'.heap t).destroyed = true

theorem Killed.trans {w' w'' : Clients} (h : Killed w w') (h' : Killed w' w'') : Killed w w'' where
  ipHash := h'.ipHash.trans h.ipHash
  destroyed t ht := h'.destroyed t (h.destroyed t ht)

theorem Sound.killExpiredClient (hw : Sound w) (he : e ∈ w.connHash) :
    Sound (w.killExpiredClient now trylock e) ∧ Killed w (w.killExpiredClient now trylock e) := by
  obtain ⟨b, heq⟩ := hw.killExpiredClient_eq now trylock he
  rw [heq]
  split
  · have hkeep : ∀ {β : Type} (g : ClientSession → β),
        g { w.heap e.2 with pendingDisconnect := b, destroyed := true } = g (w.heap e.2) → ∀ t,
        g (Function.update w.heap e.2
          { w.heap e.2 with pendingDisconnect := b, destroyed := true } t) = g (w.heap t) :=
      fun g hg t ↦ apply_heap_modify g (w := w) (s := e.2)
        (f := fun c ↦ { c with pendingDisconnect := b, destroyed := true }) hg t
    refine ⟨hw.removed (hw.registered_of_mem he) (hkeep _ rfl) (hkeep _ rfl) rfl
      fun a t ht _ ↦ ht, rfl, fun t ht ↦ ?_⟩
    by_cases hts : t = e.2
    · rw [hts]
      dsimp only
      rw [Function.update_self]
    · dsimp only
      rw [Function.update_of_ne hts]
      exact ht
  · have hkeep : ∀ {β : Type} (g : ClientSession → β),
        g { w.heap e.2 with pendingDisconnect := b } = g (w.heap e.2) → ∀ t,
        g ((w.modify e.2 fun c ↦ { c with pendingDisconnect := b }).heap t) = g (w.heap t) :=
      fun g hg t ↦ apply_heap_modify g (f := fun c ↦ { c with pendingDisconnect := b }) hg t
    exact ⟨Sound.of_heap (fun e' _ ↦ ⟨hkeep _ rfl e'.2, hkeep _ rfl e'.2⟩) hw, rfl,
      fun t ht ↦ (hkeep _ rfl t).trans ht⟩

theorem Sound.destroyed_killExpiredClient (hw : Sound w) (he : e ∈ w.connHash)
    (hexp : (isExpiredClient now (trylock e.2) (w.heap e.2)).1 = true) :
    ((w.killExpiredClient now trylock e).heap e.2).destroyed = true := by
  obtain ⟨b, heq⟩ := hw.killExpiredClient_eq now trylock he
  rw [heq, if_pos hexp]
  dsimp only
  rw [Function.update_self]

/-- The other entries stay, with their sessions. -/
theorem Sound.killExpiredClient_of_ne (hw : Sound w) (he : e ∈ w.connHash) {e' : ℕ × ClientId}
    (he' : e' ∈ w.connHash) (hne : e'.1 ≠ e.1) :
    e' ∈ (w.killExpiredClient now trylock e).connHash ∧
      (w.killExpiredClient now trylock e).heap e'.2 = w.heap e'.2 := by
  have hsession : e'.2 ≠ e.2 := by
    intro h
    rw [hw.sockets e' he', h, ← hw.sockets e he] at hne
    exact hne rfl
  obtain ⟨b, heq⟩ := hw.killExpiredClient_eq now trylock he
  rw [heq]
  split
  · refine ⟨(List.mem_eraseP_of_neg ?_).2 he', Function.update_of_ne hsession _ _⟩
    rw [← hw.sockets e he]
    simp [hne]
  · exact ⟨he', heap_modify_of_ne hsession _ _⟩

/-- `kill_expired_clients_session`, some entries. -/
theorem Sound.foldl_killExpiredClient {l : List (ℕ × ClientId)} (hl : (l.map Prod.fst).Nodup)
    (hw : Sound w) (hmem : ∀ e ∈ l, e ∈ w.connHash) :
    Killed w (l.foldl (fun w e ↦ w.killExpiredClient now trylock e) w) ∧
      ∀ e ∈ l, (isExpiredClient now (trylock e.2) (w.heap e.2)).1 = true →
        ((l.foldl (fun w e ↦ w.killExpiredClient now trylock e) w).heap e.2).destroyed = true := by
  induction l generalizing w with
  | nil => exact ⟨⟨rfl, fun _ ↦ id⟩, fun _ he ↦ absurd he List.not_mem_nil⟩
  | cons e l ih =>
    obtain ⟨hnot, hl⟩ := List.nodup_cons.1 hl
    have he := hmem e List.mem_cons_self
    have hother : ∀ e' ∈ l, e' ∈ (w.killExpiredClient now trylock e).connHash ∧
        (w.killExpiredClient now trylock e).heap e'.2 = w.heap e'.2 := fun e' he' ↦
      hw.killExpiredClient_of_ne now trylock he (hmem e' (List.mem_cons_of_mem _ he')) fun hkey ↦
        hnot (hkey ▸ List.mem_map_of_mem he')
    obtain ⟨hsound, hkilled⟩ := hw.killExpiredClient now trylock he
    obtain ⟨hrest, hdestroyed⟩ := ih hl hsound fun e' he' ↦ (hother e' he').1
    refine ⟨hkilled.trans hrest, fun e' he' hexp ↦ ?_⟩
    rcases List.mem_cons.1 he' with rfl | he'
    · exact hrest.destroyed _ (hw.destroyed_killExpiredClient now trylock he hexp)
    · refine hdestroyed e' he' ?_
      rw [(hother e' he').2]
      exact hexp

/-- **A session that is killed because it has expired is destroyed, and stays in the list of its
address.** -/
theorem Sound.killed_session_listed (hw : Sound w) (he : e ∈ w.connHash)
    (hexp : (isExpiredClient now (trylock e.2) (w.heap e.2)).1 = true) :
    ((w.killExpiredClientsSession now trylock).heap e.2).destroyed = true ∧
      e.2 ∈ (w.killExpiredClientsSession now trylock).sessionsAt (w.heap e.2).addr := by
  obtain ⟨hkilled, hdestroyed⟩ := hw.foldl_killExpiredClient now trylock hw.keys fun _ ↦ id
  have hip : (w.killExpiredClientsSession now trylock).ipHash = w.ipHash := hkilled.ipHash
  refine ⟨hdestroyed e he hexp, ?_⟩
  rw [sessionsAt, hip]
  exact hw.listed e.2 (hw.registered_of_mem he)

end

/-- **Every step that kills no expired session keeps the tables in agreement.** -/
theorem agree_step {e : ClientEvent} (hw : Agree w) (he : w.enabled e) (hok : NoneExpired w e) :
    Agree (w.step e) := by
  cases e with
  | addClient s c =>
    have hnew := hw.allocate (fun e h ↦ (he e h).2) fun _ ↦ c
    have hsocket : c.socket = ((w.modify s fun _ ↦ c).heap s).socket := by
      rw [heap_modify_self]
    rw [step, hsocket]
    refine hnew.addClient fun e h ↦ ?_
    rw [← hsocket]
    exact he e h
  | deleteClientBySocket socket => exact hw.deleteClientBySocketExt socket
  | deleteRwLockedClient s => exact hw.deleteClientBySocketExt _
  | killExpiredClientsSession now trylock =>
    exact hw.marked (marked_killExpiredClientsSession hok)
  | killAllClients => exact hw.foldl_killClient hw.keys fun _ he ↦ he
  | touch s c => exact hw.modify (f := fun _ ↦ c) he.1 he.2

end Clients

/-- **The two tables of the clients agree**, in a run in which no session is killed because it has
expired: a session is registered under its socket exactly if it is, once, in the list of its
address, and in no other list; no list is empty; the entry of a socket is a session that has it; and
`cleanup_session` succeeds for every registered session. -/
theorem client_tables_agree {w : Clients} (hw : clientMachine.Reach Clients.NoneExpired w) :
    (∀ s, w.Registered s ↔ (w.sessionsAt (w.heap s).addr).count s = 1) ∧
    (∀ a, ∀ s ∈ w.sessionsAt a, a = (w.heap s).addr ∧ w.Registered s) ∧
    (∀ a ipsessions, w.ipHash a = some ipsessions → ipsessions.sessions ≠ []) ∧
    (∀ e ∈ w.connHash, w.Registered e.2 ∧ (w.cleanupSession e.2).1 = .ok) := by
  have hagree : w.Agree := by
    refine hw.invariant ?_ fun w e hw he hok ↦ Clients.agree_step hw he hok
    rintro w ⟨heap, rfl⟩
    exact Clients.agree_start heap
  refine ⟨fun s ↦ ⟨hagree.once s, fun hcount ↦ ?_⟩, hagree.only, hagree.nonempty, fun e he ↦ ?_⟩
  · have hmem : s ∈ w.sessionsAt (w.heap s).addr :=
      List.count_pos_iff.1 (by rw [hcount]; exact Nat.zero_lt_one)
    exact (hagree.only _ s hmem).2
  · have hs := hagree.sound.registered_of_mem he
    exact ⟨hs, hagree.sound.cleanupSession_ok hs⟩

/-- A session of the sample address, that expires at time 10. -/
def ClientSession.sample (socket : ℕ) : ClientSession where
  addr := Tracking.sample.saddr
  socket := socket
  userName := [98, 111, 98]
  protoVersion := protoVersionV24
  expire := 10
  lastRequest := 0
  workunitsQueue := []
  activated := false
  pendingDisconnect := false
  destroyed := false

/-- Two clients come, one goes, and nobody is killed before time 10. -/
def clientsRun : List ClientEvent :=
  [.addClient 0 (.sample 5), .addClient 1 (.sample 6), .deleteClientBySocket 5,
    .killExpiredClientsSession 9 fun _ ↦ (true, true)]

theorem clientsRun_path : clientMachine.Path Clients.NoneExpired
    (Clients.start fun _ ↦ .sample 0) clientsRun := by
  refine ⟨fun _ he ↦ absurd he List.not_mem_nil, trivial, ?_, trivial, trivial, trivial, trivial,
    ?_, trivial⟩
  · rintro e he
    rw [List.mem_singleton.1 he]
    decide
  · rintro e he
    rw [List.mem_singleton.1 he]
    decide

/-- The second one is in both tables. -/
theorem clientsRun_agree :
    let w := clientMachine.run (Clients.start fun _ ↦ .sample 0) clientsRun
    w.Registered 1 ∧ (w.sessionsAt Tracking.sample.saddr).count 1 = 1 := by
  intro w
  have hagree := client_tables_agree (clientMachine.reach_run ⟨_, rfl⟩ _ clientsRun_path)
  have hreg : w.Registered 1 := by decide
  exact ⟨hreg, (hagree.1 1).1 hreg⟩

/-- **A stale pointer**: the session has expired and is destroyed, and is still in the list of its
address. -/
theorem expired_session_stale :
    ∃ w, clientMachine.Reachable w ∧ ¬w.Registered 0 ∧ (w.heap 0).destroyed = true ∧
      (w.sessionsAt (w.heap 0).addr).count 0 = 1 := by
  refine ⟨_, clientMachine.reach_run (s := Clients.start fun _ ↦ .sample 0) ⟨_, rfl⟩
    [.addClient 0 (.sample 5), .killExpiredClientsSession 11 fun _ ↦ (true, true)] ?_,
    by decide, by decide, by decide⟩
  exact ⟨fun _ he ↦ absurd he List.not_mem_nil, trivial, trivial, trivial, trivial⟩

end Nufw
