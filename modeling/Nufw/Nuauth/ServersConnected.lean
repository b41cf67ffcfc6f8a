import Mathlib.Data.List.Nodup
import Nufw.Lib.Table
import Nufw.Lib.Transition
import Nufw.Nuauth.NufwServers

/-!
# Counting the gateways

`nufw_servers_connected` is the number of gateways that `tls_nufw_accept` compares with its limit.
`add_nufw_server` adds one; `declare_dead_nufw_session` takes one off before it looks whether the
session is still alive, and it is called by everybody who finds the session unusable: the reader in
`treat_nufw_request`, the end of the loop of the worker, and `send_auth_response` for every answer
that a dead session refuses. So one gateway that goes is taken off several times, the number gets
negative, and more gateways are let in than the limit allows.

In a run in which only living sessions are declared dead the number is right, and if moreover nobody
is accepted while a handshake is going on, the limit is respected
(`connected_counts_living_gateways`).

A descriptor is given by the kernel, so it is not that of an open session; `nufw_servers` is keyed
by it.
-/

namespace Nufw

/-- The gateways, and the threads that serve them. -/
structure Gateways where
  sessions : Sessions
  /-- `nussl_session_get_fd`. -/
  fd : SessionId → ℕ
  /-- The number of sessions allocated so far. -/
  allocated : ℕ
  /-- The workers in `tls_nufw_init_worker`. -/
  handshakes : List SessionId
  /-- `nufw_servers`. -/
  servers : List (ℕ × SessionId)
  /-- `nufw_servers_connected`. -/
  connected : Int
  /-- The loops of the workers. -/
  loop : SessionId → Bool
  /-- **Ghost**: the sessions registered so far. -/
  registered : List SessionId

/-- What happens to the gateways. -/
inductive ServersEvent where
  /-- `tls_nufw_accept`. -/
  | accept (fd : ℕ)
  /-- `tls_nufw_accept_unix`. -/
  | acceptUnix (fd : ℕ)
  /-- `tls_nufw_init_worker` registers the session, and the loop starts. -/
  | initWorker (s : SessionId)
  /-- `tls_nufw_init_worker` frees the session. -/
  | initFailure (s : SessionId)
  /-- `treat_nufw_request` declares the session dead. -/
  | treatFailure (s : SessionId)
  /-- The loop of a worker is over. -/
  | loopEnd (s : SessionId)
  /-- `send_auth_response`. -/
  | answer (s : SessionId)
  /-- `increase_nufw_session_usage`. -/
  | increase (s : SessionId)
  /-- `release_nufw_session`. -/
  | release (s : SessionId)

namespace Gateways

/-- `add_nufw_server`; the table cleans a session that it replaces. -/
def addNufwServer (fd : ℕ) (s : SessionId) (w : Gateways) : Gateways :=
  { w with
    sessions := w.sessions.modify ((w.servers.find? (·.1 = fd)).map Prod.snd) cleanNufwSession
    servers := (fd, s) :: w.servers.eraseP (·.1 = fd)
    connected := w.connected + 1
    registered := s :: w.registered }

/-- `declare_dead_nufw_session`: the number goes down in any case, the table loses the session if it
is alive. -/
def declareDead (s : SessionId) (w : Gateways) : Gateways :=
  { w with
    connected := w.connected - 1
    servers := if (w.sessions s).alive then w.servers.eraseP (·.1 = w.fd s) else w.servers
    sessions := declareDeadNufwSession w.sessions (some s) }

/-- `declare_dead_nufw_session` or `release_nufw_session`, as `nufw_session_send` tells. -/
def sendAnswer (s : SessionId) (w : Gateways) : Gateways :=
  match nufwSessionSend w.sessions (some s) with
  | .ok => { w with sessions := releaseNufwSession w.sessions (some s) }
  | _ => w.declareDead s

/-- A session is allocated. -/
def allocate (fd : ℕ) (w : Gateways) : Gateways :=
  { w with
    sessions := Function.update w.sessions w.allocated NufwSession.new
    fd := Function.update w.fd w.allocated fd
    allocated := w.allocated + 1 }

/-- The worker of a session starts its loop, which is the first user. -/
def startLoop (s : SessionId) (w : Gateways) : Gateways :=
  { w with
    sessions := increaseNufwSessionUsage w.sessions (some s)
    loop := Function.update w.loop s true }

/-- The descriptor is not that of an open session. -/
def FreeFd (w : Gateways) (fd : ℕ) : Prop :=
  fd ∉ w.handshakes.map w.fd ∧ fd ∉ w.servers.map Prod.fst

/-- The event can happen. -/
def enabled (w : Gateways) : ServersEvent → Prop
  | .accept fd => w.FreeFd fd
  | .acceptUnix fd => w.FreeFd fd
  | .initWorker s => s ∈ w.handshakes
  | .initFailure s => s ∈ w.handshakes
  | .treatFailure s => w.loop s
  | .loopEnd s => w.loop s
  | .answer s => s ∈ w.registered
  | .increase s => s ∈ w.registered
  | .release s => s ∈ w.registered

/-- What the event does, with the limit `nuauth_tls_max_servers`. -/
def step (max : Int) (w : Gateways) : ServersEvent → Gateways
  | .accept fd =>
    if w.connected ≥ max then w
    else { w.allocate fd with handshakes := w.allocated :: w.handshakes }
  | .acceptUnix fd =>
    if w.connected ≥ max then w
    else ((w.allocate fd).addNufwServer fd w.allocated).startLoop w.allocated
  | .initWorker s =>
    ({ w with handshakes := w.handshakes.erase s }.addNufwServer (w.fd s) s).startLoop s
  | .initFailure s => { w with handshakes := w.handshakes.erase s }
  | .treatFailure s => w.declareDead s
  | .loopEnd s => { w.declareDead s with loop := Function.update w.loop s false }
  | .answer s => w.sendAnswer s
  | .increase s => { w with sessions := increaseNufwSessionUsage w.sessions (some s) }
  | .release s => { w with sessions := releaseNufwSession w.sessions (some s) }

/-- No gateway has come yet. -/
def start (h : Sessions) : Gateways := ⟨h, fun _ ↦ 0, 0, [], [], 0, fun _ ↦ false, []⟩

/-- The number of registered sessions that are alive. -/
def living (w : Gateways) : ℕ := w.servers.countP fun e ↦ (w.sessions e.2).alive

end Gateways

/-- **The machine of the gateways**, with the limit `nuauth_tls_max_servers`. -/
def gateways (max : Int) : Machine Gateways ServersEvent where
  init w := ∃ h, w = Gateways.start h
  enabled := Gateways.enabled
  step := Gateways.step max

namespace Gateways

/-- **Only a living session is declared dead.** An answer on a dead session declares it dead. -/
def DeclaredAlive (w : Gateways) : ServersEvent → Prop
  | .treatFailure s => (w.sessions s).alive = true
  | .loopEnd s => (w.sessions s).alive = true
  | .answer s => (w.sessions s).alive = true
  | _ => True

/-- **Accepts and registrations are serialised**: nobody is accepted during a handshake. -/
def Serialised (w : Gateways) : ServersEvent → Prop
  | .accept _ => w.handshakes = []
  | .acceptUnix _ => w.handshakes = []
  | _ => True

/-! ### Sessions -/

theorem alive_modify {f : NufwSession → NufwSession} (hf : ∀ s, (f s).alive = s.alive)
    (h : Sessions) (session : Option SessionId) (s : SessionId) :
    (h.modify session f s).alive = (h s).alive := by
  by_cases hs : session = some s
  · rw [hs, Sessions.modify_self, hf]
  · rw [Sessions.modify_of_ne h hs]

theorem alive_release (s : NufwSession) : s.release.alive = s.alive := by
  rw [NufwSession.release]
  split
  · rfl
  · rfl

theorem alive_declareDead (s : NufwSession) : s.declareDead.alive = false := by
  rw [NufwSession.declareDead]
  split
  · rfl
  · rfl

/-! ### The invariant -/

/-- **The table holds the living sessions that have been registered**, under their descriptors, and
the number is its length. -/
structure Inv (w : Gateways) : Prop where
  fresh : ∀ s, s ∈ w.handshakes ∨ s ∈ w.registered → s < w.allocated
  disjoint : ∀ s ∈ w.handshakes, s ∉ w.registered
  fds : (w.handshakes.map w.fd).Nodup
  handshakes : ∀ s ∈ w.handshakes, (w.sessions s).alive = true ∧ w.fd s ∉ w.servers.map Prod.fst
  keys : (w.servers.map Prod.fst).Nodup
  entries : ∀ e ∈ w.servers,
    e.1 = w.fd e.2 ∧ (w.sessions e.2).alive = true ∧ e.2 ∈ w.registered
  complete : ∀ s ∈ w.registered, (w.sessions s).alive = true → (w.fd s, s) ∈ w.servers
  loops : ∀ s, w.loop s = true → s ∈ w.registered
  connected : w.connected = w.servers.length

/-- A session that is about to be registered. -/
structure Ready (w : Gateways) (fd : ℕ) (s : SessionId) : Prop where
  descriptor : w.fd s = fd
  fresh : s < w.allocated
  alive : (w.sessions s).alive = true
  handshakes : s ∉ w.handshakes ∧ fd ∉ w.handshakes.map w.fd
  registered : s ∉ w.registered
  servers : fd ∉ w.servers.map Prod.fst

variable {w : Gateways} {s : SessionId} {fd : ℕ}

theorem inv_start (h : Sessions) : Inv (start h) where
  fresh s hs := by
    rcases hs with hs | hs
    · exact absurd hs List.not_mem_nil
    · exact absurd hs List.not_mem_nil
  disjoint _ hs := absurd hs List.not_mem_nil
  fds := List.nodup_nil
  handshakes _ hs := absurd hs List.not_mem_nil
  keys := List.nodup_nil
  entries _ he := absurd he List.not_mem_nil
  complete _ hs := absurd hs List.not_mem_nil
  loops _ hs := absurd hs Bool.false_ne_true
  connected := rfl

/-- The usages do not matter. -/
theorem Inv.of_alive (hw : Inv w) {h : Sessions}
    (halive : ∀ s, (h s).alive = (w.sessions s).alive) : Inv { w with sessions := h } where
  fresh := hw.fresh
  disjoint := hw.disjoint
  fds := hw.fds
  handshakes s hs := by rw [halive]; exact hw.handshakes s hs
  keys := hw.keys
  entries e he := by rw [halive]; exact hw.entries e he
  complete s hs := by rw [halive]; exact hw.complete s hs
  loops := hw.loops
  connected := hw.connected

theorem Inv.fd_allocate (hw : Inv w) (hs : s ∈ w.handshakes ∨ s ∈ w.registered) :
    (w.allocate fd).fd s = w.fd s :=
  Function.update_of_ne (Nat.ne_of_lt (hw.fresh s hs)) _ _

theorem Inv.sessions_allocate (hw : Inv w) (hs : s ∈ w.handshakes ∨ s ∈ w.registered) :
    (w.allocate fd).sessions s = w.sessions s :=
  Function.update_of_ne (Nat.ne_of_lt (hw.fresh s hs)) _ _

theorem Inv.map_fd_allocate (hw : Inv w) :
    w.handshakes.map (w.allocate fd).fd = w.handshakes.map w.fd :=
  List.map_congr_left fun _ hs ↦ hw.fd_allocate (Or.inl hs)

/-- A new session changes nothing for the others. -/
theorem Inv.allocate (hw : Inv w) (fd : ℕ) : Inv (w.allocate fd) where
  fresh s hs := Nat.lt_succ_of_lt (hw.fresh s hs)
  disjoint := hw.disjoint
  fds := by
    show (w.handshakes.map (w.allocate fd).fd).Nodup
    rw [hw.map_fd_allocate]
    exact hw.fds
  handshakes s hs := by
    rw [hw.fd_allocate (Or.inl hs), hw.sessions_allocate (Or.inl hs)]
    exact hw.handshakes s hs
  keys := hw.keys
  entries e he := by
    have hreg := (hw.entries e he).2.2
    rw [hw.fd_allocate (Or.inr hreg), hw.sessions_allocate (Or.inr hreg)]
    exact hw.entries e he
  complete s hs := by
    rw [hw.fd_allocate (Or.inr hs), hw.sessions_allocate (Or.inr hs)]
    exact hw.complete s hs
  loops := hw.loops
  connected := hw.connected

/-- The new session can be registered. -/
theorem Inv.ready_allocate (hw : Inv w) (hfd : w.FreeFd fd) :
    Ready (w.allocate fd) fd w.allocated where
  descriptor := Function.update_self _ _ _
  fresh := Nat.lt_succ_self _
  alive := by
    show (Function.update w.sessions w.allocated NufwSession.new w.allocated).alive = true
    rw [Function.update_self]
    rfl
  handshakes := by
    refine ⟨fun hs ↦ absurd (hw.fresh _ (Or.inl hs)) (Nat.lt_irrefl _), ?_⟩
    show fd ∉ w.handshakes.map (w.allocate fd).fd
    rw [hw.map_fd_allocate]
    exact hfd.1
  registered hs := absurd (hw.fresh _ (Or.inr hs)) (Nat.lt_irrefl _)
  servers := hfd.2

/-- A handshake ends. -/
theorem Inv.endHandshake (hw : Inv w) (s : SessionId) :
    Inv { w with handshakes := w.handshakes.erase s } where
  fresh t ht := hw.fresh t (ht.imp_left List.mem_of_mem_erase)
  disjoint t ht := hw.disjoint t (List.mem_of_mem_erase ht)
  fds := hw.fds.sublist (List.erase_sublist.map _)
  handshakes t ht := hw.handshakes t (List.mem_of_mem_erase ht)
  keys := hw.keys
  entries := hw.entries
  complete := hw.complete
  loops := hw.loops
  connected := hw.connected

/-- The session of a handshake can be registered. -/
theorem Inv.ready_handshake (hw : Inv w) (hs : s ∈ w.handshakes) :
    Ready { w with handshakes := w.handshakes.erase s } (w.fd s) s where
  descriptor := rfl
  fresh := hw.fresh s (Or.inl hs)
  alive := (hw.handshakes s hs).1
  handshakes := by
    have hnot : s ∉ w.handshakes.erase s := hw.fds.of_map.not_mem_erase
    refine ⟨hnot, fun hmem ↦ hnot ?_⟩
    obtain ⟨t, ht, hfd⟩ := List.mem_map.1 hmem
    have hts : t = s := List.inj_on_of_nodup_map hw.fds (List.mem_of_mem_erase ht) hs hfd
    exact hts ▸ ht
  registered := hw.disjoint s hs
  servers := (hw.handshakes s hs).2

/-- Registering a session. -/
theorem Inv.addNufwServer (hw : Inv w) (hs : Ready w fd s) : Inv (w.addNufwServer fd s) := by
  have hnone : w.servers.find? (·.1 = fd) = none :=
    List.find?_eq_none.2 fun e he hkey ↦
      hs.servers (List.mem_map.2 ⟨e, he, of_decide_eq_true hkey⟩)
  have herase : w.servers.eraseP (·.1 = fd) = w.servers :=
    List.eraseP_of_forall_not (List.find?_eq_none.1 hnone)
  have hw' : w.addNufwServer fd s = { w with
      servers := (fd, s) :: w.servers
      connected := w.connected + 1
      registered := s :: w.registered } := by
    rw [Gateways.addNufwServer, hnone, herase]
    rfl
  rw [hw']
  exact
    { fresh := fun t ht ↦ by
        rcases ht with ht | ht
        · exact hw.fresh t (Or.inl ht)
        · rcases List.mem_cons.1 ht with rfl | ht
          · exact hs.fresh
          · exact hw.fresh t (Or.inr ht)
      disjoint := fun t ht hreg ↦ by
        rcases List.mem_cons.1 hreg with rfl | hreg
        · exact hs.handshakes.1 ht
        · exact hw.disjoint t ht hreg
      fds := hw.fds
      handshakes := fun t ht ↦ by
        refine ⟨(hw.handshakes t ht).1, fun hmem ↦ ?_⟩
        rcases List.mem_cons.1 hmem with hfd | hmem
        · exact hs.handshakes.2 (List.mem_map.2 ⟨t, ht, hfd⟩)
        · exact (hw.handshakes t ht).2 hmem
      keys := List.nodup_cons.2 ⟨hs.servers, hw.keys⟩
      entries := fun e he ↦ by
        rcases List.mem_cons.1 he with rfl | he
        · exact ⟨hs.descriptor.symm, hs.alive, List.mem_cons_self⟩
        · obtain ⟨hfd, halive, hreg⟩ := hw.entries e he
          exact ⟨hfd, halive, List.mem_cons_of_mem _ hreg⟩
      complete := fun t ht halive ↦ by
        rcases List.mem_cons.1 ht with rfl | ht
        · exact List.mem_cons.2 (Or.inl (Prod.ext hs.descriptor rfl))
        · exact List.mem_cons_of_mem _ (hw.complete t ht halive)
      loops := fun t ht ↦ List.mem_cons_of_mem _ (hw.loops t ht)
      connected := by
        show w.connected + 1 = ((w.servers.length + 1 : ℕ) : Int)
        rw [hw.connected]
        rfl }

theorem Inv.startLoop (hw : Inv w) (hs : s ∈ w.registered) : Inv (w.startLoop s) := by
  have halive := hw.of_alive (alive_modify (f := addUsage 1) (fun _ ↦ rfl) w.sessions (some s))
  refine ⟨halive.fresh, halive.disjoint, halive.fds, halive.handshakes, halive.keys,
    halive.entries, halive.complete, fun t ht ↦ ?_, halive.connected⟩
  by_cases hts : t = s
  · exact hts ▸ hs
  · have hloop : (w.startLoop s).loop t = w.loop t := Function.update_of_ne hts _ _
    exact hw.loops t (hloop.symm.trans ht)

/-- A session that dies leaves the table. -/
theorem Inv.remove (hw : Inv w) (hs : s ∈ w.registered) (halive : (w.sessions s).alive = true)
    {h : Sessions} (hother : ∀ t, t ≠ s → (h t).alive = (w.sessions t).alive)
    (hself : (h s).alive = false) :
    Inv { w with
      connected := w.connected - 1
      servers := w.servers.eraseP (·.1 = w.fd s)
      sessions := h } := by
  have hmem := hw.complete s hs halive
  have hsub : ∀ e ∈ w.servers.eraseP (·.1 = w.fd s), e ∈ w.servers := fun e he ↦
    List.mem_of_mem_eraseP he
  -- nothing is left under its descriptor
  have hnot : ∀ e ∈ w.servers.eraseP (·.1 = w.fd s), e.1 ≠ w.fd s := fun e he hfd ↦
    List.find?_eq_none.1 (find?_eraseP_of_nodup hw.keys (w.fd s)) e he (decide_eq_true hfd)
  refine ⟨hw.fresh, hw.disjoint, hw.fds, fun t ht ↦ ⟨?_, fun hkey ↦ ?_⟩,
    hw.keys.sublist (List.eraseP_sublist.map _), fun e he ↦ ?_, fun t ht ht' ↦ ?_, hw.loops, ?_⟩
  · exact (hother t fun hts ↦ hw.disjoint t ht (hts ▸ hs)).trans (hw.handshakes t ht).1
  · obtain ⟨e, he, hfd⟩ := List.mem_map.1 hkey
    exact (hw.handshakes t ht).2 (List.mem_map.2 ⟨e, hsub e he, hfd⟩)
  · obtain ⟨hfd, he', hreg⟩ := hw.entries e (hsub e he)
    have hne : e.2 ≠ s := fun hes ↦ hnot e he (hes ▸ hfd)
    exact ⟨hfd, (hother e.2 hne).trans he', hreg⟩
  · have hts : t ≠ s := fun hts ↦ absurd (hself.symm.trans (hts ▸ ht')) (by decide)
    have hentry := hw.complete t ht ((hother t hts).symm.trans ht')
    have hfd : w.fd t ≠ w.fd s := fun hfd ↦ hts
      (congrArg Prod.snd (List.inj_on_of_nodup_map hw.keys hentry hmem hfd))
    exact (List.mem_eraseP_of_neg (by simp [hfd])).2 hentry
  · have hlen := List.length_eraseP_of_mem (p := fun e : ℕ × SessionId ↦ e.1 = w.fd s) hmem
      (by simp)
    have hpos := List.length_pos_of_mem hmem
    show w.connected - 1 = ((w.servers.eraseP (·.1 = w.fd s)).length : Int)
    rw [hw.connected, hlen]
    omega

/-- **A living session is declared dead**: it leaves the table, and the number goes down with it. -/
theorem Inv.declareDead (hw : Inv w) (hs : s ∈ w.registered)
    (halive : (w.sessions s).alive = true) : Inv (w.declareDead s) := by
  rw [Gateways.declareDead, if_pos halive]
  refine hw.remove hs halive (fun t ht ↦ ?_) ?_
  · rw [declareDeadNufwSession, Sessions.modify_of_ne _ fun h ↦ ht (Option.some.inj h).symm]
  · rw [declareDeadNufwSession, Sessions.modify_self, alive_declareDead]

/-- Every step that declares only living sessions dead keeps the invariant. -/
theorem inv_step (max : Int) {e : ServersEvent} (hw : Inv w) (he : w.enabled e)
    (hok : DeclaredAlive w e) : Inv (w.step max e) := by
  cases e with
  | accept fd =>
    rw [step]
    split
    · exact hw
    · have hnew := hw.allocate fd
      have hready := hw.ready_allocate he
      refine ⟨fun t ht ↦ ?_, fun t ht ↦ ?_, ?_, fun t ht ↦ ?_, hnew.keys, hnew.entries,
        hnew.complete, hnew.loops, hnew.connected⟩
      · rcases ht with ht | ht
        · rcases List.mem_cons.1 ht with rfl | ht
          · exact hready.fresh
          · exact hnew.fresh t (Or.inl ht)
        · exact hnew.fresh t (Or.inr ht)
      · rcases List.mem_cons.1 ht with rfl | ht
        · exact hready.registered
        · exact hnew.disjoint t ht
      · refine List.nodup_cons.2 ⟨?_, hnew.fds⟩
        rw [hready.descriptor]
        exact hready.handshakes.2
      · rcases List.mem_cons.1 ht with rfl | ht
        · rw [hready.descriptor]
          exact ⟨hready.alive, hready.servers⟩
        · exact hnew.handshakes t ht
  | acceptUnix fd =>
    rw [step]
    split
    · exact hw
    · exact ((hw.allocate fd).addNufwServer (hw.ready_allocate he)).startLoop List.mem_cons_self
  | initWorker s =>
    exact ((hw.endHandshake s).addNufwServer (hw.ready_handshake he)).startLoop List.mem_cons_self
  | initFailure s => exact hw.endHandshake s
  | treatFailure s => exact hw.declareDead (hw.loops s he) hok
  | loopEnd s =>
    have hdead := hw.declareDead (hw.loops s he) hok
    refine ⟨hdead.fresh, hdead.disjoint, hdead.fds, hdead.handshakes, hdead.keys, hdead.entries,
      hdead.complete, fun t ht ↦ ?_, hdead.connected⟩
    by_cases hts : t = s
    · exact hts ▸ hw.loops s he
    · exact hw.loops t ((Function.update_of_ne hts _ _).symm.trans ht)
  | answer s =>
    have hsend : nufwSessionSend w.sessions (some s) = .ok := if_pos hok
    rw [step, sendAnswer, hsend]
    exact hw.of_alive (alive_modify alive_release w.sessions (some s))
  | increase s =>
    exact hw.of_alive (alive_modify (f := addUsage 1) (fun _ ↦ rfl) w.sessions (some s))
  | release s => exact hw.of_alive (alive_modify alive_release w.sessions (some s))

theorem inv_of_reach {max : Int} (hw : (gateways max).Reach DeclaredAlive w) : Inv w := by
  refine hw.invariant ?_ fun w e hw he hok ↦ inv_step max hw he hok
  rintro w ⟨h, rfl⟩
  exact inv_start h

theorem Inv.living_eq (hw : Inv w) : w.living = w.servers.length :=
  List.countP_eq_length.2 fun e he ↦ (hw.entries e he).2.1

/-- With the handshakes, there are no more gateways than the limit allows. -/
def Limited (max : Int) (w : Gateways) : Prop :=
  w.servers.length + w.handshakes.length ≤ max.toNat

theorem length_servers_declareDead (s : SessionId) (w : Gateways) :
    (w.declareDead s).servers.length ≤ w.servers.length := by
  rw [declareDead]
  dsimp only
  split
  · exact List.length_eraseP_le
  · exact Nat.le_refl _

theorem limited_declareDead {max : Int} (hl : Limited max w) (s : SessionId) :
    Limited max (w.declareDead s) :=
  Nat.le_trans (Nat.add_le_add_right (length_servers_declareDead s w) _) hl

theorem length_servers_addNufwServer (fd : ℕ) (s : SessionId) (w : Gateways) :
    (w.addNufwServer fd s).servers.length ≤ w.servers.length + 1 :=
  Nat.succ_le_succ List.length_eraseP_le

/-- Serialised accepts keep the limit. -/
theorem limited_step {max : Int} {e : ServersEvent} (hw : Inv w) (hl : Limited max w)
    (he : w.enabled e) (hser : Serialised w e) : Limited max (w.step max e) := by
  have hroom : w.handshakes = [] → ¬w.connected ≥ max → w.servers.length + 1 ≤ max.toNat := by
    intro _ hlt
    have hconnected := hw.connected
    omega
  cases e with
  | accept fd =>
    rw [step]
    split
    · exact hl
    · rename_i hlt
      show w.servers.length + (w.allocated :: w.handshakes).length ≤ _
      rw [show w.handshakes = [] from hser]
      exact hroom hser hlt
  | acceptUnix fd =>
    rw [step]
    split
    · exact hl
    · rename_i hlt
      have hlen := length_servers_addNufwServer fd w.allocated (w.allocate fd)
      show ((w.allocate fd).addNufwServer fd w.allocated).servers.length + w.handshakes.length ≤ _
      rw [show w.handshakes = [] from hser]
      exact Nat.le_trans hlen (hroom hser hlt)
  | initWorker s =>
    have hlen := length_servers_addNufwServer (w.fd s) s
      { w with handshakes := w.handshakes.erase s }
    have herase := List.length_erase_of_mem (show s ∈ w.handshakes from he)
    have hpos := List.length_pos_of_mem (show s ∈ w.handshakes from he)
    show (addNufwServer (w.fd s) s _).servers.length + (w.handshakes.erase s).length ≤ _
    rw [Limited] at hl
    dsimp only at hlen
    omega
  | initFailure s =>
    exact Nat.le_trans (Nat.add_le_add_left (List.length_erase_le) _) hl
  | treatFailure s => exact limited_declareDead hl s
  | loopEnd s => exact limited_declareDead hl s
  | answer s =>
    rw [step, sendAnswer]
    split
    · exact hl
    · exact limited_declareDead hl s
  | increase s => exact hl
  | release s => exact hl

theorem limited_of_reach {max : Int}
    (hw : (gateways max).Reach (fun w e ↦ DeclaredAlive w e ∧ Serialised w e) w) :
    Limited max w := by
  have hboth : Inv w ∧ Limited max w := by
    refine hw.invariant (I := fun w ↦ Inv w ∧ Limited max w) ?_ ?_
    · rintro w ⟨h, rfl⟩
      exact ⟨inv_start h, Nat.zero_le _⟩
    · rintro w e ⟨hw, hl⟩ he ⟨hdead, hser⟩
      exact ⟨inv_step max hw he hdead, limited_step hw hl he hser⟩
  exact hboth.2

end Gateways

/-- **`nufw_servers_connected` counts the living gateways**, in a run in which only living sessions
are declared dead: it is the number of registered sessions that are alive, so it is not negative.
If moreover accepts and registrations are serialised, no more gateways are alive than
`nuauth_tls_max_servers`. -/
theorem connected_counts_living_gateways {max : Int} {w : Gateways}
    (hw : (gateways max).Reach Gateways.DeclaredAlive w) :
    w.connected = w.living ∧ 0 ≤ w.connected ∧
    (∀ s ∈ w.registered, (w.sessions s).alive = true ↔ s ∈ w.servers.map Prod.snd) ∧
    ((gateways max).Reach (fun w e ↦ Gateways.DeclaredAlive w e ∧ Gateways.Serialised w e) w →
      w.living ≤ max.toNat) := by
  have hinv := Gateways.inv_of_reach hw
  have hliving : w.connected = w.living := by
    rw [hinv.living_eq]
    exact hinv.connected
  refine ⟨hliving, by rw [hliving]; exact Int.natCast_nonneg _, fun s hs ↦ ⟨fun halive ↦ ?_,
    fun hmem ↦ ?_⟩, fun hser ↦ ?_⟩
  · exact List.mem_map.2 ⟨_, hinv.complete s hs halive, rfl⟩
  · obtain ⟨e, he, rfl⟩ := List.mem_map.1 hmem
    exact (hinv.entries e he).2.1
  · rw [hinv.living_eq]
    exact Nat.le_trans (Nat.le_add_right _ _) (Gateways.limited_of_reach hser)

/-- Two gateways come, and one goes. -/
def orderlyRun : List ServersEvent :=
  [.accept 5, .initWorker 0, .acceptUnix 6, .loopEnd 0, .accept 5]

theorem orderlyRun_path : (gateways 2).Path
    (fun w e ↦ Gateways.DeclaredAlive w e ∧ Gateways.Serialised w e)
    (Gateways.start fun _ ↦ NufwSession.new) orderlyRun := by
  exact ⟨⟨by decide, by decide⟩, ⟨trivial, rfl⟩, List.mem_cons_self, ⟨trivial, trivial⟩,
    ⟨by decide, by decide⟩, ⟨trivial, rfl⟩, rfl, ⟨rfl, trivial⟩, ⟨by decide, by decide⟩,
    ⟨trivial, rfl⟩, trivial⟩

/-- The first one has gone. -/
theorem orderlyRun_counted :
    let w := (gateways 2).run (Gateways.start fun _ ↦ NufwSession.new) orderlyRun
    w.connected = 1 ∧ w.connected = w.living ∧ w.living ≤ 2 := by
  intro w
  have hreach := (gateways 2).reach_run ⟨_, rfl⟩ _ orderlyRun_path
  obtain ⟨hcount, -, -, hlimit⟩ :=
    connected_counts_living_gateways (hreach.mono fun _ _ h ↦ h.1)
  exact ⟨by decide, hcount, hlimit hreach⟩

/-- The gateway goes while one of its packets waits for an answer. -/
def deadAnswerRun : List ServersEvent :=
  [.accept 5, .initWorker 0, .increase 0, .loopEnd 0, .answer 0]

/-- **The number gets negative**, and two gateways are let in where one is allowed. -/
theorem deadAnswerRun_negative :
    let w := (gateways 1).run (Gateways.start fun _ ↦ NufwSession.new) deadAnswerRun
    let w' := (gateways 1).run w [.accept 5, .initWorker 1, .accept 6, .initWorker 2]
    (gateways 1).Reach Gateways.Serialised w' ∧
      w.connected = -1 ∧ w.living = 0 ∧ w'.connected = 1 ∧ w'.living = 2 := by
  intro w w'
  have hw : (gateways 1).Reach Gateways.Serialised w := by
    refine (gateways 1).reach_run ⟨_, rfl⟩ _ ?_
    exact ⟨⟨by decide, by decide⟩, rfl, List.mem_cons_self, trivial, List.mem_cons_self, trivial,
      rfl, trivial, List.mem_cons_self, trivial, trivial⟩
  refine ⟨hw.path ?_, by decide, by decide, by decide, by decide⟩
  exact ⟨⟨by decide, by decide⟩, rfl, List.mem_cons_self, trivial, ⟨by decide, by decide⟩, rfl,
    List.mem_cons_self, trivial, trivial⟩

end Nufw
