import Nufw.Nuauth.ClientTables
import Nufw.Nuauth.TlsUser

/-!
# No session is destroyed while it is scheduled

A session that waits in the pool of the workers or in `mx_queue`, or that a worker is at work on,
must not be destroyed, because whoever has its pointer will use it. The killers go by flags:
`kill_all_clients` by `activated`, `kill_expired_clients_session` by `rw_lock`; and none of these
says that a session is idle. So the following can destroy a session that is scheduled:

* `kill_expired_clients_session` kills every session whose `rw_lock` is free, in particular those
  that wait in the pool or in `mx_queue`; it does not stop the watcher of the others, nor take them
  out of `client_ip_hash`, so there is a pointer left to any session it kills
  (`pointed_of_killExpired`);
* `tls_sasl_connect_ok` activates a session before it puts it into `mx_queue`: `kill_all_clients`
  takes it for an idle one, and `warn_clients` has it scheduled a second time;
* `client_activity_cb` schedules a session whose wake-up is pending in `writer_queue`, and the
  writer schedules it again; the first of the two turns may destroy it;
* `user_worker` puts the session into `mx_queue` before it is done with it: the injector may destroy
  it before the worker has released its `rw_lock` and read its `srv_context`;
* a wake-up is a descriptor: if the session is disconnected, and the descriptor becomes that of
  another one, then the writer schedules the other one.

In a run in which none of this happens a session is in one place at most, and an activated one is in
none (`UserServer.Inv`). Hence no session is destroyed while it is scheduled
(`scheduled_sessions_registered`).
-/

namespace Nufw

/-- An element goes from one list to the end of another. -/
theorem count_erase_add_count_append {l : List ClientId} {s : ClientId} (h : s ∈ l)
    (l' : List ClientId) (t : ClientId) :
    (l.erase s).count t + (l' ++ [s]).count t = l.count t + l'.count t := by
  have hpos := List.count_pos_iff.2 h
  by_cases hts : t = s
  · rw [hts, List.count_erase_self, List.count_append, List.count_singleton_self]
    omega
  · rw [List.count_erase_of_ne hts, List.count_append,
      List.count_eq_zero.2 fun ht ↦ hts (List.mem_singleton.1 ht), Nat.add_zero]

namespace UserServer

/-! ### The condition -/

/-- The session is on its way to the event loop. -/
def Fresh (w : UserServer) (s : ClientId) : Prop := s ∈ w.connecting ∨ s ∈ w.mxQueue

/-- The number of places where a session is scheduled. -/
def places (w : UserServer) (s : ClientId) : ℕ :=
  w.connecting.count s + w.pool.count s + w.draining.count s + w.leaving.count s +
    w.mxQueue.count s

/-- **The step is none of those that schedule a session twice, or take a scheduled one for an idle
one.** -/
def Orderly (w : UserServer) : UserEvent → Prop
  | .killExpiredClientsSession now trylock => ∀ e ∈ w.clients.connHash,
    (Clients.isExpiredClient now (trylock e.2) (w.clients.heap e.2)).1 = false
  | .killAllClients => ∀ e ∈ w.clients.connHash,
    (w.clients.heap e.2).activated = true → ¬w.Fresh e.2
  | .warnClients addr check _ => ∀ s ∈ (w.clients.sessionsAt addr).filter check,
    (w.clients.heap s).activated = true → ¬w.Fresh s
  | .connectOk _ _ c => c.socket ∉ w.writerQueue
  | .activity fd .read => fd ∉ w.writerQueue
  | .injector => ∀ s ∈ w.mxQueue.head?, s ∉ w.finishing ∧ s ∉ w.signalling
  | _ => True

/-! ### The invariant -/

/-- The session is registered, or about to be. -/
def Allocated (w : UserServer) (s : ClientId) : Prop := w.clients.Registered s ∨ s ∈ w.inserts

/-- **A session is in one place at most.** One that is activated is in none, unless it has just been
connected; nor is one that the loop listens to, or that has a wake-up pending. -/
structure Inv (w : UserServer) : Prop where
  agree : w.clients.Agree
  /-- The sessions to be inserted have sockets of their own. -/
  inserts : (w.inserts.map fun s ↦ (w.clients.heap s).socket).Nodup
  unregistered : ∀ s ∈ w.inserts, ∀ e ∈ w.clients.connHash,
    e.1 ≠ (w.clients.heap s).socket ∧ e.2 ≠ s
  wakeups : w.writerQueue.Nodup
  alive : ∀ s, w.Allocated s → (w.clients.heap s).destroyed = false
  once : ∀ s, w.places s ≤ 1
  owned : ∀ s, w.places s ≠ 0 → w.Allocated s
  finishing : ∀ s, w.finishing.count s + w.signalling.count s ≤ w.mxQueue.count s
  idle : ∀ s, w.Allocated s → (w.clients.heap s).activated = true → w.places s ≠ 0 → w.Fresh s
  watched : ∀ s, w.watching s = true → w.Allocated s ∧ w.places s = 0
  waiting : ∀ s, w.Allocated s → (w.clients.heap s).socket ∈ w.writerQueue →
    (w.clients.heap s).activated = false ∧ w.places s = 0

variable {w w' : UserServer} {s t : ClientId}

theorem inv_start (heap : ClientId → ClientSession) : Inv (start heap) where
  agree := Clients.agree_start heap
  inserts := List.nodup_nil
  unregistered _ hs := absurd hs List.not_mem_nil
  wakeups := List.nodup_nil
  alive _ hs := (hs.elim List.not_mem_nil List.not_mem_nil).elim
  once _ := Nat.zero_le _
  owned _ hs := absurd rfl hs
  finishing _ := Nat.le_refl _
  idle _ _ _ hs := absurd rfl hs
  watched _ h := absurd h Bool.false_ne_true
  waiting _ _ hfd := absurd hfd List.not_mem_nil

/-! ### What the invariant says of a session -/

theorem Inv.sound (hw : Inv w) : w.clients.Sound := hw.agree.sound

/-- A session that is nowhere is not locked. -/
theorem Inv.not_locked (hw : Inv w) (h : w.draining.count s + w.leaving.count s +
    w.mxQueue.count s = 0) : ¬w.Locked s := by
  have hfinishing := hw.finishing s
  rintro (hs | hs | hs)
  · have := List.count_pos_iff.2 hs
    omega
  · have := List.count_pos_iff.2 hs
    omega
  · have := List.count_pos_iff.2 hs
    omega

/-- An activated session that has not just been connected is nowhere. -/
theorem Inv.places_of_activated (hw : Inv w) (hs : w.Allocated s)
    (hact : (w.clients.heap s).activated = true) (hfresh : ¬w.Fresh s) : w.places s = 0 := by
  by_contra hplaces
  exact hfresh (hw.idle s hs hact hplaces)

/-- A session about to be inserted is not registered, nor is its socket. -/
theorem Inv.lookup_of_mem_inserts (hw : Inv w) (hs : s ∈ w.inserts) :
    w.clients.getClientDatasBySocket (w.clients.heap s).socket = none :=
  Option.map_eq_none_iff.2 (List.find?_eq_none.2 fun e he hkey ↦
    (hw.unregistered s hs e he).1 (of_decide_eq_true hkey))

theorem Inv.not_registered_of_mem_inserts (hw : Inv w) (hs : s ∈ w.inserts) :
    ¬w.clients.Registered s :=
  fun hreg ↦ (hw.unregistered s hs _ hreg).2 rfl

/-- A session that is somewhere has no wake-up pending. -/
theorem Inv.not_waiting (hw : Inv w) (hplaces : w.places s ≠ 0) (hs : w.Allocated s) :
    (w.clients.heap s).socket ∉ w.writerQueue :=
  fun hfd ↦ hplaces (hw.waiting s hs hfd).2

/-! ### Moving sessions about -/

/-- A session goes from one place to another. -/
theorem Inv.move (hw : Inv w)
    {connecting pool draining leaving finishing signalling mxQueue : List ClientId}
    (hplaces : ∀ s, connecting.count s + pool.count s + draining.count s + leaving.count s +
      mxQueue.count s = w.places s)
    (hfinishing : ∀ s, finishing.count s + signalling.count s ≤ mxQueue.count s)
    (hfresh : ∀ s, w.Fresh s → s ∈ connecting ∨ s ∈ mxQueue) :
    Inv { w with
      connecting := connecting, pool := pool, draining := draining
      leaving := leaving, finishing := finishing, signalling := signalling
      mxQueue := mxQueue } where
  agree := hw.agree
  inserts := hw.inserts
  unregistered := hw.unregistered
  wakeups := hw.wakeups
  alive := hw.alive
  once s := (hplaces s).trans_le (hw.once s)
  owned s hs := hw.owned s fun h ↦ hs ((hplaces s).trans h)
  finishing := hfinishing
  idle s hs hact hpl := hfresh s (hw.idle s hs hact fun h ↦ hpl ((hplaces s).trans h))
  watched s h := ⟨(hw.watched s h).1, (hplaces s).trans (hw.watched s h).2⟩
  waiting s hs h := ⟨(hw.waiting s hs h).1, (hplaces s).trans (hw.waiting s hs h).2⟩

/-- Sessions change. One may be activated only if it has just been connected or is nowhere, and
has no wake-up pending. -/
theorem Inv.of_heap (hw : Inv w) {heap : ClientId → ClientSession}
    (haddr : ∀ t, (heap t).addr = (w.clients.heap t).addr)
    (hsocket : ∀ t, (heap t).socket = (w.clients.heap t).socket)
    (hdestroyed : ∀ t, (heap t).destroyed = (w.clients.heap t).destroyed)
    (hact : ∀ t, (heap t).activated = true → (w.clients.heap t).activated = true ∨
      (w.places t ≠ 0 → w.Fresh t) ∧
        (w.Allocated t → (w.clients.heap t).socket ∉ w.writerQueue)) :
    Inv { w with clients := { w.clients with heap := heap } } := by
  have hheap : ∀ e ∈ w.clients.connHash, (heap e.2).addr = (w.clients.heap e.2).addr ∧
      (heap e.2).socket = (w.clients.heap e.2).socket := fun e _ ↦ ⟨haddr e.2, hsocket e.2⟩
  have hreg := Clients.registered_of_heap hheap
  have halloc : ∀ t, Allocated { w with clients := { w.clients with heap := heap } } t ↔
      w.Allocated t := fun t ↦ or_congr_left (hreg t)
  have hsame : (fun s ↦ (heap s).socket) = fun s ↦ (w.clients.heap s).socket := funext hsocket
  refine ⟨Clients.Agree.of_heap hheap hw.agree, ?_, fun t ht e he ↦ ?_, hw.wakeups, fun t ht ↦ ?_,
    hw.once, fun t ht ↦ ?_, hw.finishing, fun t ht h hpl ↦ ?_, fun t h ↦ ?_, fun t ht hfd ↦ ?_⟩
  · show (w.inserts.map fun s ↦ (heap s).socket).Nodup
    rw [hsame]
    exact hw.inserts
  · show e.1 ≠ (heap t).socket ∧ e.2 ≠ t
    rw [hsocket]
    exact hw.unregistered t ht e he
  · exact (hdestroyed t).trans (hw.alive t ((halloc t).1 ht))
  · exact (halloc t).2 (hw.owned t ht)
  · rcases hact t h with h | h
    · exact hw.idle t ((halloc t).1 ht) h hpl
    · exact h.1 hpl
  · exact ⟨(halloc t).2 (hw.watched t h).1, (hw.watched t h).2⟩
  · have ht := (halloc t).1 ht
    have hfd : (w.clients.heap t).socket ∈ w.writerQueue := hsocket t ▸ hfd
    obtain ⟨hoff, hplaces⟩ := hw.waiting t ht hfd
    refine ⟨Bool.eq_false_iff.2 fun hon ↦ ?_, hplaces⟩
    rcases hact t hon with h | h
    · exact Bool.false_ne_true (hoff.symm.trans h)
    · exact h.2 ht hfd

/-- A session changes. -/
theorem Inv.modify (hw : Inv w) {f : ClientSession → ClientSession}
    (haddr : (f (w.clients.heap s)).addr = (w.clients.heap s).addr)
    (hsocket : (f (w.clients.heap s)).socket = (w.clients.heap s).socket)
    (hdestroyed : (f (w.clients.heap s)).destroyed = (w.clients.heap s).destroyed)
    (hact : (f (w.clients.heap s)).activated = true → (w.clients.heap s).activated = true ∨
      (w.places s ≠ 0 → w.Fresh s) ∧
        (w.Allocated s → (w.clients.heap s).socket ∉ w.writerQueue)) :
    Inv (w.modify s f) := by
  refine hw.of_heap (Clients.apply_heap_modify ClientSession.addr haddr)
    (Clients.apply_heap_modify ClientSession.socket hsocket)
    (Clients.apply_heap_modify ClientSession.destroyed hdestroyed) fun t ht ↦ ?_
  by_cases hts : t = s
  · rw [hts, Function.update_self] at ht
    rw [hts]
    exact hact ht
  · rw [Function.update_of_ne hts] at ht
    exact Or.inl ht

/-- The loop listens to a session that is nowhere, or listens no more. -/
theorem Inv.watch (hw : Inv w) {b : Bool} (hb : b = true → w.Allocated s ∧ w.places s = 0) :
    Inv (w.watch s b) := by
  refine { hw with watched := fun t h ↦ ?_ }
  have h : Function.update w.watching s b t = true := h
  by_cases hts : t = s
  · rw [hts, Function.update_self] at h
    rw [hts]
    exact hb h
  · rw [Function.update_of_ne hts] at h
    exact hw.watched t h

/-- A session that is nowhere is given to the pool. -/
theorem Inv.schedule (hw : Inv w) (hs : w.clients.Registered s) (hplaces : w.places s = 0)
    (hoff : (w.clients.heap s).activated = false) (hstop : w.watching s = false)
    (hqueue : (w.clients.heap s).socket ∉ w.writerQueue) :
    Inv { w with pool := w.pool ++ [s] } := by
  have hself : places { w with pool := w.pool ++ [s] } s = 1 := by
    rw [places] at hplaces ⊢
    simp only [List.count_append, List.count_singleton_self]
    omega
  have hother : ∀ t ≠ s, places { w with pool := w.pool ++ [s] } t = w.places t := by
    intro t hts
    simp only [places, List.count_append, List.count_singleton, beq_iff_eq, hts.symm, if_false,
      Nat.add_zero]
  refine { hw with
    once := fun t ↦ ?_, owned := fun t ht ↦ ?_, idle := fun t ht hact hpl ↦ ?_
    watched := fun t h ↦ ?_, waiting := fun t ht hfd ↦ ?_ }
  · by_cases hts : t = s
    · exact Nat.le_of_eq (hts ▸ hself)
    · rw [hother t hts]
      exact hw.once t
  · by_cases hts : t = s
    · rw [hts]
      exact Or.inl hs
    · rw [hother t hts] at ht
      exact hw.owned t ht
  · by_cases hts : t = s
    · rw [hts] at hact
      exact absurd (hoff.symm.trans hact) Bool.false_ne_true
    · rw [hother t hts] at hpl
      exact hw.idle t ht hact hpl
  · by_cases hts : t = s
    · rw [hts] at h
      exact absurd (hstop.symm.trans h) Bool.false_ne_true
    · rw [hother t hts]
      exact hw.watched t h
  · by_cases hts : t = s
    · rw [hts] at hfd
      exact absurd hfd hqueue
    · rw [hother t hts]
      exact hw.waiting t ht hfd

/-- The event loop takes a session out of `mx_queue`; it is nowhere then. -/
theorem Inv.pop (hw : Inv w) {queue : List ClientId} (hqueue : w.mxQueue = s :: queue)
    (hs : s ∉ w.finishing ∧ s ∉ w.signalling) :
    Inv { w with mxQueue := queue } ∧ places { w with mxQueue := queue } s = 0 := by
  have hself : places { w with mxQueue := queue } s = 0 := by
    have honce := hw.once s
    rw [places, hqueue, List.count_cons_self] at honce
    rw [places]
    dsimp only
    omega
  have hcount : ∀ t ≠ s, w.mxQueue.count t = queue.count t := by
    intro t hts
    rw [hqueue]
    exact List.count_cons_of_ne (Ne.symm hts)
  have hother : ∀ t ≠ s, places { w with mxQueue := queue } t = w.places t := by
    intro t hts
    rw [places, places, hcount t hts]
  refine ⟨{ hw with
    once := fun t ↦ ?_, owned := fun t ht ↦ ?_, finishing := fun t ↦ ?_
    idle := fun t ht hact hpl ↦ ?_, watched := fun t h ↦ ?_, waiting := fun t ht hfd ↦ ?_ },
    hself⟩
  · by_cases hts : t = s
    · rw [hts, hself]
      exact Nat.zero_le 1
    · rw [hother t hts]
      exact hw.once t
  · by_cases hts : t = s
    · exact absurd (hts ▸ hself) ht
    · rw [hother t hts] at ht
      exact hw.owned t ht
  · by_cases hts : t = s
    · rw [hts, List.count_eq_zero.2 hs.1, List.count_eq_zero.2 hs.2]
      exact Nat.zero_le _
    · exact hcount t hts ▸ hw.finishing t
  · by_cases hts : t = s
    · exact absurd (hts ▸ hself) hpl
    · rw [hother t hts] at hpl
      rcases hw.idle t ht hact hpl with h | h
      · exact Or.inl h
      · rw [hqueue] at h
        exact Or.inr (List.mem_of_ne_of_mem hts h)
  · by_cases hts : t = s
    · rw [hts] at h ⊢
      exact ⟨(hw.watched s h).1, hself⟩
    · rw [hother t hts]
      exact hw.watched t h
  · by_cases hts : t = s
    · rw [hts] at ht hfd ⊢
      exact ⟨(hw.waiting s ht hfd).1, hself⟩
    · rw [hother t hts]
      exact hw.waiting t ht hfd

/-- A session that is nowhere, and no more activated, is to be woken. -/
theorem Inv.enqueue (hw : Inv w) (hs : w.clients.Registered s) (hplaces : w.places s = 0)
    (hoff : (w.clients.heap s).activated = false)
    (hqueue : (w.clients.heap s).socket ∉ w.writerQueue) :
    Inv { w with writerQueue := w.writerQueue ++ [(w.clients.heap s).socket] } := by
  refine { hw with
    wakeups := List.nodup_append.2 ⟨hw.wakeups, List.nodup_singleton _, ?_⟩
    waiting := fun t ht hfd ↦ ?_ }
  · rintro fd hfd _ hfd' rfl
    exact hqueue (List.mem_singleton.1 hfd' ▸ hfd)
  · rcases List.mem_append.1 hfd with hfd | hfd
    · exact hw.waiting t ht hfd
    · have hkey := List.mem_singleton.1 hfd
      rcases ht with ht | ht
      · rw [hw.sound.eq_of_socket ht hs hkey]
        exact ⟨hoff, hplaces⟩
      · exact absurd hkey.symm (hw.unregistered t ht _ hs).1

/-! ### Sessions that come and go -/

/-- A session that is nowhere, and that the loop does not listen to, leaves. -/
theorem Inv.unregister (hw : Inv w) (hs : w.clients.Registered s) (hplaces : w.places s = 0)
    (hstop : w.watching s = false) : Inv { w with clients := w.clients.unregister s } := by
  have hsame : ∀ t ≠ s, (w.clients.unregister s).heap t = w.clients.heap t := by
    intro t hts
    rw [hw.sound.heap_unregister hs, Function.update_of_ne hts]
  have hreg := hw.sound.registered_unregister hs
  have hconn := hw.sound.connHash_unregister hs
  have hinserts : ∀ t ∈ w.inserts, t ≠ s := fun t ht hts ↦
    hw.not_registered_of_mem_inserts ht (hts ▸ hs)
  have halloc : ∀ t, Allocated { w with clients := w.clients.unregister s } t →
      t ≠ s ∧ w.Allocated t := by
    rintro t (ht | ht)
    · exact ⟨((hreg t).1 ht).1, Or.inl ((hreg t).1 ht).2⟩
    · exact ⟨hinserts t ht, Or.inr ht⟩
  refine { hw with
    agree := hw.agree.unregister hs, inserts := ?_, unregistered := fun t ht e he ↦ ?_
    alive := fun t ht ↦ ?_, owned := fun t ht ↦ ?_
    idle := fun t ht hact ↦ ?_, watched := fun t h ↦ ?_, waiting := fun t ht hfd ↦ ?_ }
  · refine (List.map_congr_left fun t ht ↦ ?_).symm ▸ hw.inserts
    rw [hsame t (hinserts t ht)]
  · rw [hsame t (hinserts t ht)]
    rw [hconn] at he
    exact hw.unregistered t ht e (List.mem_of_mem_eraseP he)
  · obtain ⟨hts, ht⟩ := halloc t ht
    rw [hsame t hts]
    exact hw.alive t ht
  · have hts : t ≠ s := by
      rintro rfl
      exact ht hplaces
    exact (hw.owned t ht).imp_left fun h ↦ (hreg t).2 ⟨hts, h⟩
  · obtain ⟨hts, ht⟩ := halloc t ht
    rw [hsame t hts] at hact
    exact hw.idle t ht hact
  · have hts : t ≠ s := by
      rintro rfl
      exact Bool.false_ne_true (hstop.symm.trans h)
    obtain ⟨ht, hplaces⟩ := hw.watched t h
    exact ⟨ht.imp_left fun h ↦ (hreg t).2 ⟨hts, h⟩, hplaces⟩
  · obtain ⟨hts, ht⟩ := halloc t ht
    rw [hsame t hts] at hfd ⊢
    exact hw.waiting t ht hfd

/-- `delete_client_by_socket_ext` for a session that is nowhere. -/
theorem Inv.delete (hw : Inv w) (hs : w.Allocated s) (hplaces : w.places s = 0) :
    Inv (w.delete (w.clients.heap s).socket) := by
  rw [UserServer.delete]
  rcases hs with hs | hs
  · rw [hw.sound.lookup hs]
    dsimp only
    rw [hw.sound.deleteClientBySocketExt_eq hs]
    exact (hw.watch (s := s) (b := false) nofun).unregister hs hplaces (Function.update_self _ _ _)
  · rw [hw.lookup_of_mem_inserts hs]
    exact hw

/-- A session is allocated. -/
theorem Inv.allocate (hw : Inv w) (hs : ¬w.Allocated s) (c : ClientSession) :
    Inv ((w.modify s fun _ ↦ c).watch s false) := by
  have hnew : ∀ e ∈ w.clients.connHash, e.2 ≠ s := fun e he h ↦
    hs (Or.inl (h ▸ hw.sound.registered_of_mem he))
  have hinserts : ∀ t ∈ w.inserts, t ≠ s := fun t ht h ↦ hs (Or.inr (h ▸ ht))
  have hsame : ∀ t ≠ s, (w.clients.modify s fun _ ↦ c).heap t = w.clients.heap t :=
    fun t hts ↦ Clients.heap_modify_of_ne hts _ _
  have hreg :
      ∀ t, (w.clients.modify s fun _ ↦ c).Registered t → t ≠ s ∧ w.clients.Registered t := by
    intro t ht
    have hts := hnew _ ht
    rw [Clients.Registered, hsame t hts] at ht
    exact ⟨hts, ht⟩
  have halloc : ∀ t, ((w.modify s fun _ ↦ c).watch s false).Allocated t →
      t ≠ s ∧ w.Allocated t := by
    rintro t (ht | ht)
    · exact ⟨(hreg t ht).1, Or.inl (hreg t ht).2⟩
    · exact ⟨hinserts t ht, Or.inr ht⟩
  have hreg' : ∀ t, w.clients.Registered t → (w.clients.modify s fun _ ↦ c).Registered t := by
    intro t ht
    rw [Clients.Registered, hsame t (hnew _ ht)]
    exact ht
  have hwatch := hw.watch (s := s) (b := false) fun h ↦ absurd h Bool.false_ne_true
  refine { hwatch with
    agree := hw.agree.allocate hnew fun _ ↦ c, inserts := ?_
    unregistered := fun t ht e he ↦ ?_, alive := fun t ht ↦ ?_, owned := fun t ht ↦ ?_
    idle := fun t ht hact ↦ ?_, watched := fun t h ↦ ?_, waiting := fun t ht hfd ↦ ?_ }
  · refine (List.map_congr_left fun t ht ↦ ?_).symm ▸ hw.inserts
    exact congrArg ClientSession.socket (hsame t (hinserts t ht))
  · show e.1 ≠ ((w.clients.modify s fun _ ↦ c).heap t).socket ∧ e.2 ≠ t
    rw [hsame t (hinserts t ht)]
    exact hw.unregistered t ht e he
  · obtain ⟨hts, ht⟩ := halloc t ht
    exact (congrArg ClientSession.destroyed (hsame t hts)).trans (hw.alive t ht)
  · exact (hw.owned t ht).imp_left (hreg' t)
  · obtain ⟨hts, ht⟩ := halloc t ht
    exact hw.idle t ht ((congrArg ClientSession.activated (hsame t hts)).symm.trans hact)
  · exact ⟨(hwatch.watched t h).1.imp_left (hreg' t), (hwatch.watched t h).2⟩
  · obtain ⟨hts, ht⟩ := halloc t ht
    have hsame : ((w.modify s fun _ ↦ c).watch s false).clients.heap t = w.clients.heap t :=
      hsame t hts
    rw [hsame] at hfd ⊢
    exact hw.waiting t ht hfd

/-- An `INSERT_MESSAGE` is sent for a session, which is about to be put into `mx_queue`. -/
theorem Inv.announce (hw : Inv w) (hs : ¬w.Allocated s)
    (hfree : ∀ e ∈ w.clients.connHash, e.1 ≠ (w.clients.heap s).socket)
    (hother : ∀ t ∈ w.inserts, (w.clients.heap t).socket ≠ (w.clients.heap s).socket)
    (halive : (w.clients.heap s).destroyed = false) (hstop : w.watching s = false)
    (hqueue : (w.clients.heap s).socket ∉ w.writerQueue) :
    Inv { w with inserts := w.inserts ++ [s], connecting := w.connecting ++ [s] } := by
  have hzero : w.places s = 0 := by
    by_contra hplaces
    exact hs (hw.owned s hplaces)
  have hself : places { w with inserts := w.inserts ++ [s], connecting := w.connecting ++ [s] } s
      = 1 := by
    rw [places] at hzero ⊢
    simp only [List.count_append, List.count_singleton_self]
    omega
  have hsame : ∀ t ≠ s, places
      { w with inserts := w.inserts ++ [s], connecting := w.connecting ++ [s] } t = w.places t := by
    intro t hts
    simp only [places, List.count_append, List.count_singleton, beq_iff_eq, hts.symm, if_false,
      Nat.add_zero]
  have halloc : ∀ t ≠ s,
      Allocated { w with inserts := w.inserts ++ [s], connecting := w.connecting ++ [s] } t →
        w.Allocated t := by
    rintro t hts (ht | ht)
    · exact Or.inl ht
    · exact Or.inr ((List.mem_append.1 ht).resolve_right fun h ↦ hts (List.mem_singleton.1 h))
  refine { hw with
    inserts := ?_, unregistered := fun t ht e he ↦ ?_, alive := fun t ht ↦ ?_
    once := fun t ↦ ?_, owned := fun t ht ↦ ?_, idle := fun t ht hact hpl ↦ ?_
    watched := fun t h ↦ ?_, waiting := fun t ht hfd ↦ ?_ }
  · rw [List.map_append, List.map_singleton]
    refine List.nodup_append.2 ⟨hw.inserts, List.nodup_singleton _, ?_⟩
    rintro fd hfd _ hfd' rfl
    obtain ⟨t, ht, hkey⟩ := List.mem_map.1 hfd
    exact hother t ht (hkey.trans (List.mem_singleton.1 hfd'))
  · rcases List.mem_append.1 ht with ht | ht
    · exact hw.unregistered t ht e he
    · rw [List.mem_singleton.1 ht]
      exact ⟨hfree e he, fun h ↦ hs (Or.inl (h ▸ hw.sound.registered_of_mem he))⟩
  · by_cases hts : t = s
    · rw [hts]
      exact halive
    · exact hw.alive t (halloc t hts ht)
  · by_cases hts : t = s
    · exact Nat.le_of_eq (hts ▸ hself)
    · rw [hsame t hts]
      exact hw.once t
  · by_cases hts : t = s
    · exact Or.inr (List.mem_append_right _ (List.mem_singleton.2 hts))
    · rw [hsame t hts] at ht
      exact (hw.owned t ht).imp_right (List.mem_append_left _)
  · by_cases hts : t = s
    · exact Or.inl (List.mem_append_right _ (List.mem_singleton.2 hts))
    · rw [hsame t hts] at hpl
      exact (hw.idle t (halloc t hts ht) hact hpl).imp_left (List.mem_append_left _)
  · by_cases hts : t = s
    · rw [hts] at h
      exact absurd (hstop.symm.trans h) Bool.false_ne_true
    · rw [hsame t hts]
      obtain ⟨ht, hplaces⟩ := hw.watched t h
      exact ⟨ht.imp_right (List.mem_append_left _), hplaces⟩
  · have hts : t ≠ s := by
      rintro rfl
      exact hqueue hfd
    rw [hsame t hts]
    exact hw.waiting t (halloc t hts ht) hfd

/-- A session that was about to be inserted is registered. -/
theorem Inv.insert (hw : Inv w) {inserts : List ClientId}
    (hinserts : w.inserts.Perm (s :: inserts)) :
    Inv { w with
      inserts := inserts
      clients := w.clients.addClient (w.clients.heap s).socket s } := by
  have hs : s ∈ w.inserts := hinserts.mem_iff.2 List.mem_cons_self
  have hfree := hw.unregistered s hs
  have hagree := hw.agree.addClient hfree
  have hrest : ∀ t ∈ inserts, t ∈ w.inserts := fun t ht ↦
    hinserts.mem_iff.2 (List.mem_cons_of_mem _ ht)
  have hnodup := (hinserts.map fun t ↦ (w.clients.heap t).socket).nodup_iff.1 hw.inserts
  rw [List.map_cons, List.nodup_cons] at hnodup
  have hreg := Clients.registered_addClient hfree
  obtain ⟨ipsessions, -, heq⟩ := Clients.addClient_eq hfree
  rw [heq] at hagree hreg ⊢
  have halloc : ∀ t, (t = s ∨ w.clients.Registered t) ∨ t ∈ inserts ↔ w.Allocated t := by
    intro t
    rw [Allocated, hinserts.mem_iff, List.mem_cons]
    tauto
  refine { hw with
    agree := hagree, inserts := hnodup.2, unregistered := fun t ht e he ↦ ?_
    alive := fun t ht ↦ ?_, owned := fun t ht ↦ ?_
    idle := fun t ht ↦ ?_, watched := fun t h ↦ ?_, waiting := fun t ht hfd ↦ ?_ }
  · rcases List.mem_cons.1 he with rfl | he
    · have hne : (w.clients.heap s).socket ≠ (w.clients.heap t).socket := fun h ↦
        hnodup.1 (List.mem_map.2 ⟨t, ht, h.symm⟩)
      exact ⟨hne, fun h ↦ hne (congrArg (fun u ↦ (w.clients.heap u).socket) h)⟩
    · exact hw.unregistered t (hrest t ht) e he
  · exact hw.alive t ((halloc t).1 (ht.imp_left (hreg t).1))
  · exact ((halloc t).2 (hw.owned t ht)).imp_left (hreg t).2
  · exact hw.idle t ((halloc t).1 (ht.imp_left (hreg t).1))
  · obtain ⟨ht, hplaces⟩ := hw.watched t h
    exact ⟨((halloc t).2 ht).imp_left (hreg t).2, hplaces⟩
  · exact hw.waiting t ((halloc t).1 (ht.imp_left (hreg t).1)) hfd

/-! ### The events -/

theorem Inv.connectOk (hw : Inv w) {push : Bool} {c : ClientSession}
    (he : w.enabled (.connectOk push s c)) (hok : w.Orderly (.connectOk push s c)) :
    Inv (w.step (.connectOk push s c)) := by
  obtain ⟨hnew, hinserts, hfree, hother⟩ := he
  have hs : ¬w.Allocated s := by
    rintro (h | h)
    · exact (hfree _ h).2 rfl
    · exact hinserts h
  have hself : (w.clients.modify s fun _ ↦ c).heap s = c := Clients.heap_modify_self s _ w.clients
  have hsame : ∀ t ∈ w.inserts, (w.clients.modify s fun _ ↦ c).heap t = w.clients.heap t :=
    fun t ht ↦ Clients.heap_modify_of_ne (fun h : t = s ↦ hinserts (h ▸ ht)) _ _
  have hannounced : Inv { (w.modify s fun _ ↦ c).watch s false with
      inserts := w.inserts ++ [s], connecting := w.connecting ++ [s] } := by
    refine (hw.allocate hs c).announce (fun h ↦ h.elim (fun h ↦ (hfree _ h).2 rfl) hinserts)
      (fun e he ↦ ?_) (fun t ht ↦ ?_) ?_ (Function.update_self _ _ _) ?_
    · show e.1 ≠ ((w.clients.modify s fun _ ↦ c).heap s).socket
      rw [hself]
      exact (hfree e he).1
    · show ((w.clients.modify s fun _ ↦ c).heap t).socket ≠
        ((w.clients.modify s fun _ ↦ c).heap s).socket
      rw [hself, hsame t ht]
      exact hother t ht
    · show ((w.clients.modify s fun _ ↦ c).heap s).destroyed = false
      rw [hself]
      exact hnew.destroyed
    · show ((w.clients.modify s fun _ ↦ c).heap s).socket ∉ w.writerQueue
      rw [hself]
      exact hok
  cases push with
  | true => exact hannounced
  | false =>
    have hinserted := hannounced.insert (s := s) (List.perm_append_singleton s w.inserts)
    have hstep : w.step (.connectOk false s c) = { (w.modify s fun _ ↦ c).watch s false with
        connecting := w.connecting ++ [s]
        inserts := w.inserts
        clients := (w.clients.modify s fun _ ↦ c).addClient
          ((w.clients.modify s fun _ ↦ c).heap s).socket s } := by
      rw [hself]
      rfl
    rw [hstep]
    exact hinserted

theorem Inv.activate (hw : Inv w) (he : w.enabled (.activate s)) : Inv (w.step (.activate s)) := by
  have hplaces : w.places s ≠ 0 := by
    have hpos := List.count_pos_iff.2 he
    rw [places]
    omega
  rw [step, Clients.activateClientBySocket]
  rcases hw.owned s hplaces with hs | hs
  · rw [hw.sound.lookup hs]
    exact hw.modify rfl rfl rfl fun _ ↦ Or.inr ⟨fun _ ↦ Or.inl he, hw.not_waiting hplaces⟩
  · rw [hw.lookup_of_mem_inserts hs]
    exact hw

theorem Inv.connectPush (hw : Inv w) (he : w.enabled (.connectPush s)) :
    Inv (w.step (.connectPush s)) := by
  refine hw.move (fun t ↦ ?_) (fun t ↦ ?_) fun t ht ↦ ?_
  · have hcount := count_erase_add_count_append he w.mxQueue t
    rw [places]
    omega
  · rw [List.count_append]
    exact Nat.le_add_right_of_le (hw.finishing t)
  · rcases ht with ht | ht
    · by_cases hts : t = s
      · exact Or.inr (List.mem_append_right _ (List.mem_singleton.2 hts))
      · exact Or.inl ((List.mem_erase_of_ne hts).2 ht)
    · exact Or.inr (List.mem_append_left _ ht)

/-- What `client_activity_cb` begins with. -/
def stop (s : ClientId) (w : UserServer) : UserServer :=
  (w.modify s fun c ↦ { c with activated := false }).watch s false

theorem heap_stop_self (s : ClientId) (w : UserServer) :
    (w.stop s).clients.heap s = { w.clients.heap s with activated := false } :=
  Clients.heap_modify_self s (fun c ↦ { c with activated := false }) w.clients

theorem Inv.stop (hw : Inv w) (s : ClientId) : Inv (w.stop s) :=
  (hw.modify (f := fun c ↦ { c with activated := false }) rfl rfl rfl
    fun h ↦ absurd h Bool.false_ne_true).watch nofun

theorem registered_stop (hs : w.clients.Registered s) : (w.stop s).clients.Registered s := by
  rw [Clients.Registered, heap_stop_self]
  exact hs

/-- Nobody holds the lock of the session when `client_activity_cb` comes. -/
theorem Inv.clientActivity_eq (hw : Inv w) (hplaces : w.places s = 0) (revents : Revents) :
    w.clientActivity (w.clients.heap s).socket revents s =
      match revents with
      | .read => { (w.stop s).modify s fun c ↦
          { c with workunitsQueue := c.workunitsQueue ++ [.read] } with pool := w.pool ++ [s] }
      | _ => (w.stop s).delete (w.clients.heap s).socket := by
  cases revents with
  | error => rfl
  | read => rfl
  | other =>
    have hfree : ¬(w.stop s).Locked s := by
      refine (hw.stop s).not_locked ?_
      rw [places] at hplaces
      show w.draining.count s + w.leaving.count s + w.mxQueue.count s = 0
      omega
    have hsocket := congrArg ClientSession.socket (heap_stop_self s w)
    rw [← show ((w.stop s).clients.heap s).socket = (w.clients.heap s).socket from hsocket]
    exact if_neg hfree

theorem Inv.activity (hw : Inv w) {fd : ℕ} {revents : Revents}
    (he : w.enabled (.activity fd revents))
    (hok : w.Orderly (.activity fd revents)) : Inv (w.step (.activity fd revents)) := by
  rw [step]
  cases hlookup : w.clients.getClientDatasBySocket fd with
  | none => exact hw
  | some s =>
    obtain ⟨hs, rfl⟩ := hw.sound.registered_of_lookup hlookup
    have hplaces : w.places s = 0 := (hw.watched s (he s hlookup)).2
    have hself := heap_stop_self s w
    have hsocket : ((w.stop s).clients.heap s).socket = (w.clients.heap s).socket := by rw [hself]
    have hdelete := (hw.stop s).delete (Or.inl (registered_stop hs)) hplaces
    rw [hsocket] at hdelete
    dsimp only
    rw [hw.clientActivity_eq hplaces]
    cases revents with
    | error => exact hdelete
    | read =>
      refine ((hw.stop s).schedule (registered_stop hs) hplaces ?_ (Function.update_self _ _ _)
        (hsocket ▸ hok)).modify (s := s)
        (f := fun c ↦ { c with workunitsQueue := c.workunitsQueue ++ [.read] }) rfl rfl rfl Or.inl
      exact congrArg ClientSession.activated hself
    | other => exact hdelete

theorem Inv.dequeue (hw : Inv w) {fd : ℕ} {queue : List ℕ} (hqueue : w.writerQueue = fd :: queue) :
    Inv { w with writerQueue := queue } := by
  have hsub : ∀ fd' ∈ queue, fd' ∈ w.writerQueue := fun fd' h ↦
    hqueue ▸ List.mem_cons_of_mem _ h
  have hnodup := hw.wakeups
  rw [hqueue] at hnodup
  exact { hw with
    wakeups := (List.nodup_cons.1 hnodup).2
    waiting := fun t ht h ↦ hw.waiting t ht (hsub _ h) }

/-- The writer finds no wake-up for a session that is locked. -/
theorem Inv.clientWriter_eq (hw : Inv w) (hplaces : w.places s = 0) :
    w.clientWriter s = { w.watch s false with pool := w.pool ++ [s] } := by
  refine if_neg (hw.not_locked ?_)
  rw [places] at hplaces
  omega

theorem Inv.writer (hw : Inv w) : Inv (w.step .writer) := by
  rw [step]
  cases hqueue : w.writerQueue with
  | nil => exact hw
  | cons fd queue =>
    have hdequeue := hw.dequeue hqueue
    dsimp only
    cases hlookup : w.clients.getClientDatasBySocket fd with
    | none => exact hdequeue
    | some s =>
      obtain ⟨hs, rfl⟩ := hw.sound.registered_of_lookup hlookup
      obtain ⟨hoff, hplaces⟩ := hw.waiting s (Or.inl hs) (hqueue ▸ List.mem_cons_self)
      have hnodup := hw.wakeups
      rw [hqueue, List.nodup_cons] at hnodup
      dsimp only
      rw [hdequeue.clientWriter_eq hplaces]
      exact (hdequeue.watch (s := s) (b := false) nofun).schedule hs hplaces hoff
        (Function.update_self _ _ _) hnodup.1

/-- A worker finds no session that is locked. -/
theorem Inv.step_workerStart (hw : Inv w) (he : s ∈ w.pool) :
    w.step (.workerStart s) =
      { w with pool := w.pool.erase s, draining := w.draining ++ [s] } := by
  refine if_neg (hw.not_locked ?_)
  have hpos := List.count_pos_iff.2 he
  have honce := hw.once s
  rw [places] at honce
  omega

theorem Inv.workerStart (hw : Inv w) (he : w.enabled (.workerStart s)) :
    Inv (w.step (.workerStart s)) := by
  rw [hw.step_workerStart he]
  refine hw.move (fun t ↦ ?_) hw.finishing fun t ht ↦ ht
  have hcount := count_erase_add_count_append he w.draining t
  rw [places]
  omega

/-- A worker stops. -/
theorem Inv.leave (hw : Inv w) (hs : s ∈ w.draining) :
    Inv { w with draining := w.draining.erase s, leaving := w.leaving ++ [s] } := by
  refine hw.move (fun t ↦ ?_) hw.finishing fun t ht ↦ ht
  have hcount := count_erase_add_count_append hs w.leaving t
  rw [places]
  omega

theorem Inv.workerTurn (hw : Inv w) {ok : Bool} {lastRequest : Int}
    (he : w.enabled (.workerTurn s ok lastRequest)) :
    Inv (w.step (.workerTurn s ok lastRequest)) := by
  rw [step, UserServer.workerTurn]
  cases (w.clients.heap s).workunitsQueue with
  | nil => exact hw.leave he
  | cons unit rest =>
    cases ok with
    | true => exact hw.modify rfl rfl rfl Or.inl
    | false => exact (hw.leave he).modify rfl rfl rfl Or.inl

theorem Inv.workerPush (hw : Inv w) (he : w.enabled (.workerPush s)) :
    Inv (w.step (.workerPush s)) := by
  refine hw.move (fun t ↦ ?_) (fun t ↦ ?_) fun t ht ↦ ht.imp_right (List.mem_append_left _)
  · have hcount := count_erase_add_count_append he w.mxQueue t
    rw [places]
    omega
  · have hfinishing := hw.finishing t
    rw [List.count_append, List.count_append]
    omega

theorem Inv.workerUnlock (hw : Inv w) (he : w.enabled (.workerUnlock s)) :
    Inv (w.step (.workerUnlock s)) := by
  refine hw.move (fun t ↦ rfl) (fun t ↦ ?_) fun t ht ↦ ht
  rw [count_erase_add_count_append he w.signalling t]
  exact hw.finishing t

theorem Inv.workerSignal (hw : Inv w) : Inv (w.step (.workerSignal s)) := by
  refine hw.move (fun t ↦ rfl) (fun t ↦ ?_) fun t ht ↦ ht
  exact Nat.le_trans (Nat.add_le_add_left (List.erase_sublist.count_le t) _) (hw.finishing t)

theorem Inv.injector (hw : Inv w) (hok : w.Orderly .injector) : Inv (w.step .injector) := by
  rw [step]
  cases hqueue : w.mxQueue with
  | nil => exact hw
  | cons s queue =>
    have hfinishing := hok s (by rw [hqueue]; rfl)
    have hplaces : w.places s ≠ 0 := by
      rw [places, hqueue, List.count_cons_self]
      omega
    obtain ⟨hpop, hzero⟩ := hw.pop hqueue hfinishing
    have hwait := hw.not_waiting hplaces
    show Inv (ite _ _ _)
    split
    · exact hpop.delete (hw.owned s hplaces) hzero
    · have hlisten := hpop.watch (s := s) (b := true) fun _ ↦ ⟨hw.owned s hplaces, hzero⟩
      exact hlisten.modify (f := fun c ↦ { c with activated := true }) rfl rfl rfl fun _ ↦
        Or.inr ⟨fun h ↦ absurd hzero h, hwait⟩

/-- The message that `warn_clients` queues. -/
theorem Inv.queueMessage (hw : Inv w) (msg : Bytes) (s : ClientId) :
    Inv (w.modify s fun c ↦ { c with
      workunitsQueue := c.workunitsQueue ++ [.message msg], activated := false }) :=
  hw.modify rfl rfl rfl fun h ↦ absurd h Bool.false_ne_true

/-- `warn_clients`, one session. -/
theorem Inv.warnSession (hw : Inv w) (msg : Bytes) (hs : w.clients.Registered s)
    (hfresh : (w.clients.heap s).activated = true → ¬w.Fresh s) : Inv (w.warnSession msg s) := by
  have hself : (w.clients.modify s fun c ↦ { c with
      workunitsQueue := c.workunitsQueue ++ [.message msg], activated := false }).heap s =
      { w.clients.heap s with
        workunitsQueue := (w.clients.heap s).workunitsQueue ++ [.message msg]
        activated := false } := Clients.heap_modify_self s _ w.clients
  have hsocket := congrArg ClientSession.socket hself
  rw [UserServer.warnSession]
  split
  · rename_i hact
    have hplaces := hw.places_of_activated (Or.inl hs) hact (hfresh hact)
    have hqueue : (w.clients.heap s).socket ∉ w.writerQueue := fun h ↦
      Bool.false_ne_true ((hw.waiting s (Or.inl hs) h).1.symm.trans hact)
    have henqueue := (hw.queueMessage msg s).enqueue (s := s)
      (by rw [Clients.Registered]; exact hsocket.symm ▸ hs) hplaces
      (congrArg ClientSession.activated hself) (hsocket.symm ▸ hqueue)
    exact hsocket ▸ henqueue
  · exact hw.queueMessage msg s

theorem registered_warnSession (msg : Bytes) (w : UserServer) (s t : ClientId) :
    (w.warnSession msg s).clients.Registered t ↔ w.clients.Registered t := by
  have hsocket : ((w.warnSession msg s).clients.heap t).socket = (w.clients.heap t).socket := by
    rw [clients_warnSession]
    exact Clients.apply_heap_modify ClientSession.socket rfl t
  rw [Clients.Registered, hsocket]
  rfl

theorem activated_warnSession {msg : Bytes}
    (h : ((w.warnSession msg s).clients.heap t).activated = true) :
    (w.clients.heap t).activated = true := by
  rw [clients_warnSession] at h
  by_cases hts : t = s
  · rw [hts, Clients.heap_modify_self] at h
    cases h
  · rwa [Clients.heap_modify_of_ne hts] at h

/-- `warn_clients`, some sessions. -/
theorem Inv.foldl_warnSession {msg : Bytes} {l : List ClientId} (hw : Inv w)
    (hl : ∀ s ∈ l, w.clients.Registered s ∧
      ((w.clients.heap s).activated = true → ¬w.Fresh s)) :
    Inv (l.foldl (UserServer.warnSession msg) w) := by
  induction l generalizing w with
  | nil => exact hw
  | cons s l ih =>
    obtain ⟨hs, hfresh⟩ := hl s List.mem_cons_self
    refine ih (hw.warnSession msg hs hfresh) fun t ht ↦ ?_
    obtain ⟨ht, hfresh⟩ := hl t (List.mem_cons_of_mem _ ht)
    exact ⟨(registered_warnSession msg w s t).2 ht, fun h ↦ hfresh (activated_warnSession h)⟩

theorem Inv.warnClients (hw : Inv w) {addr : In6Addr} {check : ClientId → Bool} {msg : Bytes}
    (hok : w.Orderly (.warnClients addr check msg)) :
    Inv (w.step (.warnClients addr check msg)) :=
  hw.foldl_warnSession fun s hs ↦
    ⟨(hw.agree.only addr s (List.mem_filter.1 hs).1).2, hok s hs⟩

/-- `kill_all_clients`, one entry. -/
theorem Inv.killClient (hw : Inv w) {e : ℕ × ClientId} (he : e ∈ w.clients.connHash)
    (hfresh : (w.clients.heap e.2).activated = true → ¬w.Fresh e.2) : Inv (w.killClient e) := by
  have hs := hw.sound.registered_of_mem he
  rw [UserServer.killClient, hw.sound.killClient_eq he]
  cases hact : (w.clients.heap e.2).activated with
  | false =>
    exact hw.modify (s := e.2)
      (f := fun c ↦ { c with pendingDisconnect := true }) rfl rfl rfl Or.inl
  | true =>
    exact (hw.watch (s := e.2) (b := false) nofun).unregister hs
      (hw.places_of_activated (Or.inl hs) hact (hfresh hact)) (Function.update_self _ _ _)

theorem activated_killClient {w : Clients} (hw : w.Sound) {e : ℕ × ClientId} (he : e ∈ w.connHash)
    (t : ClientId) : ((w.killClient e).heap t).activated = (w.heap t).activated := by
  rw [hw.killClient_eq he]
  split
  · exact Clients.apply_heap_modify (f := fun c ↦ { c with pendingDisconnect := true })
      ClientSession.activated rfl t
  · rw [hw.heap_unregister (hw.registered_of_mem he)]
    exact Clients.apply_heap_modify (f := fun c ↦ { c with destroyed := true })
      ClientSession.activated rfl t

/-- It leaves the queues and the workers alone. -/
theorem fresh_killClient (e : ℕ × ClientId) (w : UserServer) (t : ClientId) :
    (w.killClient e).Fresh t ↔ w.Fresh t := by
  rw [UserServer.killClient]
  split
  · exact Iff.rfl
  · exact Iff.rfl

/-- What is known of the other entries stays so. -/
theorem Inv.killClient_of_ne (hw : Inv w) {e e' : ℕ × ClientId} (he : e ∈ w.clients.connHash)
    (hmem : e' ∈ w.clients.connHash ∧ ((w.clients.heap e'.2).activated = true → ¬w.Fresh e'.2))
    (hne : e'.1 ≠ e.1) : e' ∈ (w.killClient e).clients.connHash ∧
      (((w.killClient e).clients.heap e'.2).activated = true → ¬(w.killClient e).Fresh e'.2) := by
  rw [fresh_killClient]
  refine ⟨Clients.mem_connHash_killClient hmem.1 hne, fun h ↦ hmem.2 ?_⟩
  exact (activated_killClient hw.sound he e'.2).symm.trans h

/-- `kill_all_clients`, some entries. -/
theorem Inv.foldl_killClient {l : List (ℕ × ClientId)} (hl : (l.map Prod.fst).Nodup) (hw : Inv w)
    (hmem : ∀ e ∈ l, e ∈ w.clients.connHash ∧
      ((w.clients.heap e.2).activated = true → ¬w.Fresh e.2)) :
    Inv (l.foldl (fun w e ↦ w.killClient e) w) := by
  induction l generalizing w with
  | nil => exact hw
  | cons e l ih =>
    obtain ⟨hnot, hl⟩ := List.nodup_cons.1 hl
    obtain ⟨he, hfresh⟩ := hmem e List.mem_cons_self
    refine ih hl (hw.killClient he hfresh) fun e' he' ↦ ?_
    refine hw.killClient_of_ne he (hmem e' (List.mem_cons_of_mem _ he')) fun hkey ↦ hnot ?_
    exact hkey ▸ List.mem_map_of_mem he'

/-- Marks change nothing. -/
theorem Inv.marked (hw : Inv w) {clients : Clients} (h : Clients.Marked w.clients clients) :
    Inv { w with clients := clients } := by
  obtain ⟨heap, rfl, hmark⟩ := h
  refine hw.of_heap (fun t ↦ ?_) (fun t ↦ ?_) (fun t ↦ ?_) fun t ht ↦ ?_
  all_goals obtain ⟨b, -, hb⟩ := hmark t
  · rw [hb]
  · rw [hb]
  · rw [hb]
  · rw [hb] at ht
    exact Or.inl ht

/-- **Every orderly step keeps the invariant.** -/
theorem inv_step {e : UserEvent} (hw : Inv w) (he : w.enabled e) (hok : w.Orderly e) :
    Inv (w.step e) := by
  cases e with
  | connectOk push s c => exact hw.connectOk he hok
  | activate s => exact hw.activate he
  | connectPush s => exact hw.connectPush he
  | insert =>
    rw [step]
    cases hinserts : w.inserts with
    | nil => exact hw
    | cons s inserts => exact hw.insert (List.Perm.of_eq hinserts)
  | activity fd revents => exact hw.activity he hok
  | writer => exact hw.writer
  | workerStart s => exact hw.workerStart he
  | workerTurn s ok lastRequest => exact hw.workerTurn he
  | workerPush s => exact hw.workerPush he
  | workerUnlock s => exact hw.workerUnlock he
  | workerSignal s => exact hw.workerSignal
  | injector => exact hw.injector hok
  | warnClients addr check msg => exact hw.warnClients hok
  | killExpiredClientsSession now trylock =>
    exact hw.marked (Clients.marked_killExpiredClientsSession hok)
  | killAllClients => exact hw.foldl_killClient hw.sound.keys fun e he ↦ ⟨he, hok e he⟩

theorem inv_of_reach (hw : userServer.Reach Orderly w) : Inv w := by
  refine hw.invariant ?_ fun w e hw he hok ↦ inv_step hw he hok
  rintro w ⟨heap, rfl⟩
  exact inv_start heap

/-- A sasl worker, the pool, a worker or `mx_queue` has the session. -/
def Scheduled (w : UserServer) (s : ClientId) : Prop :=
  s ∈ w.connecting ∨ s ∈ w.pool ∨ s ∈ w.draining ∨ s ∈ w.leaving ∨ s ∈ w.finishing ∨
    s ∈ w.signalling ∨ s ∈ w.mxQueue

theorem Inv.places_of_scheduled (hw : Inv w) (hs : w.Scheduled s) : w.places s ≠ 0 := by
  have hfinishing := hw.finishing s
  have hpos : 0 < w.connecting.count s ∨ 0 < w.pool.count s ∨ 0 < w.draining.count s ∨
      0 < w.leaving.count s ∨ 0 < w.finishing.count s ∨ 0 < w.signalling.count s ∨
      0 < w.mxQueue.count s := by
    simp only [List.count_pos_iff]
    exact hs
  rw [places]
  omega

/-- The server has a pointer to the session: in a queue or a worker, in a table, or in the event
loop. -/
def Pointed (w : UserServer) (s : ClientId) : Prop :=
  w.Scheduled s ∨ s ∈ w.inserts ∨ w.watching s = true ∨ (∃ e ∈ w.clients.connHash, e.2 = s) ∨
    ∃ a, s ∈ w.clients.sessionsAt a

/-- Whenever `kill_expired_clients_session` kills a session, it leaves a pointer to it. -/
theorem Inv.pointed_of_killExpired (hw : Inv w) {now : Int} {trylock : ClientId → Bool × Bool}
    (hok : ¬w.Orderly (.killExpiredClientsSession now trylock)) :
    ∃ s, (w.step (.killExpiredClientsSession now trylock)).Pointed s ∧
      ((w.step (.killExpiredClientsSession now trylock)).clients.heap s).destroyed = true := by
  rw [Orderly] at hok
  push Not at hok
  obtain ⟨e, he, hexp⟩ := hok
  obtain ⟨hdestroyed, hlisted⟩ := hw.sound.killed_session_listed now trylock he
    (eq_true_of_ne_false hexp)
  exact ⟨e.2, Or.inr (Or.inr (Or.inr (Or.inr ⟨_, hlisted⟩))), hdestroyed⟩

end UserServer

open UserServer in
/-- **No session is destroyed while it is scheduled**, in a run of orderly steps: a session that
waits in the pool or in `mx_queue`, or that a sasl worker or a worker is at work on, is registered
or about to be inserted; and none that the server has a pointer to is destroyed, so no step uses one
that is. -/
theorem scheduled_sessions_registered {w : UserServer} (hw : userServer.Reach Orderly w) :
    (∀ s, w.Scheduled s → w.clients.Registered s ∨ s ∈ w.inserts) ∧
    ∀ s, w.Pointed s → (w.clients.heap s).destroyed = false := by
  have hinv := inv_of_reach hw
  have howned : ∀ s, w.Scheduled s → w.Allocated s := fun s hs ↦
    hinv.owned s (hinv.places_of_scheduled hs)
  refine ⟨howned, fun s hs ↦ hinv.alive s ?_⟩
  rcases hs with hs | hs | hs | ⟨e, he, rfl⟩ | ⟨a, hs⟩
  · exact howned s hs
  · exact Or.inr hs
  · exact (hinv.watched s hs).1
  · exact Or.inl (hinv.sound.registered_of_mem he)
  · exact Or.inl (hinv.agree.only a s hs).2

/-- A client comes by way of the push worker, and sends something. -/
def pushedRun : List UserEvent :=
  [.connectOk true 0 (.sample 5), .activate 0, .connectPush 0, .insert, .injector,
    .activity 5 .read, .workerStart 0, .workerTurn 0 true 0]

theorem pushedRun_path : userServer.Path UserServer.Orderly
    (UserServer.start fun _ ↦ .sample 0) pushedRun := by
  refine ⟨⟨⟨rfl, rfl, rfl, rfl⟩, List.not_mem_nil, fun _ h ↦ absurd h List.not_mem_nil,
    fun _ h ↦ absurd h List.not_mem_nil⟩, List.not_mem_nil, List.mem_cons_self, trivial,
    List.mem_cons_self, trivial, List.cons_ne_nil _ _, trivial, List.cons_ne_nil _ _, ?_, ?_, ?_,
    List.mem_cons_self, trivial, List.mem_cons_self, trivial, trivial⟩
  · rintro s -
    exact ⟨List.not_mem_nil, List.not_mem_nil⟩
  · rintro s hs
    rw [← Option.some.inj hs]
    rfl
  · exact List.not_mem_nil

/-- A worker is at work on it, and it is registered. -/
theorem pushedRun_registered :
    let w := userServer.run (UserServer.start fun _ ↦ .sample 0) pushedRun
    0 ∈ w.draining ∧ (w.clients.Registered 0 ∨ 0 ∈ w.inserts) := by
  intro w
  have hsched := scheduled_sessions_registered
    (userServer.reach_run ⟨_, rfl⟩ _ pushedRun_path)
  have hmem : 0 ∈ w.draining := by decide
  exact ⟨hmem, hsched.1 0 (Or.inr (Or.inr (Or.inl hmem)))⟩

/-- **A destroyed session is scheduled**: it has expired in `mx_queue`, and the injector will use
it. -/
theorem expired_session_scheduled :
    ∃ w, userServer.Reachable w ∧ 0 ∈ w.mxQueue ∧ (w.clients.heap 0).destroyed = true ∧
      ¬w.clients.Registered 0 ∧ 0 ∉ w.inserts := by
  refine ⟨_, userServer.reach_run (s := UserServer.start fun _ ↦ .sample 0) ⟨_, rfl⟩
    [.connectOk false 0 (.sample 5), .activate 0, .connectPush 0,
      .killExpiredClientsSession 11 fun _ ↦ (true, true)] ?_,
    by decide, by decide, by decide, by decide⟩
  exact ⟨⟨⟨rfl, rfl, rfl, rfl⟩, List.not_mem_nil, fun _ h ↦ absurd h List.not_mem_nil,
    fun _ h ↦ absurd h List.not_mem_nil⟩, trivial, List.mem_cons_self, trivial,
    List.mem_cons_self, trivial, trivial, trivial, trivial⟩

end Nufw
