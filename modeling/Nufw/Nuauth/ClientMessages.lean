import Nufw.Nuauth.ClientSchedule

/-!
# No message to a client is left behind

`warn_clients` puts a message into the `workunits_queue` of a session, and wakes the session only if
it is activated. Otherwise it relies on somebody who will look at the queue: the session is in the
pool of the workers, or has a wake-up pending, or a worker is in its loop. But a worker that has
found the queue empty looks no more. From then on until the injector activates the session again, a
message that comes is queued, and nobody is told; and so it is with a session that is registered and
not activated yet. When everything has come to rest such a message is still there, and it waits for
the next message, or until the client itself sends something.

If no message comes in between, then whatever is in a queue is attended to (`UserServer.Messages`),
and at rest the queues are empty (`no_message_left`). The steps that schedule a session twice are
ruled out as well: a worker that finds the session locked, or a writer that does, drops what it was
told.
-/

namespace Nufw

namespace UserServer

/-- Somebody will look at the `workunits_queue` of the session, or will disconnect it. -/
def Served (w : UserServer) (s : ClientId) : Prop :=
  s ∈ w.pool ∨ s ∈ w.draining ∨ (w.clients.heap s).socket ∈ w.writerQueue ∨
    (w.clients.heap s).pendingDisconnect = true ∧ (s ∈ w.leaving ∨ s ∈ w.mxQueue)

/-- **The step is orderly, and queues no message for a session that nobody is told of.** -/
def Prompt (w : UserServer) : UserEvent → Prop
  | .warnClients addr check msg => w.Orderly (.warnClients addr check msg) ∧
    ∀ s ∈ (w.clients.sessionsAt addr).filter check,
      (w.clients.heap s).activated = true ∨ w.Served s
  | e => w.Orderly e

/-- Everything has come to rest. -/
def Quiescent (w : UserServer) : Prop :=
  w.writerQueue = [] ∧ w.mxQueue = [] ∧ w.pool = [] ∧ w.draining = [] ∧ w.leaving = [] ∧
    w.finishing = [] ∧ w.signalling = []

instance (w : UserServer) : Decidable w.Quiescent :=
  inferInstanceAs (Decidable (_ ∧ _ ∧ _ ∧ _ ∧ _ ∧ _ ∧ _))

/-- **What is queued is attended to.** -/
structure Messages (w : UserServer) : Prop where
  inserts : ∀ s ∈ w.inserts, (w.clients.heap s).workunitsQueue = []
  served : ∀ s, w.clients.Registered s → (w.clients.heap s).workunitsQueue ≠ [] → w.Served s

variable {w w' : UserServer} {s t : ClientId}

theorem messages_start (heap : ClientId → ClientSession) : Messages (start heap) where
  inserts _ hs := absurd hs List.not_mem_nil
  served _ hs := absurd hs List.not_mem_nil

theorem Prompt.orderly {e : UserEvent} (h : w.Prompt e) : w.Orderly e := by
  cases e with
  | warnClients addr check msg => exact h.1
  | _ => exact h

/-! ### Steps that leave the queues alone -/

/-- The sessions and the places change. -/
theorem Messages.of_served (hw : Messages w)
    (hinserts : ∀ t ∈ w'.inserts, t ∈ w.inserts)
    (hunits : ∀ t, (w'.clients.heap t).workunitsQueue = (w.clients.heap t).workunitsQueue)
    (hreg : ∀ t, w'.clients.Registered t → w.clients.Registered t)
    (hserved : ∀ t, w'.clients.Registered t → (w.clients.heap t).workunitsQueue ≠ [] →
      w.Served t → w'.Served t) : Messages w' where
  inserts t ht := (hunits t).trans (hw.inserts t (hinserts t ht))
  served t ht hne := by
    have hne : (w.clients.heap t).workunitsQueue ≠ [] := hunits t ▸ hne
    exact hserved t ht hne (hw.served t (hreg t ht) hne)

/-- Sessions change, but for their sockets and queues; marks are only set. -/
theorem Messages.of_heap (hw : Messages w) {heap : ClientId → ClientSession}
    (hsocket : ∀ t, (heap t).socket = (w.clients.heap t).socket)
    (hunits : ∀ t, (heap t).workunitsQueue = (w.clients.heap t).workunitsQueue)
    (hmark : ∀ t, (w.clients.heap t).pendingDisconnect = true →
      (heap t).pendingDisconnect = true) :
    Messages { w with clients := { w.clients with heap := heap } } := by
  refine hw.of_served (fun _ ↦ id) hunits (fun t ht ↦ ?_) fun t _ _ ht ↦ ?_
  · rw [Clients.Registered, ← hsocket]
    exact ht
  · rcases ht with ht | ht | ht | ht
    · exact Or.inl ht
    · exact Or.inr (Or.inl ht)
    · refine Or.inr (Or.inr (Or.inl ?_))
      show (heap t).socket ∈ w.writerQueue
      rw [hsocket]
      exact ht
    · exact Or.inr (Or.inr (Or.inr ⟨hmark t ht.1, ht.2⟩))

theorem Messages.modify (hw : Messages w) {f : ClientSession → ClientSession}
    (hsocket : (f (w.clients.heap s)).socket = (w.clients.heap s).socket)
    (hunits : (f (w.clients.heap s)).workunitsQueue = (w.clients.heap s).workunitsQueue)
    (hmark : (w.clients.heap s).pendingDisconnect = true →
      (f (w.clients.heap s)).pendingDisconnect = true) : Messages (w.modify s f) := by
  refine hw.of_heap (Clients.apply_heap_modify ClientSession.socket hsocket)
    (Clients.apply_heap_modify ClientSession.workunitsQueue hunits) fun t ht ↦ ?_
  by_cases hts : t = s
  · rw [hts] at ht ⊢
    rw [Function.update_self]
    exact hmark ht
  · rw [Function.update_of_ne hts]
    exact ht

/-- A worker has found the queue empty, or failed. -/
theorem Messages.leave (hw : Messages w)
    (hs : (w.clients.heap s).workunitsQueue = [] ∨
      (w.clients.heap s).pendingDisconnect = true) :
    Messages { w with draining := w.draining.erase s, leaving := w.leaving ++ [s] } := by
  refine hw.of_served (fun _ ↦ id) (fun _ ↦ rfl) (fun _ ↦ id) fun t _ hne ht ↦ ?_
  by_cases hts : t = s
  · rw [hts] at hne ⊢
    have hmark := hs.resolve_left hne
    exact Or.inr (Or.inr (Or.inr ⟨hmark, Or.inl (List.mem_append_right _ List.mem_cons_self)⟩))
  · rcases ht with ht | ht | ht | ht
    · exact Or.inl ht
    · exact Or.inr (Or.inl ((List.mem_erase_of_ne hts).2 ht))
    · exact Or.inr (Or.inr (Or.inl ht))
    · exact Or.inr (Or.inr (Or.inr ⟨ht.1, ht.2.imp_left (List.mem_append_left _)⟩))

/-- A session leaves both tables. -/
theorem Messages.unregister (hw : Messages w) (hinv : Inv w) (hs : w.clients.Registered s) :
    Messages { w with clients := w.clients.unregister s } := by
  have hheap := hinv.sound.heap_unregister hs
  have hkeep : ∀ {β : Type} (g : ClientSession → β),
      g { w.clients.heap s with destroyed := true } = g (w.clients.heap s) →
        ∀ t, g ((w.clients.unregister s).heap t) = g (w.clients.heap t) := by
    intro β g hg t
    rw [hheap]
    exact Clients.apply_heap_modify (f := fun c ↦ { c with destroyed := true }) g hg t
  refine hw.of_served (fun _ ↦ id) (hkeep ClientSession.workunitsQueue rfl)
    (fun t ht ↦ ((hinv.sound.registered_unregister hs t).1 ht).2) fun t _ _ ht ↦ ?_
  rcases ht with ht | ht | ht | ht
  · exact Or.inl ht
  · exact Or.inr (Or.inl ht)
  · refine Or.inr (Or.inr (Or.inl ?_))
    exact (hkeep ClientSession.socket rfl t).symm ▸ ht
  · exact Or.inr (Or.inr (Or.inr ⟨(hkeep ClientSession.pendingDisconnect rfl t).trans ht.1, ht.2⟩))

theorem Messages.watch (hw : Messages w) (s : ClientId) (b : Bool) : Messages (w.watch s b) :=
  ⟨hw.inserts, hw.served⟩

theorem Messages.delete (hw : Messages w) (hinv : Inv w) (hs : w.clients.Registered s) :
    Messages (w.delete (w.clients.heap s).socket) := by
  rw [UserServer.delete, hinv.sound.lookup hs]
  dsimp only
  rw [hinv.sound.deleteClientBySocketExt_eq hs]
  exact (hw.unregister hinv hs).watch s false

/-- A session has been allocated, with nothing in its queue. -/
theorem Messages.allocated (hw : Messages w) {c : ClientSession} (hunits : c.workunitsQueue = [])
    {clients : Clients} {watching : ClientId → Bool} {connecting inserts : List ClientId}
    (hheap : clients.heap = (w.clients.modify s fun _ ↦ c).heap)
    (hreg : ∀ t, clients.Registered t → t = s ∨ w.clients.Registered t)
    (hinserts : ∀ t ∈ inserts, t = s ∨ t ∈ w.inserts) :
    Messages { w with
      clients := clients, watching := watching, connecting := connecting, inserts := inserts } := by
  have hself : clients.heap s = c := by
    rw [hheap]
    exact Clients.heap_modify_self s _ w.clients
  have hsame : ∀ t ≠ s, clients.heap t = w.clients.heap t := by
    intro t hts
    rw [hheap]
    exact Clients.heap_modify_of_ne hts _ _
  refine ⟨fun t ht ↦ ?_, fun t ht hne ↦ ?_⟩
  · by_cases hts : t = s
    · rw [hts, hself]
      exact hunits
    · rw [hsame t hts]
      exact hw.inserts t ((hinserts t ht).resolve_left hts)
  · by_cases hts : t = s
    · rw [hts, hself] at hne
      exact absurd hunits hne
    · rw [hsame t hts] at hne
      have hserved := hw.served t ((hreg t ht).resolve_left hts) hne
      rw [Served, hsame t hts]
      exact hserved

/-- Something is queued for a session that is attended to. -/
theorem Messages.queued (hw : Messages w) (hinv : Inv w) (hs : w.clients.Registered s)
    {f : ClientSession → ClientSession} {pool : List ClientId} {queue : List ℕ}
    (hpool : ∀ t ∈ w.pool, t ∈ pool) (hqueue : ∀ fd ∈ w.writerQueue, fd ∈ queue)
    (hserved : Served { w.modify s f with pool := pool, writerQueue := queue } s) :
    Messages { w.modify s f with pool := pool, writerQueue := queue } := by
  have hsame : ∀ t ≠ s, (w.clients.modify s f).heap t = w.clients.heap t := fun t hts ↦
    Clients.heap_modify_of_ne hts _ _
  refine ⟨fun t ht ↦ ?_, fun t ht hne ↦ ?_⟩
  · have hts : t ≠ s := fun h ↦ hinv.not_registered_of_mem_inserts (h ▸ ht) hs
    exact (congrArg ClientSession.workunitsQueue (hsame t hts)).trans (hw.inserts t ht)
  · by_cases hts : t = s
    · rw [hts]
      exact hserved
    · have hsame : (w.modify s f).clients.heap t = w.clients.heap t := hsame t hts
      have ht : w.clients.Registered t := by
        rw [Clients.Registered, ← hsame]
        exact ht
      rw [hsame] at hne
      rw [Served, hsame]
      rcases hw.served t ht hne with h | h | h | h
      · exact Or.inl (hpool t h)
      · exact Or.inr (Or.inl h)
      · exact Or.inr (Or.inr (Or.inl (hqueue _ h)))
      · exact Or.inr (Or.inr (Or.inr h))

/-! ### The events -/

theorem Messages.connectOk (hw : Messages w) {push : Bool} {c : ClientSession}
    (he : w.enabled (.connectOk push s c)) : Messages (w.step (.connectOk push s c)) := by
  obtain ⟨hnew, hinserts, hfree, -⟩ := he
  have hreg := Clients.registered_of_heap
    (Clients.heap_allocate (fun e he ↦ (hfree e he).2) fun _ ↦ c)
  cases push with
  | true =>
    refine hw.allocated hnew.workunitsQueue rfl (fun t ht ↦ Or.inr ((hreg t).1 ht)) fun t ht ↦ ?_
    exact (List.mem_append.1 ht).symm.imp_left List.mem_singleton.1
  | false =>
    have hself : (w.clients.modify s fun _ ↦ c).heap s = c :=
      Clients.heap_modify_self s _ w.clients
    have hfree : ∀ e ∈ (w.clients.modify s fun _ ↦ c).connHash,
        e.1 ≠ ((w.clients.modify s fun _ ↦ c).heap s).socket ∧ e.2 ≠ s := by
      rw [hself]
      exact hfree
    have hheap := Clients.heap_addClient hfree
    have hadded := Clients.registered_addClient hfree
    rw [hself] at hheap hadded
    exact hw.allocated hnew.workunitsQueue hheap
      (fun t ht ↦ ((hadded t).1 ht).imp_right (hreg t).1) fun t ht ↦ Or.inr ht

theorem Messages.activate (hw : Messages w) : Messages (w.step (.activate s)) := by
  rw [step, Clients.activateClientBySocket]
  split
  · exact hw
  · exact hw.modify rfl rfl id

theorem Messages.connectPush (hw : Messages w) : Messages (w.step (.connectPush s)) := by
  refine hw.of_served (fun _ ↦ id) (fun _ ↦ rfl) (fun _ ↦ id) fun t _ _ ht ↦ ?_
  exact ht.imp_right (Or.imp_right (Or.imp_right (And.imp_right (Or.imp_right
    (List.mem_append_left _)))))

theorem Messages.insert (hw : Messages w) (hinv : Inv w) : Messages (w.step .insert) := by
  rw [step]
  cases hinserts : w.inserts with
  | nil => exact hw
  | cons s inserts =>
    have hs : s ∈ w.inserts := hinserts ▸ List.mem_cons_self
    have hfree := hinv.unregistered s hs
    refine ⟨fun t ht ↦ ?_, fun t ht hne ↦ ?_⟩
    · dsimp only
      rw [Clients.heap_addClient hfree]
      exact hw.inserts t (hinserts ▸ List.mem_cons_of_mem _ ht)
    · dsimp only at hne
      rw [Clients.heap_addClient hfree] at hne
      rw [Served, Clients.heap_addClient hfree]
      rcases (Clients.registered_addClient hfree t).1 ht with rfl | ht
      · exact absurd (hw.inserts t hs) hne
      · exact hw.served t ht hne

theorem Messages.activity (hw : Messages w) (hinv : Inv w) {fd : ℕ} {revents : Revents}
    (he : w.enabled (.activity fd revents)) : Messages (w.step (.activity fd revents)) := by
  rw [step]
  cases hlookup : w.clients.getClientDatasBySocket fd with
  | none => exact hw
  | some s =>
    obtain ⟨hs, rfl⟩ := hinv.sound.registered_of_lookup hlookup
    have hsocket : ((w.stop s).clients.heap s).socket = (w.clients.heap s).socket := by
      rw [heap_stop_self]
    have hstop : Messages (w.stop s) :=
      (hw.modify (f := fun c ↦ { c with activated := false }) rfl rfl id).watch s false
    have hdelete := hstop.delete (hinv.stop s) (registered_stop hs)
    rw [hsocket] at hdelete
    dsimp only
    rw [hinv.clientActivity_eq (hinv.watched s (he s hlookup)).2]
    cases revents with
    | error => exact hdelete
    | read =>
      exact hstop.queued (hinv.stop s) (registered_stop hs) (fun _ ↦ List.mem_append_left _)
        (fun _ ↦ id) (Or.inl (List.mem_append_right _ List.mem_cons_self))
    | other => exact hdelete

theorem Messages.writer (hw : Messages w) (hinv : Inv w) : Messages (w.step .writer) := by
  rw [step]
  cases hqueue : w.writerQueue with
  | nil => exact hw
  | cons fd queue =>
    dsimp only
    cases hlookup : w.clients.getClientDatasBySocket fd with
    | none =>
      refine hw.of_served (fun _ ↦ id) (fun _ ↦ rfl) (fun _ ↦ id) fun t ht _ hserved ↦ ?_
      have hne : (w.clients.heap t).socket ≠ fd := by
        rintro rfl
        exact Option.some_ne_none t ((hinv.sound.lookup ht).symm.trans hlookup)
      rw [Served, hqueue] at hserved
      exact hserved.imp_right (Or.imp_right (Or.imp_left (List.mem_of_ne_of_mem hne)))
    | some s =>
      obtain ⟨hs, rfl⟩ := hinv.sound.registered_of_lookup hlookup
      have hplaces := (hinv.waiting s (Or.inl hs) (hqueue ▸ List.mem_cons_self)).2
      dsimp only
      rw [(hinv.dequeue hqueue).clientWriter_eq hplaces]
      refine hw.of_served (fun _ ↦ id) (fun _ ↦ rfl) (fun _ ↦ id) fun t ht _ hserved ↦ ?_
      by_cases hts : t = s
      · exact Or.inl (List.mem_append_right _ (List.mem_singleton.2 hts))
      · have hne : (w.clients.heap t).socket ≠ (w.clients.heap s).socket := fun h ↦
          hts (hinv.sound.eq_of_socket ht hs h)
        rw [Served, hqueue] at hserved
        rcases hserved with h | h | h | h
        · exact Or.inl (List.mem_append_left _ h)
        · exact Or.inr (Or.inl h)
        · exact Or.inr (Or.inr (Or.inl (List.mem_of_ne_of_mem hne h)))
        · exact Or.inr (Or.inr (Or.inr h))

theorem Messages.workerStart (hw : Messages w) (hinv : Inv w) (he : w.enabled (.workerStart s)) :
    Messages (w.step (.workerStart s)) := by
  rw [hinv.step_workerStart he]
  refine hw.of_served (fun _ ↦ id) (fun _ ↦ rfl) (fun _ ↦ id) fun t _ _ ht ↦ ?_
  by_cases hts : t = s
  · exact Or.inr (Or.inl (List.mem_append_right _ (List.mem_singleton.2 hts)))
  · rcases ht with h | h | h | h
    · exact Or.inl ((List.mem_erase_of_ne hts).2 h)
    · exact Or.inr (Or.inl (List.mem_append_left _ h))
    · exact Or.inr (Or.inr (Or.inl h))
    · exact Or.inr (Or.inr (Or.inr h))

theorem Messages.workerTurn (hw : Messages w) (hinv : Inv w) {ok : Bool} {lastRequest : Int}
    (he : w.enabled (.workerTurn s ok lastRequest)) :
    Messages (w.step (.workerTurn s ok lastRequest)) := by
  rw [step, UserServer.workerTurn]
  cases hunits : (w.clients.heap s).workunitsQueue with
  | nil => exact hw.leave (Or.inl hunits)
  | cons unit rest =>
    have hplaces : w.places s ≠ 0 := hinv.places_of_scheduled (Or.inr (Or.inr (Or.inl he)))
    have hs : w.clients.Registered s := (hinv.owned s hplaces).resolve_right fun h ↦ by
      rw [hw.inserts s h] at hunits
      cases hunits
    have htaken : ∀ f, Messages (w.modify s f) := fun f ↦
      hw.queued hinv hs (fun _ ↦ id) (fun _ ↦ id) (Or.inr (Or.inl he))
    cases ok with
    | true => exact htaken _
    | false =>
      refine (htaken fun c ↦ { c with workunitsQueue := rest, pendingDisconnect := true }).leave
        (Or.inr ?_)
      rw [clients_modify, Clients.heap_modify_self]

theorem Messages.workerPush (hw : Messages w) : Messages (w.step (.workerPush s)) := by
  refine hw.of_served (fun _ ↦ id) (fun _ ↦ rfl) (fun _ ↦ id) fun t _ _ ht ↦ ?_
  rcases ht with h | h | h | ⟨hmark, h⟩
  · exact Or.inl h
  · exact Or.inr (Or.inl h)
  · exact Or.inr (Or.inr (Or.inl h))
  · refine Or.inr (Or.inr (Or.inr ⟨hmark, ?_⟩))
    rcases h with h | h
    · by_cases hts : t = s
      · exact Or.inr (List.mem_append_right _ (List.mem_singleton.2 hts))
      · exact Or.inl ((List.mem_erase_of_ne hts).2 h)
    · exact Or.inr (List.mem_append_left _ h)

/-- A session in `mx_queue` that is not to be disconnected has nothing in its queue. -/
theorem Messages.empty_of_mem_mxQueue (hw : Messages w) (hinv : Inv w) (hs : s ∈ w.mxQueue)
    (hmark : (w.clients.heap s).pendingDisconnect ≠ true) (hreg : w.clients.Registered s) :
    (w.clients.heap s).workunitsQueue = [] := by
  by_contra hne
  have hpos := List.count_pos_iff.2 hs
  have honce := hinv.once s
  rw [places] at honce
  rcases hw.served s hreg hne with h | h | h | h
  · have := List.count_pos_iff.2 h
    omega
  · have := List.count_pos_iff.2 h
    omega
  · have hplaces := (hinv.waiting s (Or.inl hreg) h).2
    rw [places] at hplaces
    omega
  · exact hmark h.1

/-- A session that has nothing in its queue, or is registered no more, is taken out of
`mx_queue`. -/
theorem Messages.pop (hw : Messages w) {queue : List ClientId} (hqueue : w.mxQueue = s :: queue)
    (hs : w.clients.Registered s → (w.clients.heap s).workunitsQueue = []) :
    Messages { w with mxQueue := queue } := by
  refine hw.of_served (fun _ ↦ id) (fun _ ↦ rfl) (fun _ ↦ id) fun t ht hne hserved ↦ ?_
  have hts : t ≠ s := by
    rintro rfl
    exact hne (hs ht)
  rw [Served, hqueue] at hserved
  exact hserved.imp_right (Or.imp_right (Or.imp_right (And.imp_right (Or.imp_right
    (List.mem_of_ne_of_mem hts)))))

theorem Messages.injector (hw : Messages w) (hinv : Inv w) : Messages (w.step .injector) := by
  rw [step]
  cases hqueue : w.mxQueue with
  | nil => exact hw
  | cons s queue =>
    have hs : s ∈ w.mxQueue := hqueue ▸ List.mem_cons_self
    have hplaces : w.places s ≠ 0 :=
      hinv.places_of_scheduled (Or.inr (Or.inr (Or.inr (Or.inr (Or.inr (Or.inr hs))))))
    show Messages (ite _ _ _)
    split
    · rw [UserServer.delete]
      rcases hinv.owned s hplaces with hreg | hreg
      · dsimp only
        rw [hinv.sound.lookup hreg]
        dsimp only
        rw [hinv.sound.deleteClientBySocketExt_eq hreg]
        refine ((hw.unregister hinv hreg).pop hqueue fun h ↦ ?_).watch s false
        exact absurd rfl ((hinv.sound.registered_unregister hreg s).1 h).1
      · dsimp only
        rw [hinv.lookup_of_mem_inserts hreg]
        exact hw.pop hqueue fun h ↦ absurd h (hinv.not_registered_of_mem_inserts hreg)
    · rename_i hmark
      refine ((hw.pop hqueue ?_).modify (f := fun c ↦ { c with activated := true }) rfl rfl
        id).watch s true
      exact hw.empty_of_mem_mxQueue hinv hs hmark

theorem mem_writerQueue_warnSession (msg : Bytes) (s : ClientId) {fd : ℕ} (h : fd ∈ w.writerQueue) :
    fd ∈ (w.warnSession msg s).writerQueue := by
  rw [UserServer.warnSession]
  dsimp only
  split
  · exact List.mem_append_left _ h
  · exact h

/-- A session that is warned is attended to. -/
theorem served_warnSession (msg : Bytes)
    (h : (w.clients.heap s).activated = true ∨ w.Served s) : (w.warnSession msg s).Served s := by
  rw [Served, clients_warnSession, Clients.heap_modify_self]
  rcases h with hact | h | h | h | h
  · refine Or.inr (Or.inr (Or.inl ?_))
    rw [UserServer.warnSession]
    dsimp only
    rw [if_pos hact]
    exact List.mem_append_right _ List.mem_cons_self
  · exact Or.inl h
  · exact Or.inr (Or.inl h)
  · exact Or.inr (Or.inr (Or.inl (mem_writerQueue_warnSession msg s h)))
  · exact Or.inr (Or.inr (Or.inr h))

/-- `warn_clients`, one session. -/
theorem Messages.warnSession (hw : Messages w) (hinv : Inv w) (msg : Bytes)
    (hs : w.clients.Registered s)
    (hprompt : (w.clients.heap s).activated = true ∨ w.Served s) :
    Messages (w.warnSession msg s) :=
  hw.queued hinv hs (fun _ ↦ id) (fun _ ↦ mem_writerQueue_warnSession msg s)
    (served_warnSession msg hprompt)

/-- A session that is activated or attended to remains so. -/
theorem prompt_warnSession (msg : Bytes) (s : ClientId)
    (h : (w.clients.heap t).activated = true ∨ w.Served t) :
    ((w.warnSession msg s).clients.heap t).activated = true ∨ (w.warnSession msg s).Served t := by
  by_cases hts : t = s
  · rw [hts] at h ⊢
    exact Or.inr (served_warnSession msg h)
  · rw [Served, clients_warnSession, Clients.heap_modify_of_ne hts]
    rcases h with h | h | h | h | h
    · exact Or.inl h
    · exact Or.inr (Or.inl h)
    · exact Or.inr (Or.inr (Or.inl h))
    · exact Or.inr (Or.inr (Or.inr (Or.inl (mem_writerQueue_warnSession msg s h))))
    · exact Or.inr (Or.inr (Or.inr (Or.inr h)))

/-- `warn_clients`, some sessions. -/
theorem Messages.foldl_warnSession {msg : Bytes} {l : List ClientId} (hw : Messages w)
    (hinv : Inv w) (hl : ∀ s ∈ l, w.clients.Registered s ∧
      ((w.clients.heap s).activated = true → ¬w.Fresh s) ∧
      ((w.clients.heap s).activated = true ∨ w.Served s)) :
    Messages (l.foldl (UserServer.warnSession msg) w) := by
  induction l generalizing w with
  | nil => exact hw
  | cons s l ih =>
    obtain ⟨hs, hfresh, hprompt⟩ := hl s List.mem_cons_self
    refine ih (hw.warnSession hinv msg hs hprompt) (hinv.warnSession msg hs hfresh) fun t ht ↦ ?_
    obtain ⟨ht, hfresh, hprompt⟩ := hl t (List.mem_cons_of_mem _ ht)
    exact ⟨(registered_warnSession msg w s t).2 ht, fun h ↦ hfresh (activated_warnSession h),
      prompt_warnSession msg s hprompt⟩

/-- `kill_all_clients`, one entry. -/
theorem Messages.killClient (hw : Messages w) (hinv : Inv w) {e : ℕ × ClientId}
    (he : e ∈ w.clients.connHash) : Messages (w.killClient e) := by
  rw [UserServer.killClient, hinv.sound.killClient_eq he]
  cases (w.clients.heap e.2).activated with
  | false =>
    exact hw.modify (s := e.2) (f := fun c ↦ { c with pendingDisconnect := true }) rfl rfl
      fun _ ↦ rfl
  | true => exact (hw.unregister hinv (hinv.sound.registered_of_mem he)).watch e.2 false

/-- `kill_all_clients`, some entries. -/
theorem Messages.foldl_killClient {l : List (ℕ × ClientId)} (hl : (l.map Prod.fst).Nodup)
    (hw : Messages w) (hinv : Inv w) (hmem : ∀ e ∈ l, e ∈ w.clients.connHash ∧
      ((w.clients.heap e.2).activated = true → ¬w.Fresh e.2)) :
    Messages (l.foldl (fun w e ↦ w.killClient e) w) := by
  induction l generalizing w with
  | nil => exact hw
  | cons e l ih =>
    obtain ⟨hnot, hl⟩ := List.nodup_cons.1 hl
    obtain ⟨he, hfresh⟩ := hmem e List.mem_cons_self
    refine ih hl (hw.killClient hinv he) (hinv.killClient he hfresh) fun e' he' ↦ ?_
    refine hinv.killClient_of_ne he (hmem e' (List.mem_cons_of_mem _ he')) fun hkey ↦ hnot ?_
    exact hkey ▸ List.mem_map_of_mem he'

/-- Marks are only set. -/
theorem Messages.marked (hw : Messages w) {clients : Clients}
    (h : Clients.Marked w.clients clients) : Messages { w with clients := clients } := by
  obtain ⟨heap, rfl, hmark⟩ := h
  refine hw.of_heap (fun t ↦ ?_) (fun t ↦ ?_) fun t ht ↦ ?_
  all_goals obtain ⟨b, hset, hb⟩ := hmark t
  · rw [hb]
  · rw [hb]
  · rw [hb]
    exact hset ht

/-- **Every prompt step keeps the messages attended to.** -/
theorem messages_step {e : UserEvent} (hw : Messages w) (hinv : Inv w) (he : w.enabled e)
    (hok : w.Prompt e) : Messages (w.step e) := by
  cases e with
  | connectOk push s c => exact hw.connectOk he
  | activate s => exact hw.activate
  | connectPush s => exact hw.connectPush
  | insert => exact hw.insert hinv
  | activity fd revents => exact hw.activity hinv he
  | writer => exact hw.writer hinv
  | workerStart s => exact hw.workerStart hinv he
  | workerTurn s ok lastRequest => exact hw.workerTurn hinv he
  | workerPush s => exact hw.workerPush
  | workerUnlock s => exact ⟨hw.inserts, hw.served⟩
  | workerSignal s => exact ⟨hw.inserts, hw.served⟩
  | injector => exact hw.injector hinv
  | warnClients addr check msg =>
    refine hw.foldl_warnSession hinv fun s hs ↦ ?_
    exact ⟨(hinv.agree.only addr s (List.mem_filter.1 hs).1).2, hok.1 s hs, hok.2 s hs⟩
  | killExpiredClientsSession now trylock =>
    exact hw.marked (Clients.marked_killExpiredClientsSession hok)
  | killAllClients =>
    exact hw.foldl_killClient hinv.sound.keys hinv fun e he ↦ ⟨he, hok e he⟩

end UserServer

open UserServer in
/-- **No message to a client is left behind**, in a run of prompt steps: whenever everything has
come to rest, the `workunits_queue` of every registered session is empty. -/
theorem no_message_left {w : UserServer} (hw : userServer.Reach Prompt w) (hrest : w.Quiescent)
    (s : ClientId) (hs : w.clients.Registered s) :
    (w.clients.heap s).workunitsQueue = [] := by
  have hinv : Inv w ∧ Messages w := by
    refine hw.invariant (I := fun w ↦ Inv w ∧ Messages w) ?_ fun w e hw he hok ↦
      ⟨inv_step hw.1 he hok.orderly, messages_step hw.2 hw.1 he hok⟩
    rintro w ⟨heap, rfl⟩
    exact ⟨inv_start heap, messages_start heap⟩
  obtain ⟨hwriter, hmx, hpool, hdraining, hleaving, -, -⟩ := hrest
  by_contra hne
  have hserved := hinv.2.served s hs hne
  rw [Served, hwriter, hmx, hpool, hdraining, hleaving] at hserved
  simp at hserved

/-- A client that is listened to is warned, and a worker sends the message. -/
def warnedRun : List UserEvent :=
  [.connectOk false 0 (.sample 5), .activate 0, .connectPush 0, .injector,
    .warnClients Tracking.sample.saddr (fun _ ↦ true) [1], .writer, .workerStart 0,
    .workerTurn 0 true 0, .workerTurn 0 true 0, .workerPush 0, .workerUnlock 0, .workerSignal 0,
    .injector]

theorem warnedRun_path : userServer.Path UserServer.Prompt
    (UserServer.start fun _ ↦ .sample 0) warnedRun := by
  refine ⟨⟨⟨rfl, rfl, rfl, rfl⟩, List.not_mem_nil, fun _ h ↦ absurd h List.not_mem_nil,
    fun _ h ↦ absurd h List.not_mem_nil⟩, List.not_mem_nil, List.mem_cons_self, trivial,
    List.mem_cons_self, trivial, List.cons_ne_nil _ _, ?_, trivial, ⟨?_, ?_⟩,
    List.cons_ne_nil _ _, trivial, List.mem_cons_self, trivial, List.mem_cons_self, trivial,
    List.mem_cons_self, trivial, List.mem_cons_self, trivial, List.mem_cons_self, trivial,
    List.mem_cons_self, trivial, List.cons_ne_nil _ _, ?_, trivial⟩
  · rintro s -
    exact ⟨List.not_mem_nil, List.not_mem_nil⟩
  · rintro s - -
    exact fun h ↦ h.elim List.not_mem_nil List.not_mem_nil
  · rintro s hs
    rw [List.mem_singleton.1 hs]
    exact Or.inl rfl
  · rintro s -
    exact ⟨List.not_mem_nil, List.not_mem_nil⟩

/-- It has been sent. -/
theorem warnedRun_sent :
    let w := userServer.run (UserServer.start fun _ ↦ .sample 0) warnedRun
    w.clients.Registered 0 ∧ (w.clients.heap 0).workunitsQueue = [] := by
  intro w
  have hreach := userServer.reach_run ⟨_, rfl⟩ _ warnedRun_path
  have hreg : w.clients.Registered 0 := by decide
  exact ⟨hreg, no_message_left hreach (by decide) 0 hreg⟩

/-- **A message is left behind**: it comes when the worker has found the queue empty, and has not
put the session back yet. The session is registered and listened to, and everything is at rest. -/
theorem late_message_left :
    ∃ w, userServer.Reachable w ∧ w.Quiescent ∧ w.clients.Registered 0 ∧
      (w.clients.heap 0).pendingDisconnect = false ∧ (w.clients.heap 0).destroyed = false ∧
      (w.clients.heap 0).workunitsQueue = [.message [1]] := by
  refine ⟨_, userServer.reach_run (s := UserServer.start fun _ ↦ .sample 0) ⟨_, rfl⟩
    [.connectOk false 0 (.sample 5), .activate 0, .connectPush 0, .injector, .activity 5 .read,
      .workerStart 0, .workerTurn 0 true 0, .workerTurn 0 true 0,
      .warnClients Tracking.sample.saddr (fun _ ↦ true) [1], .workerPush 0, .workerUnlock 0,
      .workerSignal 0, .injector] ?_,
    by decide, by decide, by decide, by decide, by decide⟩
  refine ⟨⟨⟨rfl, rfl, rfl, rfl⟩, List.not_mem_nil, fun _ h ↦ absurd h List.not_mem_nil,
    fun _ h ↦ absurd h List.not_mem_nil⟩, trivial, List.mem_cons_self, trivial,
    List.mem_cons_self, trivial, List.cons_ne_nil _ _, trivial, ?_, trivial, List.mem_cons_self,
    trivial, List.mem_cons_self, trivial, List.mem_cons_self, trivial, trivial, trivial,
    List.mem_cons_self, trivial, List.mem_cons_self, trivial, List.mem_cons_self, trivial,
    List.cons_ne_nil _ _, trivial, trivial⟩
  rintro s hs
  rw [← Option.some.inj hs]
  rfl

end Nufw
