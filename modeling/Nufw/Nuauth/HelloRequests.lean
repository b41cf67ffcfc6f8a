import Nufw.Nuauth.Accounting
import Nufw.Nuauth.LocalidAuth

/-!
# What becomes of a request of the hello mode

A request of the hello mode is somewhere: in the queue of `localid_auth`, in its table, with the ACL
checkers or with the workers that answer. It leaves the last of these places by
`send_auth_response`, which answers its packet and takes one user off its session.

In the table it can also get lost. This happens in four places, and nowhere else
(`hello_request_kept`):

* nobody is connected at the source address when the clients are to be warned;
* a client at another address answers the hello: the entry is taken out all the same, and nothing
  holds the request any more;
* a refresh finds the request old, and `get_old_conn` makes the table free it;
* the thread ends, and destroys the table.

None of them answers, whereas `clean_connections_list` answers what it takes out of the main hash.

A forged answer always has this effect (`spoofed_answer_cancels`).
-/

namespace Nufw

/-! ### The usage of a session that answers -/

theorem NufwSession.usage_release (s : NufwSession) : s.release.usage = s.usage - 1 := by
  rw [NufwSession.release]
  split
  · rfl
  · rfl

theorem NufwSession.usage_declareDead (s : NufwSession) : s.declareDead.usage = s.usage - 1 := by
  rw [NufwSession.declareDead]
  split
  · rfl
  · rfl

/-- A function that takes one user off a session. -/
theorem usage_modify {f : NufwSession → NufwSession} (hf : ∀ s, (f s).usage = s.usage - 1)
    (h : Sessions) (session : Option SessionId) (s : SessionId) :
    (h.modify session f s).usage = (h s).usage - if session = some s then 1 else 0 := by
  by_cases hs : session = some s
  · rw [hs, if_pos rfl, Sessions.modify_self, hf]
  · rw [if_neg hs, Sessions.modify_of_ne h hs, Int.sub_zero]

/-- An answer takes one user off the session. -/
theorem usage_sendAuthResponse (host : Host) (element : Connection)
    (hv : KnownVersion element.nufwVersion) (h : Sessions) (p : PacketId) (s : SessionId) :
    ((sendAuthResponse host h element p).1 s).usage =
      (h s).usage - if element.tls = some s then 1 else 0 := by
  obtain ⟨message, hmessage⟩ := Option.isSome_iff_exists.1 (authResponse_isSome host hv p.id)
  rw [sendAuthResponse, hmessage]
  dsimp only
  split
  · exact usage_modify NufwSession.usage_release h _ s
  · exact usage_modify NufwSession.usage_declareDead h _ s

theorem usage_sendAuthResponses (host : Host) (element : Connection)
    (hv : KnownVersion element.nufwVersion) (ps : List PacketId) (h : Sessions) (s : SessionId) :
    ((sendAuthResponses host element ps h).1 s).usage =
      (h s).usage - if element.tls = some s then ps.length else 0 := by
  induction ps generalizing h with
  | nil => simp [sendAuthResponses]
  | cons p ps ih =>
    rw [sendAuthResponses]
    dsimp only
    rw [ih, usage_sendAuthResponse host element hv, List.length_cons]
    split
    · omega
    · omega

/-- `apply_decision` takes one user off the session for each identifier. -/
theorem usage_applyDecision (conf : Params) (host : Host) (log : Logger) {element : Connection}
    (hs : element.state ≠ .userpckt) (hv : KnownVersion element.nufwVersion) (w : World)
    (s : SessionId) :
    ((w.applyDecision conf host log element).sessions s).usage =
      (w.sessions s).usage - if element.tls = some s then element.packetId.length else 0 := by
  unfold World.applyDecision Nufw.applyDecision
  rw [if_neg hs]
  dsimp only
  generalize logUserPacket conf log element _ = ret
  split
  · exact usage_sendAuthResponses host { element with decision := .drop } hv _ _ s
  · exact usage_sendAuthResponses host element hv _ _ s

/-! ### Where the requests are -/

/-- A request whose hello has been answered. -/
structure HelloAuthenticated (c : Connection) : Prop where
  state : c.state = .hellomode
  version : KnownVersion c.nufwVersion

/-- What a request counts for: the answer of a client is no request. -/
def weigh (g : List PacketId → Option SessionId → ℕ) (c : Connection) : ℕ :=
  if c.state = .userpckt then 0 else g c.packetId c.tls

theorem weigh_of_ne {g : List PacketId → Option SessionId → ℕ} {c : Connection}
    (h : c.state ≠ .userpckt) : weigh g c = g c.packetId c.tls := if_neg h

theorem weigh_of_answer {g : List PacketId → Option SessionId → ℕ} {c : Connection}
    (h : HelloAnswer c) : weigh g c = 0 := if_pos h.state

theorem HelloRequest.ne {c : Connection} (h : HelloRequest c) : c.state ≠ .userpckt := by
  rw [h.state]
  decide

theorem HelloAuthenticated.ne {c : Connection} (h : HelloAuthenticated c) :
    c.state ≠ .userpckt := by
  rw [h.state]
  decide

namespace LocalidWorld

/-- What the requests count for together, wherever they are. -/
def held (g : List PacketId → Option SessionId → ℕ) (w : LocalidWorld) : ℕ :=
  total (weigh g) w.core.localidAuthQueue + total (weigh g) (w.table.map Prod.snd) +
    total (weigh g) w.core.aclCheckers + total (weigh g) w.core.decisionsWorkers

/-- How often a packet waits for its answer. -/
def pending (w : LocalidWorld) (p : PacketId) : ℕ := w.held fun ps _ ↦ ps.count p

/-- How many packets of a session wait for their answer. -/
def pendingOn (w : LocalidWorld) (s : SessionId) : ℕ :=
  w.held fun ps tls ↦ if tls = some s then ps.length else 0

/-- **The step does not take the branches in which a request gets lost.** -/
def Kept (conf : Params) (w : LocalidWorld) : LocalidEvent → Prop
  | .insertMessage _ _ clients _ _ =>
    ∀ pckt ∈ w.core.localidAuthQueue.head?,
      (pckt.state = .authreq → clients pckt.tracking.saddr = true) ∧
      (pckt.state = .userpckt → ∀ helloid ∈ pckt.packetId.head?, ∀ element ∈ w.lookup helloid.id,
        element.tracking.saddr = pckt.tracking.saddr)
  | .refresh now => ∀ e ∈ w.table, getOldConn conf now e.2 = false
  | .stop => w.table = []
  | _ => True

/-- What is in the queues and in the table. -/
structure Shape (w : LocalidWorld) : Prop where
  queue : ∀ c ∈ w.core.localidAuthQueue, HelloRequest c ∨ HelloAnswer c ∨ HelloAuthenticated c
  table : ∀ e ∈ w.table, HelloRequest e.2
  checkers : ∀ c ∈ w.core.aclCheckers, HelloAuthenticated c
  workers : ∀ c ∈ w.core.decisionsWorkers, HelloAuthenticated c

/-- A connection has been taken out of its place, and nothing else has happened. -/
structure Taken (w w₀ : LocalidWorld) (c : Connection) : Prop where
  held : ∀ g, w.held g = w₀.held g + weigh g c
  sessions : w₀.core.sessions = w.core.sessions
  answers : w₀.core.answers = w.core.answers
  received : w₀.core.received = w.core.received
  others : w₀.others = w.others

/-- Requests have moved from one place to another, and nothing else has happened. -/
structure Moved (w w' : LocalidWorld) : Prop where
  held : ∀ g, w'.held g = w.held g
  sessions : w'.core.sessions = w.core.sessions
  answers : w'.core.answers = w.core.answers
  received : w'.core.received = w.core.received
  others : w'.others = w.others

/-- A request has been answered. -/
structure Answered (w w' : LocalidWorld) (element : Connection) : Prop where
  held : ∀ g, w.held g = w'.held g + g element.packetId element.tls
  usage : ∀ s, (w'.core.sessions s).usage =
    (w.core.sessions s).usage - if element.tls = some s then element.packetId.length else 0
  answers : ∃ answers, w'.core.answers = w.core.answers ++ answers ∧
    answers.map Answer.packetId = element.packetId
  received : w'.core.received = w.core.received
  others : w'.others = w.others

variable {w w₀ w' : LocalidWorld} {c element : Connection}

theorem taken_queue {queue : List Connection} (h : w.core.localidAuthQueue = c :: queue) :
    Taken w { w with core := { w.core with localidAuthQueue := queue } } c := by
  refine ⟨fun g ↦ ?_, rfl, rfl, rfl, rfl⟩
  simp only [held, h, total_cons]
  omega

theorem taken_checkers {i : ℕ} (h : w.core.aclCheckers[i]? = some c) :
    Taken w { w with core := { w.core with aclCheckers := w.core.aclCheckers.eraseIdx i } } c := by
  obtain ⟨l₁, l₂, hl, hi⟩ := exists_split_of_getElem? h
  refine ⟨fun g ↦ ?_, rfl, rfl, rfl, rfl⟩
  simp only [held, hi, total_split hl]
  omega

theorem taken_workers {i : ℕ} (h : w.core.decisionsWorkers[i]? = some c) :
    Taken w { w with core :=
      { w.core with decisionsWorkers := w.core.decisionsWorkers.eraseIdx i } } c := by
  obtain ⟨l₁, l₂, hl, hi⟩ := exists_split_of_getElem? h
  refine ⟨fun g ↦ ?_, rfl, rfl, rfl, rfl⟩
  simp only [held, hi, total_split hl]
  omega

theorem taken_table {id : UInt32} (h : w.lookup id = some c) : Taken w (w.steal id) c := by
  obtain ⟨⟨id', c'⟩, hfind, rfl⟩ := Option.map_eq_some_iff.1 h
  obtain ⟨l₁, l₂, hl, hid, hnot⟩ := exists_split_of_find? hfind
  refine ⟨fun g ↦ ?_, rfl, rfl, rfl, rfl⟩
  simp only [held, steal, hl, eraseP_split hnot hid, List.map_append, List.map_cons, total_append,
    total_cons]
  omega

theorem Taken.trans {c' : Connection} (h : Taken w w₀ c) (h' : Taken w₀ w' c')
    (hc : ∀ g, weigh g c = 0) : Taken w w' c' := by
  refine ⟨fun g ↦ ?_, h'.sessions.trans h.sessions, h'.answers.trans h.answers,
    h'.received.trans h.received, h'.others.trans h.others⟩
  rw [h.held, h'.held, hc]
  omega

/-- A connection that is no request goes. -/
theorem Taken.moved (h : Taken w w₀ c) (hc : ∀ g, weigh g c = 0) : Moved w w₀ := by
  refine ⟨fun g ↦ ?_, h.sessions, h.answers, h.received, h.others⟩
  rw [h.held, hc]
  rfl

/-- A connection is put into the table. -/
theorem Taken.table (h : Taken w w₀ c) (id : UInt32) :
    Moved w { w₀ with table := (id, c) :: w₀.table } := by
  refine ⟨fun g ↦ ?_, h.sessions, h.answers, h.received, h.others⟩
  rw [h.held]
  simp only [LocalidWorld.held, List.map_cons, total_cons]
  omega

/-- A connection goes to the ACL checkers. -/
theorem Taken.checkers (h : Taken w w₀ c) {c' : Connection} (hc : ∀ g, weigh g c' = weigh g c) :
    Moved w { w₀ with core := { w₀.core with aclCheckers := w₀.core.aclCheckers ++ [c'] } } := by
  refine ⟨fun g ↦ ?_, h.sessions, h.answers, h.received, h.others⟩
  rw [h.held]
  simp only [LocalidWorld.held, total_append, total_cons, total_nil, hc]
  omega

/-- A connection goes to the queue. -/
theorem Taken.queue (h : Taken w w₀ c) {c' : Connection} (hc : ∀ g, weigh g c' = weigh g c) :
    Moved w { w₀ with core :=
      { w₀.core with localidAuthQueue := w₀.core.localidAuthQueue ++ [c'] } } := by
  refine ⟨fun g ↦ ?_, h.sessions, h.answers, h.received, h.others⟩
  rw [h.held]
  simp only [LocalidWorld.held, total_append, total_cons, total_nil, hc]
  omega

/-- A connection goes to the workers that answer. -/
theorem Taken.workers (h : Taken w w₀ c) {c' : Connection} (hc : ∀ g, weigh g c' = weigh g c) :
    Moved w { w₀ with core :=
      { w₀.core with decisionsWorkers := w₀.core.decisionsWorkers ++ [c'] } } := by
  refine ⟨fun g ↦ ?_, h.sessions, h.answers, h.received, h.others⟩
  rw [h.held]
  simp only [LocalidWorld.held, total_append, total_cons, total_nil, hc]
  omega

/-- **A connection is answered.** -/
theorem Taken.answered (h : Taken w w₀ c) (hc : ∀ g, weigh g element = weigh g c)
    (he : HelloAuthenticated element) (conf : Params) (host : Host) (log : Logger) :
    Answered w { w₀ with core := w₀.core.applyDecision conf host log element } element := by
  obtain ⟨sessions, answers, happly, hanswers, -⟩ :=
    World.applyDecision_eq conf host log he.ne he.version w₀.core
  refine ⟨fun g ↦ ?_, fun s ↦ ?_, ⟨answers, ?_, hanswers⟩, ?_, h.others⟩
  · rw [h.held, ← hc, weigh_of_ne he.ne, happly]
    rfl
  · show ((w₀.core.applyDecision conf host log element).sessions s).usage = _
    rw [usage_applyDecision conf host log he.ne he.version, h.sessions]
  · rw [happly, ← h.answers]
  · rw [happly, ← h.received]

/-! ### The books -/

/-- **Every request received is pending or answered, once**, and the usage of a session counts the
requests that are pending on it. -/
structure Books (w : LocalidWorld) : Prop where
  shape : Shape w
  received : w.core.received.Nodup
  once : ∀ p, w.pending p + (w.core.answers.map Answer.packetId).count p = w.core.received.count p
  usage : ∀ s, (w.core.sessions s).usage = w.others s + w.pendingOn s

theorem Moved.books (h : Moved w w') (hs : Shape w') (hw : Books w) : Books w' where
  shape := hs
  received := by rw [h.received]; exact hw.received
  once p := by rw [pending, h.held, h.answers, h.received]; exact hw.once p
  usage s := by rw [pendingOn, h.held, h.sessions, h.others]; exact hw.usage s

theorem Answered.books (h : Answered w w' element) (hs : Shape w') (hw : Books w) : Books w' := by
  obtain ⟨answers, hanswers, hids⟩ := h.answers
  refine ⟨hs, ?_, fun p ↦ ?_, fun s ↦ ?_⟩
  · rw [h.received]
    exact hw.received
  · have hheld := h.held fun ps _ ↦ ps.count p
    have honce := hw.once p
    rw [pending] at honce ⊢
    rw [hanswers, h.received, List.map_append, List.count_append, hids]
    omega
  · have hheld := h.held fun ps tls ↦ if tls = some s then ps.length else 0
    have husage := hw.usage s
    rw [pendingOn] at husage ⊢
    rw [h.usage, h.others, husage, hheld]
    split
    · push_cast
      omega
    · push_cast
      omega

theorem books_start (h : Sessions) : Books (start h) where
  shape :=
    ⟨fun _ hc ↦ absurd hc List.not_mem_nil, fun _ he ↦ absurd he List.not_mem_nil,
      fun _ hc ↦ absurd hc List.not_mem_nil, fun _ hc ↦ absurd hc List.not_mem_nil⟩
  received := List.nodup_nil
  once _ := rfl
  usage _ := (Int.add_zero _).symm

/-- `take_decision` on a connection that is in no hash. -/
theorem takeDecision_alone (conf : Params) (host : Host) (log : Logger) (now : Int)
    (element : Connection) (w : World) :
    w.takeDecision conf host log now .alone element =
        { w with decisionsWorkers := w.decisionsWorkers ++ [decidedElement conf now element] } ∨
      w.takeDecision conf host log now .alone element =
        w.applyDecision conf host log (decidedElement conf now element) := by
  rw [World.takeDecision]
  dsimp only
  split
  · exact Or.inl rfl
  · exact Or.inr rfl

theorem helloAuthenticated_decidedElement (conf : Params) (now : Int)
    (h : HelloAuthenticated c) : HelloAuthenticated (decidedElement conf now c) := by
  obtain ⟨-, -, hstate, -, hversion⟩ := decidedElement_request conf now c
  exact ⟨hstate.trans h.state, by rw [hversion]; exact h.version⟩

theorem weigh_decidedElement (conf : Params) (now : Int)
    (g : List PacketId → Option SessionId → ℕ) :
    weigh g (decidedElement conf now c) = weigh g c := by
  obtain ⟨hid, -, hstate, htls, -⟩ := decidedElement_request conf now c
  rw [weigh, weigh, hid, hstate, htls]

theorem helloAuthenticated_helloElement {pckt : Connection} (h : HelloRequest element) :
    HelloAuthenticated (helloElement pckt element) := ⟨rfl, h.version⟩

theorem weigh_helloElement {pckt : Connection} (h : HelloRequest element)
    (g : List PacketId → Option SessionId → ℕ) :
    weigh g (helloElement pckt element) = weigh g element := by
  rw [weigh_of_ne (helloAuthenticated_helloElement h).ne, weigh_of_ne h.ne]
  rfl

theorem steal_subset (w : LocalidWorld) (id : UInt32) :
    ∀ e ∈ (w.steal id).table, e ∈ w.table := fun _ he ↦ List.mem_of_mem_eraseP he

theorem mem_table_of_lookup {id : UInt32} (h : w.lookup id = some c) : (id, c) ∈ w.table := by
  obtain ⟨⟨id', c'⟩, hfind, rfl⟩ := Option.map_eq_some_iff.1 h
  obtain rfl : id' = id := by simpa using List.find?_some hfind
  exact List.mem_of_find?_eq_some hfind

/-! ### The steps -/

section

variable (conf : Params) (host : Host) {queue : List Connection}

/-- A message is taken out of the queue. -/
theorem Shape.dequeue (hw : Shape w) (hq : w.core.localidAuthQueue = c :: queue) :
    Shape { w with core := { w.core with localidAuthQueue := queue } } where
  queue c' hc' := hw.queue c' (hq ▸ List.mem_cons_of_mem _ hc')
  table := hw.table
  checkers := hw.checkers
  workers := hw.workers

theorem Shape.answered (hw : Shape w) (log : Logger) (he : HelloAuthenticated element) :
    Shape { w with core := w.core.applyDecision conf host log element } := by
  obtain ⟨sessions, answers, happly, -, -⟩ :=
    World.applyDecision_eq conf host log he.ne he.version w.core
  rw [happly]
  exact ⟨hw.queue, hw.table, hw.checkers, hw.workers⟩

/-- The thread takes a request: the clients at its address are warned. -/
theorem books_request {id : UInt32} (hw : Books w) (hq : w.core.localidAuthQueue = c :: queue)
    (hc : HelloRequest c) :
    Books { w with
      core := { w.core with localidAuthQueue := queue }, table := (id, c) :: w.table } := by
  have hshape := hw.shape.dequeue hq
  refine ((taken_queue hq).table id).books ⟨hshape.queue, fun e he ↦ ?_, hshape.checkers,
    hshape.workers⟩ hw
  rcases List.mem_cons.1 he with rfl | he
  · exact hc
  · exact hw.shape.table e he

/-- The thread takes an answer that no request waits for. -/
theorem books_unknown (hw : Books w) (hq : w.core.localidAuthQueue = c :: queue)
    (hc : HelloAnswer c) :
    Books { w with core := { w.core with localidAuthQueue := queue } } :=
  ((taken_queue hq).moved fun _ ↦ weigh_of_answer hc).books (hw.shape.dequeue hq) hw

/-- The thread takes an answer: its request gets an identity, and leaves for the ACL checkers. -/
theorem books_answer {id : UInt32} (hw : Books w) (hq : w.core.localidAuthQueue = c :: queue)
    (hc : HelloAnswer c) (hfind : w.lookup id = some element) :
    Books (steal { w with core := { w.core with
      localidAuthQueue := queue
      aclCheckers := w.core.aclCheckers ++ [helloElement c element] } } id) := by
  have helement := hw.shape.table _ (mem_table_of_lookup hfind)
  have hshape := hw.shape.dequeue hq
  have htaken : Taken w (steal { w with core := { w.core with localidAuthQueue := queue } } id)
      element :=
    (taken_queue hq).trans (taken_table hfind) fun _ ↦ weigh_of_answer hc
  refine (htaken.checkers (weigh_helloElement helement)).books ⟨hshape.queue, fun e he ↦ ?_,
    fun c' hc' ↦ ?_, hshape.workers⟩ hw
  · exact hw.shape.table e (steal_subset w id e he)
  · rcases List.mem_append.1 hc' with hc' | hc'
    · exact hw.shape.checkers c' hc'
    · rw [List.mem_singleton.1 hc']
      exact helloAuthenticated_helloElement helement

/-- The thread takes a request with its ACLs: it is decided on. -/
theorem books_hellomode (log : Logger) (now : Int) (hw : Books w)
    (hq : w.core.localidAuthQueue = c :: queue) (hc : HelloAuthenticated c) :
    Books { w with core := (World.takeDecision conf host log now .alone c
      { w.core with localidAuthQueue := queue }) } := by
  have hshape := hw.shape.dequeue hq
  have hdecided := helloAuthenticated_decidedElement conf now hc
  rcases takeDecision_alone conf host log now c { w.core with localidAuthQueue := queue } with
    h | h
  · rw [h]
    refine ((taken_queue hq).workers (weigh_decidedElement conf now)).books ⟨hshape.queue,
      hshape.table, hshape.checkers, fun c' hc' ↦ ?_⟩ hw
    rcases List.mem_append.1 hc' with hc' | hc'
    · exact hw.shape.workers c' hc'
    · rw [List.mem_singleton.1 hc']
      exact hdecided
  · rw [h]
    exact ((taken_queue hq).answered (weigh_decidedElement conf now) hdecided conf host log).books
      (hshape.answered conf host log hdecided) hw

/-- The ACL checkers send a request back. -/
theorem books_aclCheckAndDecide {i : ℕ} (hello : conf.helloAuthentication = true)
    (acls : List (Option AclGroup)) (hw : Books w) (hi : w.core.aclCheckers[i]? = some c) :
    Books { w with core := (World.aclCheckAndDecide conf acls c
      { w.core with aclCheckers := w.core.aclCheckers.eraseIdx i }) } := by
  have hc := hw.shape.checkers c (List.mem_of_getElem? hi)
  have hne : c.state ≠ .completing := by
    rw [hc.state]
    decide
  rw [World.aclCheckAndDecide, if_neg hne, if_pos ⟨hello, hc.state⟩]
  have hweigh : ∀ g, weigh g { c with aclGroups := acls } = weigh g c := fun _ ↦ rfl
  refine ((taken_checkers hi).queue hweigh).books
    ⟨fun c' hc' ↦ ?_, hw.shape.table, fun c' hc' ↦ ?_, hw.shape.workers⟩ hw
  · rcases List.mem_append.1 hc' with hc' | hc'
    · exact hw.shape.queue c' hc'
    · rw [List.mem_singleton.1 hc']
      exact Or.inr (Or.inr ⟨hc.state, hc.version⟩)
  · exact hw.shape.checkers c' (List.mem_of_mem_eraseIdx hc')

/-- A worker answers. -/
theorem books_decisionsQueueWork {i : ℕ} (log : Logger) (hw : Books w)
    (hi : w.core.decisionsWorkers[i]? = some c) :
    Books { w with core := (World.decisionsQueueWork conf host log c
      { w.core with decisionsWorkers := w.core.decisionsWorkers.eraseIdx i }) } := by
  have hc := hw.shape.workers c (List.mem_of_getElem? hi)
  have hshape : Shape { w with core :=
      { w.core with decisionsWorkers := w.core.decisionsWorkers.eraseIdx i } } :=
    ⟨hw.shape.queue, hw.shape.table, hw.shape.checkers,
      fun c' hc' ↦ hw.shape.workers c' (List.mem_of_mem_eraseIdx hc')⟩
  exact ((taken_workers hi).answered (fun _ ↦ rfl) hc conf host log).books
    (hshape.answered conf host log hc) hw

/-- A request arrives: it is a new user of its session. -/
theorem books_pushAuthreq (hw : Books w) (hc : HelloRequest c)
    (hnew : ∀ p ∈ c.packetId, p ∉ w.core.received) :
    Books (w.step conf host (.pushAuthreq c)) := by
  obtain ⟨p, hp⟩ := hc.packetId
  have hheld : ∀ g, (w.step conf host (.pushAuthreq c)).held g =
      w.held g + g c.packetId c.tls := by
    intro g
    simp only [held, step, total_append, total_cons, total_nil, weigh_of_ne hc.ne]
    omega
  refine ⟨⟨fun c' hc' ↦ ?_, hw.shape.table, hw.shape.checkers, hw.shape.workers⟩, ?_,
    fun q ↦ ?_, fun s ↦ ?_⟩
  · rcases List.mem_append.1 hc' with hc' | hc'
    · exact hw.shape.queue c' hc'
    · rw [List.mem_singleton.1 hc']
      exact Or.inl hc
  · show (c.packetId ++ w.core.received).Nodup
    rw [hp]
    exact List.nodup_cons.2 ⟨hnew p (by simp [hp]), hw.received⟩
  · have honce := hw.once q
    show _ + (w.core.answers.map Answer.packetId).count q = (c.packetId ++ w.core.received).count q
    rw [pending] at honce ⊢
    rw [hheld, List.count_append]
    omega
  · have husage := hw.usage s
    rw [pendingOn] at husage ⊢
    rw [hheld, hp]
    show (increaseNufwSessionUsage w.core.sessions c.tls s).usage = w.others s + _
    rw [increaseNufwSessionUsage]
    by_cases hs : c.tls = some s
    · rw [hs, Sessions.modify_self, if_pos rfl]
      show (w.core.sessions s).usage + 1 = _
      rw [husage]
      push_cast
      simp
      omega
    · rw [Sessions.modify_of_ne _ hs, if_neg hs, husage]
      simp

end

/-- A message, if none of the branches that lose a request is taken. -/
theorem books_insertMessage (conf : Params) (host : Host) (log : Logger) (now : Int)
    (clients : In6Addr → Bool) (random : UInt32) (fuel : ℕ) (hw : Books w)
    (hkept : Kept conf w (.insertMessage log now clients random fuel)) :
    Books (w.step conf host (.insertMessage log now clients random fuel)) := by
  rw [step]
  cases hq : w.core.localidAuthQueue with
  | nil => exact hw
  | cons pckt queue =>
    obtain ⟨hclients, hanswer⟩ := hkept pckt (by rw [hq]; rfl)
    dsimp only
    rw [insertMessage]
    rcases hw.shape.queue pckt (by rw [hq]; exact List.mem_cons_self) with hc | hc | hc
    · rw [hc.state]
      dsimp only
      rw [if_pos (hclients hc.state)]
      exact books_request hw hq hc
    · obtain ⟨helloid, hid⟩ := hc.packetId
      rw [hc.state, hid]
      dsimp only
      have hlookup : ({ w with core := { w.core with localidAuthQueue := queue } }
          : LocalidWorld).lookup helloid.id = w.lookup helloid.id := rfl
      rw [hlookup]
      cases hfind : w.lookup helloid.id with
      | none => exact books_unknown hw hq hc
      | some element =>
        dsimp only
        rw [if_pos (ipv6Equal_iff.2 (hanswer hc.state helloid (by rw [hid]; rfl) element hfind))]
        exact books_answer hw hq hc hfind
    · rw [hc.state]
      exact books_hellomode conf host log now hw hq hc

/-- **Every step that takes none of the branches that lose a request keeps the books.** -/
theorem books_step {conf : Params} (hello : conf.helloAuthentication = true) (host : Host)
    {e : LocalidEvent} (hw : Books w) (he : w.enabled e) (hkept : Kept conf w e) :
    Books (w.step conf host e) := by
  cases e with
  | pushAuthreq conn => exact books_pushAuthreq conf host hw he.1 he.2
  | pushUserpckt conn =>
    have hmoved : Moved w (w.step conf host (.pushUserpckt conn)) := by
      refine ⟨fun g ↦ ?_, rfl, rfl, rfl, rfl⟩
      simp only [held, step, total_append, total_cons, total_nil, weigh_of_answer he]
      omega
    refine hmoved.books ⟨fun c hc ↦ ?_, hw.shape.table, hw.shape.checkers, hw.shape.workers⟩ hw
    rcases List.mem_append.1 hc with hc | hc
    · exact hw.shape.queue c hc
    · rw [List.mem_singleton.1 hc]
      exact Or.inr (Or.inl he)
  | insertMessage log now clients random fuel =>
    exact books_insertMessage conf host log now clients random fuel hw hkept
  | refresh now =>
    have htable : w.refresh conf now = w := by
      rw [refresh, List.filter_eq_self.2 fun e he ↦ by rw [hkept e he]; rfl]
    rw [step, htable]
    exact hw
  | aclCheckAndDecide i acls =>
    rw [step]
    cases hi : w.core.aclCheckers[i]? with
    | none => exact hw
    | some element => exact books_aclCheckAndDecide conf hello acls hw hi
  | decisionsQueueWork i log =>
    rw [step]
    cases hi : w.core.decisionsWorkers[i]? with
    | none => exact hw
    | some element => exact books_decisionsQueueWork conf host log hw hi
  | stop =>
    have hmoved : Moved w (w.step conf host .stop) := by
      refine ⟨fun g ↦ ?_, rfl, rfl, rfl, rfl⟩
      simp only [held, step, show w.table = [] from hkept]
    exact hmoved.books ⟨hw.shape.queue, fun _ he ↦ absurd he List.not_mem_nil,
      hw.shape.checkers, hw.shape.workers⟩ hw
  | sessions h =>
    refine ⟨⟨hw.shape.queue, hw.shape.table, hw.shape.checkers, hw.shape.workers⟩, hw.received,
      hw.once, fun s ↦ ?_⟩
    have husage := hw.usage s
    show (h s).usage = w.others s + ((h s).usage - (w.core.sessions s).usage) + w.pendingOn s
    omega

/-- The books are kept in every run that loses no request. -/
theorem books_of_reach {conf : Params} {host : Host}
    (hw : (localid conf host).Reach (Kept conf) w) : Books w := by
  have hinv : conf.helloAuthentication = true ∧ Books w := by
    refine hw.invariant (I := fun w ↦ conf.helloAuthentication = true ∧ Books w) ?_ ?_
    · rintro w ⟨-, hello, h, rfl⟩
      exact ⟨hello, books_start h⟩
    · rintro w e ⟨hello, hw⟩ he hkept
      exact ⟨hello, books_step hello host hw he hkept⟩
  exact hinv.2

end LocalidWorld

/-- **A request of the hello mode is kept until it is answered.** In a run that takes none of the
four branches in which one gets lost, every request received either is pending, once, and has no
answer, or has one answer and is not pending any more; and the usage of a session is what the
requests pending on it and the other users make it, so that each answer has released the session
once. -/
theorem hello_request_kept {conf : Params} {host : Host} {w : LocalidWorld}
    (hw : (localid conf host).Reach (LocalidWorld.Kept conf) w) :
    (∀ p ∈ w.core.received,
      w.pending p = 1 ∧ (w.core.answers.map Answer.packetId).count p = 0 ∨
      w.pending p = 0 ∧ (w.core.answers.map Answer.packetId).count p = 1) ∧
    ∀ s, (w.core.sessions s).usage = w.others s + w.pendingOn s := by
  have hbooks := LocalidWorld.books_of_reach hw
  refine ⟨fun p hp ↦ ?_, hbooks.usage⟩
  have honce := hbooks.once p
  rw [List.count_eq_one_of_mem hbooks.received hp] at honce
  omega

/-! ### Runs -/

/-- A configuration in which the thread runs, and answers are sent at once. -/
def Params.hello : Params :=
  { Params.default with helloAuthentication := true, logUsersSync := false }

/-- A client answers the hello of the request `helloid`. -/
def Connection.helloAnswer (saddr : In6Addr) (helloid : UInt32) : Connection :=
  { Connection.zero with
    packetId := [⟨helloid, none⟩]
    tracking := { Tracking.sample with saddr := saddr }
    userId := 7
    state := .userpckt }

theorem Connection.request_helloRequest (id : UInt32) (session : SessionId) {version : ℕ}
    (hv : KnownVersion version) : HelloRequest (Connection.request id session version) :=
  ⟨rfl, ⟨_, rfl⟩, hv⟩

theorem Connection.helloAnswer_helloAnswer (saddr : In6Addr) (helloid : UInt32) :
    HelloAnswer (Connection.helloAnswer saddr helloid) := ⟨rfl, _, rfl⟩

/-- A client is connected everywhere, and 42 is drawn. -/
def LocalidEvent.next : LocalidEvent := .insertMessage Logger.sample 0 (fun _ ↦ true) 42 1

/-- A request, its hello, the answer of the right client, the ACLs, and the decision. -/
def helloRun : List LocalidEvent :=
  [.pushAuthreq (Connection.request 1 0 6), .next,
    .pushUserpckt (Connection.helloAnswer Tracking.sample.saddr 42), .next,
    .aclCheckAndDecide 0 [], .next]

theorem helloRun_path : (localid Params.hello Host.sample).Path (LocalidWorld.Kept Params.hello)
    (LocalidWorld.start fun _ ↦ NufwSession.new) helloRun := by
  refine ⟨⟨Connection.request_helloRequest 1 0 (by decide), fun _ _ ↦ List.not_mem_nil⟩, trivial,
    ⟨rfl, _, rfl, fun _ ↦ rfl⟩, ?_, Connection.helloAnswer_helloAnswer _ _, trivial,
    ⟨rfl, _, rfl, fun h ↦ by cases h⟩, ?_, Nat.zero_lt_one, trivial,
    ⟨rfl, _, rfl, fun h ↦ by cases h⟩, ?_, trivial⟩
  · rintro pckt ⟨⟩
    exact ⟨fun _ ↦ rfl, fun h ↦ by cases h⟩
  · rintro pckt ⟨⟩
    refine ⟨fun h ↦ (by cases h), ?_⟩
    rintro - helloid ⟨⟩ element ⟨⟩
    rfl
  · rintro pckt ⟨⟩
    exact ⟨fun h ↦ (by cases h), fun h ↦ (by cases h)⟩

/-- The request has been answered, and nothing is pending on its session. -/
theorem helloRun_answered :
    let w := (localid Params.hello Host.sample).run
      (LocalidWorld.start fun _ ↦ NufwSession.new) helloRun
    (w.pending ⟨1, some 0⟩ = 0 ∧ (w.core.answers.map Answer.packetId).count ⟨1, some 0⟩ = 1) ∧
      (w.core.sessions 0).usage = 0 := by
  intro w
  have hresult := hello_request_kept ((localid Params.hello Host.sample).reach_run
    ⟨rfl, rfl, _, rfl⟩ _ helloRun_path)
  have hanswers : (w.core.answers.map Answer.packetId).count ⟨1, some 0⟩ = 1 := by decide
  refine ⟨?_, ?_⟩
  · rcases hresult.1 ⟨1, some 0⟩ List.mem_cons_self with h | h
    · exact absurd (h.2.symm.trans hanswers) (by decide)
    · exact h
  · exact (hresult.2 0).trans rfl

/-- Nobody answers the hello, and a refresh finds the request old. -/
def forgottenRun : List LocalidEvent :=
  [.pushAuthreq (Connection.request 1 0 6), .next, .refresh 16]

/-- **The request is lost**: it was received, is not pending any more, and has no answer; its
session keeps a user that will never leave. -/
theorem forgottenRun_lost :
    ∃ w, (localid Params.hello Host.sample).Reachable w ∧
      ⟨1, some 0⟩ ∈ w.core.received ∧ w.pending ⟨1, some 0⟩ = 0 ∧
      ⟨1, some 0⟩ ∉ w.core.answers.map Answer.packetId ∧
      (w.core.sessions 0).usage = 1 ∧ w.others 0 = 0 := by
  refine ⟨_, (localid Params.hello Host.sample).reach_run
    (s := LocalidWorld.start fun _ ↦ NufwSession.new) ⟨rfl, rfl, _, rfl⟩ forgottenRun ?_,
    List.mem_cons_self, rfl, List.not_mem_nil, rfl, rfl⟩
  exact ⟨⟨Connection.request_helloRequest 1 0 (by decide), fun _ _ ↦ List.not_mem_nil⟩, trivial,
    ⟨rfl, _, rfl, fun _ ↦ rfl⟩, trivial, rfl, trivial, trivial⟩

/-! ### Forged answers -/

theorem freeId_notMem {table : List (UInt32 × Connection)} {fuel : ℕ} {random id : UInt32}
    (h : freeId table fuel random = some id) : id ∉ table.map Prod.fst := by
  induction fuel generalizing random with
  | zero => cases h
  | succ fuel ih =>
    rw [freeId] at h
    split at h
    · exact ih h
    · rename_i hany
      obtain rfl := Option.some.inj h
      intro hmem
      obtain ⟨e, he, hid⟩ := List.mem_map.1 hmem
      exact hany (List.any_eq_true.2 ⟨e, he, by simp [hid]⟩)

namespace LocalidWorld

variable {w : LocalidWorld} {pckt element : Connection} {helloid : PacketId}

/-- The identifiers of the table are different. -/
def Distinct (w : LocalidWorld) : Prop := (w.table.map Prod.fst).Nodup

theorem distinct_steal (h : w.Distinct) (id : UInt32) : (w.steal id).Distinct :=
  h.sublist (List.eraseP_sublist.map _)

theorem distinct_insertMessage (conf : Params) (host : Host) (log : Logger) (now : Int)
    (clients : In6Addr → Bool) {id : UInt32} (h : w.Distinct)
    (hid : pckt.state = .authreq → id ∉ w.table.map Prod.fst) :
    (w.insertMessage conf host log now clients id pckt).Distinct := by
  rw [insertMessage]
  split
  · rename_i hs
    split
    · exact List.nodup_cons.2 ⟨hid hs, h⟩
    · exact h
  · split
    · exact h
    · split
      · exact h
      · dsimp only
        split
        · exact distinct_steal (w := { w with core := _ }) h _
        · exact distinct_steal h _
  · exact h
  · exact h

/-- Every step keeps the identifiers different. -/
theorem distinct_step (conf : Params) (host : Host) {e : LocalidEvent} (h : w.Distinct)
    (he : w.enabled e) : (w.step conf host e).Distinct := by
  cases e with
  | pushAuthreq conn => exact h
  | pushUserpckt conn => exact h
  | insertMessage log now clients random fuel =>
    obtain ⟨-, pckt, hhead, hfree⟩ := he
    rw [step]
    cases hq : w.core.localidAuthQueue with
    | nil => exact h
    | cons pckt' queue =>
      rw [hq] at hhead
      obtain rfl := Option.some.inj hhead
      refine distinct_insertMessage conf host log now clients h fun hs ↦ ?_
      obtain ⟨id, hid⟩ := Option.isSome_iff_exists.1 (hfree hs)
      rw [hid]
      exact freeId_notMem hid
  | refresh now => exact h.sublist (List.filter_sublist.map _)
  | aclCheckAndDecide i acls =>
    rw [step]
    split
    · exact h
    · exact h
  | decisionsQueueWork i log =>
    rw [step]
    split
    · exact h
    · exact h
  | stop => exact List.nodup_nil
  | sessions h' => exact h

theorem distinct_of_reachable {conf : Params} {host : Host}
    (hw : (localid conf host).Reachable w) : w.Distinct := by
  refine hw.invariant ?_ fun w e h he _ ↦ distinct_step conf host h he
  rintro w ⟨-, -, h, rfl⟩
  exact List.nodup_nil

/-- A forged answer takes the request out of the table, and gives it to nobody. -/
theorem insertMessage_spoofed (conf : Params) (host : Host) (log : Logger) (now : Int)
    (clients : In6Addr → Bool) (id : UInt32) (hs : pckt.state = .userpckt)
    (hid : pckt.packetId.head? = some helloid) (hpending : w.lookup helloid.id = some element)
    (hspoof : element.tracking.saddr ≠ pckt.tracking.saddr) :
    w.insertMessage conf host log now clients id pckt = w.steal helloid.id := by
  obtain ⟨ids, hids⟩ := List.head?_eq_some_iff.1 hid
  rw [insertMessage, hs, hids]
  dsimp only
  rw [hpending]
  dsimp only
  rw [if_neg fun h ↦ hspoof (ipv6Equal_iff.1 h)]

/-- An answer to a hello that no request waits for does nothing. -/
theorem insertMessage_unknown (conf : Params) (host : Host) (log : Logger) (now : Int)
    (clients : In6Addr → Bool) (id : UInt32) (hs : pckt.state = .userpckt)
    (hid : pckt.packetId.head? = some helloid) (hpending : w.lookup helloid.id = none) :
    w.insertMessage conf host log now clients id pckt = w := by
  obtain ⟨ids, hids⟩ := List.head?_eq_some_iff.1 hid
  rw [insertMessage, hs, hids]
  dsimp only
  rw [hpending]

end LocalidWorld

/-- **A forged answer cancels the request.** Whenever the thread takes an answer from another
address than the one of the request that waits for it, the request gets no identity; but it is not
in the table any more, and whoever answers the hello then, from the right address or not, changes
nothing. -/
theorem spoofed_answer_cancels {conf : Params} {host : Host} {w : LocalidWorld}
    (hw : (localid conf host).Reachable w) {pckt element : Connection} {helloid : PacketId}
    {queue : List Connection} (hq : w.core.localidAuthQueue = pckt :: queue)
    (hs : pckt.state = .userpckt) (hid : pckt.packetId.head? = some helloid)
    (hpending : w.lookup helloid.id = some element)
    (hspoof : element.tracking.saddr ≠ pckt.tracking.saddr) (log : Logger) (now : Int)
    (clients : In6Addr → Bool) (random : UInt32) (fuel : ℕ) :
    let w' := w.step conf host (.insertMessage log now clients random fuel)
    w'.table ≠ w.table ∧ w'.lookup helloid.id = none ∧
    w'.core.aclCheckers = w.core.aclCheckers ∧
    ∀ answer : Connection, answer.state = .userpckt → answer.packetId.head? = some helloid →
      ∀ random, w'.insertMessage conf host log now clients random answer = w' := by
  intro w'
  have hw' : w' = LocalidWorld.steal { w with core := { w.core with localidAuthQueue := queue } }
      helloid.id := by
    show w.step conf host (.insertMessage log now clients random fuel) = _
    rw [LocalidWorld.step, hq]
    exact LocalidWorld.insertMessage_spoofed conf host log now clients _ hs hid hpending hspoof
  have hnone : w'.lookup helloid.id = none := by
    rw [hw']
    exact Option.map_eq_none_iff.2 (find?_eraseP_of_nodup (LocalidWorld.distinct_of_reachable hw) _)
  refine ⟨fun htable ↦ ?_, hnone, by rw [hw']; rfl, fun answer hs' hid' random ↦ ?_⟩
  · have hsame : w'.lookup helloid.id = w.lookup helloid.id := by
      rw [LocalidWorld.lookup, htable]
      rfl
    rw [hnone, hpending] at hsame
    cases hsame
  · exact LocalidWorld.insertMessage_unknown conf host log now clients random hs' hid' hnone

/-- A request, and the answer to its hello from another address, not taken yet. -/
def spoofedRun : List LocalidEvent :=
  [.pushAuthreq (Connection.request 1 0 6), .next,
    .pushUserpckt (Connection.helloAnswer Tracking.sample.daddr 42)]

theorem spoofedRun_reachable : (localid Params.hello Host.sample).Reachable
    ((localid Params.hello Host.sample).run (LocalidWorld.start fun _ ↦ NufwSession.new)
      spoofedRun) := by
  refine (localid Params.hello Host.sample).reach_run ⟨rfl, rfl, _, rfl⟩ _ ?_
  exact ⟨⟨Connection.request_helloRequest 1 0 (by decide), fun _ _ ↦ List.not_mem_nil⟩, trivial,
    ⟨rfl, _, rfl, fun _ ↦ rfl⟩, trivial, Connection.helloAnswer_helloAnswer _ _, trivial, trivial⟩

/-- The next step takes the forged answer. -/
theorem spoofedRun_cancels :
    let w := (localid Params.hello Host.sample).run
      (LocalidWorld.start fun _ ↦ NufwSession.new) spoofedRun
    (w.lookup 42).isSome ∧
      ((w.step Params.hello Host.sample .next).lookup 42) = none ∧
      (w.step Params.hello Host.sample .next).core.aclCheckers = [] := by
  intro w
  have hhead : (Connection.helloAnswer Tracking.sample.daddr 42).packetId.head? =
      some ⟨42, none⟩ := rfl
  have hresult := spoofed_answer_cancels spoofedRun_reachable rfl rfl hhead rfl (by decide)
    Logger.sample 0 (fun _ ↦ true) 42 1
  exact ⟨rfl, hresult.2.1, hresult.2.2.1⟩

/-- The forged answer is taken, and then the one of the client that was asked. -/
def genuineRun : List LocalidEvent :=
  [.next, .pushUserpckt (Connection.helloAnswer Tracking.sample.saddr 42), .next]

/-- **The client at the right address comes too late**: its answer, taken after a forged one, finds
no request to complete, and the request is not pending any more. -/
theorem genuine_after_spoofed_lost :
    ∃ w, (localid Params.hello Host.sample).Reachable w ∧
      w.lookup 42 = some (Connection.request 1 0 6) ∧
      (localid Params.hello Host.sample).Path (fun _ _ ↦ True) w genuineRun ∧
      ∃ w', w' = (localid Params.hello Host.sample).run w genuineRun ∧
        w'.table = [] ∧ w'.core.aclCheckers = [] ∧ w'.pending ⟨1, some 0⟩ = 0 ∧
        w'.core.answers = [] := by
  refine ⟨_, spoofedRun_reachable, rfl, ?_, _, rfl, rfl, rfl, rfl, rfl⟩
  exact ⟨⟨rfl, _, rfl, fun h ↦ by cases h⟩, trivial, Connection.helloAnswer_helloAnswer _ _,
    trivial, ⟨rfl, _, rfl, fun h ↦ by cases h⟩, trivial, trivial⟩

end Nufw
