import Nufw.Nuauth.Accounting

/-!
# The usage of a session

The life of the sessions with the gateways, as a machine of its own: a worker loop starts and ends,
an activity callback takes and drops its reference around `treat_nufw_request`, requests are
created, folded into entries of the hash, and answered one identifier at a time. The steps on the
sessions are those of the source; the entries are looked up by their position, since the accounts
do not depend on the keys.

A session has as *holders* its worker loop, its running callback, and the identifiers of the
connections that point to it. `Accounted` says that its usage is their number and that it has been
cleaned exactly if it is dead and nothing holds it. Two steps break this:

* a request that meets an entry in state COMPLETING or READY leaves its identifier there without
  `merge_nufw_session`, so that when the entry has another session both accounts are wrong;
* the error exits of `treat_nufw_request` declare the session dead, which drops a reference nobody
  took; the callback and the worker loop then drop their own.

Without them the accounts are exact (`usage_exact_of_balanced`).
-/

namespace Nufw

/-! ### The machine -/

/-- The sessions, what runs on them, and the connections that hold them. -/
structure Holders where
  sessions : Sessions
  /-- The number of sessions accepted so far. -/
  allocated : ℕ
  /-- The worker loop of the session runs. -/
  loop : SessionId → Bool
  /-- An activity callback runs on the session and holds its reference. -/
  callback : SessionId → Bool
  /-- Connections on their way to `search_and_fill`. -/
  queue : List Connection
  /-- The entries of `conn_list`. -/
  connList : List Connection
  /-- Connections that have left the hash and are being answered. -/
  leaving : List Connection

/-- What can happen to the sessions. -/
inductive SessionEvent where
  /-- `tls_nufw_accept`, then `tls_nufw_worker` down to its loop. -/
  | loopStart
  /-- The end of `tls_nufw_worker`. -/
  | loopEnd (s : SessionId)
  /-- `nufw_srv_activity_cb` before `treat_nufw_request`. -/
  | callbackStart (s : SessionId)
  /-- `nufw_srv_activity_cb` after `treat_nufw_request`. -/
  | callbackEnd (s : SessionId)
  /-- An exit of `treat_nufw_request` through `declare_dead_nufw_session`. -/
  | treatFailure (s : SessionId)
  /-- `treat_nufw_request` creates a connection. -/
  | create (s : SessionId) (conn : Connection)
  | pushUserpckt (conn : Connection)
  /-- The next connection of the queue becomes an entry. -/
  | insert
  /-- The next connection of the queue meets the entry at a position. -/
  | fill (i : ℕ)
  /-- The ACLs of an entry are there: it is ready. -/
  | ready (i : ℕ)
  /-- An entry leaves the hash. -/
  | leave (i : ℕ)
  /-- `send_auth_response` for the next identifier of a connection that leaves. -/
  | answer (i : ℕ)

/-- The event can happen. A connection goes to the entry with its key, and becomes one if there is
none. -/
def Holders.enabled (host : Host) (w : Holders) : SessionEvent → Prop
  | .loopStart => True
  | .loopEnd s => w.loop s ∧ ¬w.callback s
  | .callbackStart s => w.loop s ∧ ¬w.callback s
  | .callbackEnd s => w.callback s
  | .treatFailure s => w.callback s
  | .create s conn => w.callback s ∧ AuthreqConn conn
  | .pushUserpckt conn => UserpcktConn conn
  | .insert => ∃ new queue, w.queue = new :: queue ∧
      ∀ packet ∈ w.connList, hasKey host.order new.tracking packet = false
  | .fill i => ∃ new queue packet, w.queue = new :: queue ∧ w.connList[i]? = some packet ∧
      hasKey host.order new.tracking packet = true
  | .ready i => ∃ packet, w.connList[i]? = some packet ∧ packet.state = .completing
  | .leave i => i < w.connList.length
  | .answer i => i < w.leaving.length

/-- The connection without the identifier that has been answered. -/
def Connection.dropPacketId (c : Connection) : Connection := { c with packetId := c.packetId.tail }

/-- What the event does. -/
def Holders.step (host : Host) (w : Holders) : SessionEvent → Holders
  | .loopStart =>
    { w with
      sessions := increaseNufwSessionUsage
        (Function.update w.sessions w.allocated NufwSession.new) (some w.allocated)
      allocated := w.allocated + 1
      loop := Function.update w.loop w.allocated true }
  | .loopEnd s =>
    { w with
      sessions := declareDeadNufwSession w.sessions (some s)
      loop := Function.update w.loop s false }
  | .callbackStart s =>
    { w with
      sessions := increaseNufwSessionUsage w.sessions (some s)
      callback := Function.update w.callback s true }
  | .callbackEnd s =>
    { w with
      sessions := releaseNufwSession w.sessions (some s)
      callback := Function.update w.callback s false }
  | .treatFailure s => { w with sessions := declareDeadNufwSession w.sessions (some s) }
  | .create s conn =>
    { w with
      sessions := increaseNufwSessionUsage w.sessions (some s)
      queue := w.queue ++ [{ conn with tls := some s }] }
  | .pushUserpckt conn => { w with queue := w.queue ++ [conn] }
  | .insert =>
    match w.queue with
    | [] => w
    | new :: queue => { w with queue := queue, connList := new :: w.connList }
  | .fill i =>
    match w.queue, w.connList[i]? with
    | new :: queue, some packet =>
      let filled := searchAndFillUpdate host w.sessions new packet
      { w with
        sessions := filled.sessions
        queue := queue
        connList := filled.packet :: w.connList.eraseIdx i }
    | _, _ => w
  | .ready i =>
    match w.connList[i]? with
    | none => w
    | some packet =>
      { w with connList := { packet with state := .ready } :: w.connList.eraseIdx i }
  | .leave i =>
    match w.connList[i]? with
    | none => w
    | some packet =>
      { w with connList := w.connList.eraseIdx i, leaving := packet :: w.leaving }
  | .answer i =>
    match w.leaving[i]? with
    | none => w
    | some element =>
      { w with
        sessions := (sendAuthResponses host element element.packetId.head?.toList w.sessions).1
        leaving := element.dropPacketId :: w.leaving.eraseIdx i }

/-- Nothing has been accepted yet. -/
def Holders.start (h : Sessions) : Holders := ⟨h, 0, fun _ ↦ false, fun _ ↦ false, [], [], []⟩

/-- The machine of the sessions. -/
def sessionMachine (host : Host) : Machine Holders SessionEvent where
  init w := ∃ h, w = Holders.start h
  enabled := Holders.enabled host
  step := Holders.step host

/-! ### Holders and accounts -/

/-- The identifiers a connection holds on a session. -/
def idsOn (s : SessionId) (c : Connection) : ℕ := if c.tls = some s then c.packetId.length else 0

/-- The number of holders of a session. -/
def Holders.holders (w : Holders) (s : SessionId) : ℕ :=
  (w.loop s).toNat + (w.callback s).toNat + total (idsOn s) w.queue +
    total (idsOn s) w.connList + total (idsOn s) w.leaving

/-- The account of a session with `n` holders is right: the usage is their number, and the session
has been cleaned, once, exactly if it is dead and unused. -/
def Accounted (session : NufwSession) (n : ℕ) : Prop :=
  session.usage = n ∧ session.cleaned = if session.alive = false ∧ n = 0 then 1 else 0

/-- A step that does not fold a request into an entry of another session on its way to a decision,
and does not leave `treat_nufw_request` through `declare_dead_nufw_session`. -/
def Balanced (w : Holders) : SessionEvent → Prop
  | .treatFailure _ => False
  | .fill i => ∀ new queue packet, w.queue = new :: queue → w.connList[i]? = some packet →
      new.state = .authreq → packet.state = .completing ∨ packet.state = .ready →
      packet.tls = new.tls
  | _ => True

/-! ### One account -/

section

variable {session : NufwSession} {n m : ℕ}

/-- New holders, of a session that has some. -/
theorem Accounted.add (h : Accounted session n) (hn : 0 < n) (k : ℕ) :
    Accounted (addUsage k session) (n + k) := by
  obtain ⟨husage, hcleaned⟩ := h
  rw [if_neg (by omega)] at hcleaned
  refine ⟨?_, ?_⟩
  · simp only [addUsage, husage]
    push_cast
    rfl
  · rw [if_neg (by omega)]
    exact hcleaned

/-- One more holder. -/
theorem Accounted.increase (h : Accounted session n) (hn : 0 < n) :
    Accounted (addUsage 1 session) (n + 1) :=
  h.add hn 1

/-- Holders that leave, while others stay. -/
theorem Accounted.sub {k : ℕ} (h : Accounted session (m + k)) (hm : 0 < m) :
    Accounted (addUsage (-k) session) m := by
  obtain ⟨husage, hcleaned⟩ := h
  refine ⟨?_, ?_⟩
  · simp only [addUsage, husage]
    push_cast
    omega
  · rw [if_neg (by omega)]
    rw [if_neg (by omega)] at hcleaned
    exact hcleaned

/-- One holder leaves. -/
theorem Accounted.release (h : Accounted session (n + 1)) : Accounted session.release n := by
  obtain ⟨husage, hcleaned⟩ := h
  rw [if_neg (by omega)] at hcleaned
  have husage' : session.usage + -1 = n := by
    rw [husage]
    push_cast
    omega
  unfold NufwSession.release Accounted
  simp only [addUsage, husage', Int.natCast_eq_zero]
  by_cases hn : n = 0 ∧ session.alive = false
  · rw [if_pos hn]
    simp [cleanNufwSession, hcleaned, hn]
  · rw [if_neg hn]
    exact ⟨rfl, by rw [hcleaned, if_neg fun h ↦ hn ⟨h.2, h.1⟩]⟩

/-- One holder leaves and declares the session dead. -/
theorem Accounted.declareDead (h : Accounted session (n + 1)) :
    Accounted session.declareDead n := by
  obtain ⟨husage, hcleaned⟩ := h
  rw [if_neg (by omega)] at hcleaned
  have husage' : session.usage + -1 = n := by
    rw [husage]
    push_cast
    omega
  unfold NufwSession.declareDead Accounted
  simp only [addUsage, husage', Int.natCast_eq_zero]
  by_cases hn : n = 0
  · rw [if_pos hn]
    simp [cleanNufwSession, hcleaned, hn]
  · rw [if_neg hn]
    simp [hcleaned, hn]

theorem Accounted.new : Accounted (addUsage 1 NufwSession.new) 1 := by
  simp [Accounted, addUsage, NufwSession.new]

end

/-! ### Folding and answering -/

/-- A connection that can be in the queue. -/
def PendingConn (c : Connection) : Prop := AuthreqConn c ∧ c.tls.isSome ∨ UserpcktConn c

/-- A connection that can be in the hash. -/
structure HolderConn (c : Connection) : Prop where
  state : c.state = .authreq ∨ c.state = .userpckt ∨ c.state = .completing ∨ c.state = .ready
  request : c.state ≠ .userpckt → c.packetId ≠ []
  userpckt : c.state = .userpckt → c.packetId = []
  session : c.packetId ≠ [] → KnownVersion c.nufwVersion ∧ c.tls.isSome

theorem idsOn_of_nil {s : SessionId} {c : Connection} (h : c.packetId = []) : idsOn s c = 0 := by
  simp [idsOn, h]

theorem idsOn_of_ne {s : SessionId} {c : Connection} (h : c.tls ≠ some s) : idsOn s c = 0 :=
  if_neg h

theorem idsOn_self {s : SessionId} {c : Connection} (h : c.tls = some s) :
    idsOn s c = c.packetId.length := if_pos h

/-- A request folded into an entry of its own session. -/
theorem idsOn_prepend {s : SessionId} {new packet : Connection} {p : PacketId}
    (hnew : new.packetId = [p]) (htls : packet.tls = new.tls) :
    idsOn s (prependPacketId new packet) = idsOn s new + idsOn s packet := by
  have hsame : (prependPacketId new packet).tls = packet.tls := rfl
  unfold idsOn
  rw [hsame, ← htls]
  split_ifs
  · simp [prependPacketId, hnew, Nat.add_comm]
  · rfl

/-- The session that loses identifiers keeps its other holders. -/
theorem Accounted.takeOff {k : ℕ} (hk : 0 < k) (h : Accounted session (n + k)) :
    Accounted (if (k : Int) > 1 then addUsage (-k + 1) session else session).release n := by
  refine Accounted.release ?_
  split_ifs with hmany
  · have hsub : Accounted (addUsage (-((k - 1 : ℕ) : Int)) session) (n + 1) := by
      refine Accounted.sub ?_ (Nat.succ_pos n)
      rwa [show n + 1 + (k - 1) = n + k by omega]
    rwa [show (-(k : Int) + 1) = -((k - 1 : ℕ) : Int) by omega]
  · rwa [show k = 1 by omega] at h

/-- The identifiers of `old` move to the session of `new`, which has one already. -/
theorem accounted_mergeNufwSession {h : Sessions} {old new : Connection} {p : PacketId}
    (hnew : new.packetId = [p]) (hold : old.packetId ≠ []) (holdtls : old.tls.isSome)
    (hnewtls : new.tls.isSome) (s : SessionId) {n : ℕ}
    (hs : Accounted (h s) (n + idsOn s new + idsOn s old)) :
    Accounted ((mergeNufwSession h old new).1 s)
      (n + idsOn s (prependPacketId new (mergeNufwSession h old new).2)) := by
  obtain ⟨i, hi⟩ := Option.isSome_iff_exists.1 holdtls
  obtain ⟨j, hj⟩ := Option.isSome_iff_exists.1 hnewtls
  have hlen : 0 < old.packetId.length := List.length_pos_iff.2 hold
  by_cases hij : old.tls = new.tls
  · rw [mergeNufwSession_of_eq hij, idsOn_prepend hnew hij, ← Nat.add_assoc]
    exact hs
  · have hne : i ≠ j := fun h ↦ hij (by rw [hi, hj, h])
    rw [mergeNufwSession_snd]
    by_cases hsi : s = i
    · -- the session that loses its identifiers
      subst hsi
      have hzero : idsOn s (prependPacketId new { old with tls := new.tls }) = 0 :=
        idsOn_of_ne fun h ↦ hne (Option.some.inj (hj.symm.trans h)).symm
      rw [idsOn_of_ne (c := new) (fun h ↦ hne (Option.some.inj (h.symm.trans hj))), idsOn_self hi,
        Nat.add_zero] at hs
      rw [mergeNufwSession_old h hi hj hne, hzero, Nat.add_zero]
      exact hs.takeOff hlen
    · have hsi' : old.tls ≠ some s := fun h ↦ hsi (Option.some.inj (h.symm.trans hi))
      rw [mergeNufwSession_of_ne h hij hsi']
      rw [idsOn_of_ne hsi', Nat.add_zero] at hs
      by_cases hsj : s = j
      · -- the session that gets them
        subst hsj
        rw [idsOn_self hj, hnew] at hs
        rw [hj, Sessions.modify_self]
        have hadd := hs.add (by simp) old.packetId.length
        rw [idsOn_self rfl]
        simpa [prependPacketId, hnew, Nat.add_assoc, Nat.add_comm 1] using hadd
      · have hsj' : new.tls ≠ some s := fun h ↦ hsj (Option.some.inj (h.symm.trans hj))
        rw [idsOn_of_ne hsj', Nat.add_zero] at hs
        rw [Sessions.modify_of_ne h hsj',
          idsOn_of_ne (c := prependPacketId new { old with tls := new.tls }) hsj', Nat.add_zero]
        exact hs

/-- **Filling an entry keeps the accounts**, `n` being the other holders of the session. -/
theorem accounted_fill (host : Host) {h : Sessions} {new packet : Connection}
    (hnew : PendingConn new) (hpacket : HolderConn packet)
    (hfold : new.state = .authreq → packet.state = .completing ∨ packet.state = .ready →
      packet.tls = new.tls) (s : SessionId) {n : ℕ}
    (hs : Accounted (h s) (n + idsOn s new + idsOn s packet)) :
    Accounted ((searchAndFillUpdate host h new packet).sessions s)
      (n + idsOn s (searchAndFillUpdate host h new packet).packet) := by
  rcases hnew with ⟨hnew, htls⟩ | hnew
  · obtain ⟨p, hp⟩ := hnew.packetId
    rcases hpacket.state with hps | hps | hps
    · rw [searchAndFillUpdate_authreq_authreq host h hps hnew.state]
      have hids := hpacket.request (by simp [hps])
      exact accounted_mergeNufwSession hp hids (hpacket.session hids).2 htls s hs
    · rw [searchAndFillUpdate_userpckt_authreq host h hps hnew.state]
      rw [idsOn_of_nil (hpacket.userpckt hps), Nat.add_zero] at hs
      exact hs
    · rw [searchAndFillUpdate_decided_authreq host h hps hnew.state]
      change Accounted (h s) (n + idsOn s (prependPacketId new packet))
      rw [idsOn_prepend hp (hfold hnew.state hps), ← Nat.add_assoc]
      exact hs
  · rw [idsOn_of_nil hnew.packetId, Nat.add_zero] at hs
    rcases hpacket.state with hps | hps
    · rw [searchAndFillUpdate_authreq_userpckt host h hps hnew.state]
      exact hs
    · rw [searchAndFillUpdate_userpckt host h hps hnew.state]
      exact hs

theorem HolderConn.prepend {new packet packet' : Connection} (hnew : AuthreqConn new)
    (htls : new.tls.isSome) (hpacket : HolderConn packet) (hs : packet.state ≠ .userpckt)
    (hpacket' : packet' = packet ∨ packet' = { packet with tls := new.tls }) :
    HolderConn (prependPacketId new packet') := by
  obtain ⟨p, hp⟩ := hnew.packetId
  obtain ⟨hversion, hsession⟩ := hpacket.session (hpacket.request hs)
  have hids : (prependPacketId new packet').packetId ≠ [] := by simp [prependPacketId, hp]
  rcases hpacket' with rfl | rfl
  · exact ⟨hpacket.state, fun _ ↦ hids, fun h ↦ absurd h hs, fun _ ↦ ⟨hversion, hsession⟩⟩
  · exact ⟨hpacket.state, fun _ ↦ hids, fun h ↦ absurd h hs, fun _ ↦ ⟨hversion, htls⟩⟩

/-- A filled entry can be in the hash. -/
theorem HolderConn.fill {host : Host} {h : Sessions} {new packet : Connection}
    (hnew : PendingConn new) (hpacket : HolderConn packet) :
    HolderConn (searchAndFillUpdate host h new packet).packet := by
  rcases hnew with ⟨hnew, htls⟩ | hnew
  · obtain ⟨p, hp⟩ := hnew.packetId
    rcases hpacket.state with hps | hps | hps
    · rw [searchAndFillUpdate_authreq_authreq host h hps hnew.state]
      exact HolderConn.prepend hnew htls hpacket (by simp [hps])
        (Or.inr (mergeNufwSession_snd h packet new))
    · rw [searchAndFillUpdate_userpckt_authreq host h hps hnew.state]
      exact ⟨Or.inr (Or.inr (Or.inl rfl)), fun _ ↦ by simp [completedByGateway, hp],
        fun h ↦ (by cases h), fun _ ↦ ⟨hnew.version, htls⟩⟩
    · rw [searchAndFillUpdate_decided_authreq host h hps hnew.state]
      exact HolderConn.prepend hnew htls hpacket (by rcases hps with h | h <;> simp [h])
        (Or.inl rfl)
  · rcases hpacket.state with hps | hps
    · rw [searchAndFillUpdate_authreq_userpckt host h hps hnew.state]
      exact ⟨Or.inr (Or.inr (Or.inl rfl)), fun _ ↦ hpacket.request (by simp [hps]),
        fun h ↦ (by cases h), hpacket.session⟩
    · rw [searchAndFillUpdate_userpckt host h hps hnew.state]
      exact hpacket

/-- **Answering one identifier keeps the accounts**, whether the session takes the message or is
found dead. -/
theorem accounted_answer (host : Host) {h : Sessions} {element : Connection}
    (helement : element.packetId ≠ [] → KnownVersion element.nufwVersion) (s : SessionId) {n : ℕ}
    (hs : Accounted (h s) (n + idsOn s element)) :
    Accounted ((sendAuthResponses host element element.packetId.head?.toList h).1 s)
      (n + idsOn s element.dropPacketId) := by
  cases hp : element.packetId with
  | nil =>
    have hids : idsOn s element.dropPacketId = 0 :=
      idsOn_of_nil (by simp [Connection.dropPacketId, hp])
    rw [idsOn_of_nil hp] at hs
    rw [hids]
    exact hs
  | cons p ps =>
    obtain ⟨message, hmessage⟩ := Option.isSome_iff_exists.1
      (authResponse_isSome host (helement (by simp [hp])) p.id)
    simp only [List.head?_cons, Option.toList_some, sendAuthResponses, sendAuthResponse, hmessage]
    have hdrop : element.dropPacketId.tls = element.tls := rfl
    -- sent or not, the identifier gives its reference back
    by_cases htls : element.tls = some s
    · have hids : idsOn s element.dropPacketId = ps.length := by
        rw [idsOn_self (hdrop.trans htls)]
        simp [Connection.dropPacketId, hp]
      rw [idsOn_self htls, hp, List.length_cons, ← Nat.add_assoc] at hs
      rw [hids, htls]
      split
      · show Accounted (releaseNufwSession h (some s) s) _
        rw [releaseNufwSession, Sessions.modify_self]
        exact hs.release
      · show Accounted (declareDeadNufwSession h (some s) s) _
        rw [declareDeadNufwSession, Sessions.modify_self]
        exact hs.declareDead
    · have hids : idsOn s element.dropPacketId = 0 := idsOn_of_ne (by rwa [hdrop])
      rw [idsOn_of_ne htls] at hs
      rw [hids]
      split
      · show Accounted (releaseNufwSession h element.tls s) _
        rw [releaseNufwSession, Sessions.modify_of_ne h htls]
        exact hs
      · show Accounted (declareDeadNufwSession h element.tls s) _
        rw [declareDeadNufwSession, Sessions.modify_of_ne h htls]
        exact hs

/-- A session that holds neither of the two does not hold the filled entry. -/
theorem idsOn_fill_of_zero (host : Host) {h : Sessions} {new packet : Connection}
    (hnew : PendingConn new) (hpacket : HolderConn packet) {s : SessionId}
    (hnewids : idsOn s new = 0) (hids : idsOn s packet = 0) :
    idsOn s (searchAndFillUpdate host h new packet).packet = 0 := by
  have hcompleted : ∀ c : Connection, c.tls = packet.tls → c.packetId = packet.packetId →
      idsOn s c = 0 := by
    intro c htls hid
    rw [← hids, idsOn, idsOn, htls, hid]
  rcases hnew with ⟨hnew, -⟩ | hnew
  · obtain ⟨p, hp⟩ := hnew.packetId
    have hnewtls : new.tls ≠ some s := by
      intro htls
      rw [idsOn_self htls, hp] at hnewids
      cases hnewids
    have hprepend : packet.state ≠ .userpckt → ∀ packet' : Connection,
        packet'.tls = packet.tls ∨ packet'.tls = new.tls →
        idsOn s (prependPacketId new packet') = 0 := by
      rintro hs packet' htls
      have hpackettls : packet.tls ≠ some s := by
        intro htls
        rw [idsOn_self htls] at hids
        exact hpacket.request hs (List.eq_nil_of_length_eq_zero hids)
      refine idsOn_of_ne ?_
      rcases htls with htls | htls
      · exact fun h ↦ hpackettls (htls.symm.trans h)
      · exact fun h ↦ hnewtls (htls.symm.trans h)
    rcases hpacket.state with hps | hps | hps
    · rw [searchAndFillUpdate_authreq_authreq host h hps hnew.state]
      exact hprepend (by simp [hps]) _ (Or.inr (by rw [mergeNufwSession_snd]))
    · rw [searchAndFillUpdate_userpckt_authreq host h hps hnew.state]
      exact idsOn_of_ne hnewtls
    · rw [searchAndFillUpdate_decided_authreq host h hps hnew.state]
      exact hprepend (by rcases hps with h | h <;> simp [h]) _ (Or.inl rfl)
  · rcases hpacket.state with hps | hps
    · rw [searchAndFillUpdate_authreq_userpckt host h hps hnew.state]
      exact hcompleted _ rfl rfl
    · rw [searchAndFillUpdate_userpckt host h hps hnew.state]
      exact hids

theorem idsOn_dropPacketId_le {s : SessionId} {c : Connection} :
    idsOn s c.dropPacketId ≤ idsOn s c := by
  unfold idsOn Connection.dropPacketId
  split_ifs
  · simp
  · exact Nat.le_refl _

/-- A connection of the queue can become an entry. -/
theorem PendingConn.holderConn {c : Connection} (h : PendingConn c) : HolderConn c := by
  rcases h with ⟨hc, htls⟩ | hc
  · obtain ⟨p, hp⟩ := hc.packetId
    exact ⟨Or.inl hc.state, fun _ ↦ by simp [hp], fun h ↦ by simp [hc.state] at h,
      fun _ ↦ ⟨hc.version, htls⟩⟩
  · exact ⟨Or.inr (Or.inl hc.state), fun h ↦ absurd hc.state h, fun _ ↦ hc.packetId,
      fun h ↦ absurd hc.packetId h⟩

/-! ### The invariant -/

/-- **The invariant of the sessions.** -/
structure SessionInv (w : Holders) : Prop where
  accounts : ∀ s < w.allocated, Accounted (w.sessions s) (w.holders s)
  /-- A session that has not been accepted has no holder. -/
  fresh : ∀ s, w.allocated ≤ s → w.holders s = 0
  queue : ∀ c ∈ w.queue, PendingConn c
  entries : ∀ c ∈ w.connList, HolderConn c
  leaving : ∀ c ∈ w.leaving, c.packetId ≠ [] → KnownVersion c.nufwVersion

theorem toNat_update {f : SessionId → Bool} {s t : SessionId} {b : Bool} (hst : s ≠ t) :
    (Function.update f t b s).toNat = (f s).toNat := by
  rw [Function.update_of_ne hst]

namespace SessionInv

variable {w : Holders}

theorem start (h : Sessions) : SessionInv (Holders.start h) where
  accounts s hs := absurd hs (Nat.not_lt_zero s)
  fresh _ _ := rfl
  queue c hc := by cases hc
  entries c hc := by cases hc
  leaving c hc := by cases hc

/-- A session with a running callback has been accepted. -/
theorem callback_lt (hw : SessionInv w) {s : SessionId} (hs : w.callback s = true) :
    s < w.allocated := by
  by_contra hlt
  have hzero := hw.fresh s (Nat.not_lt.1 hlt)
  simp only [Holders.holders, hs, Bool.toNat_true] at hzero
  omega

/-- A session with a running loop has been accepted. -/
theorem loop_lt (hw : SessionInv w) {s : SessionId} (hs : w.loop s = true) : s < w.allocated := by
  by_contra hlt
  have hzero := hw.fresh s (Nat.not_lt.1 hlt)
  simp only [Holders.holders, hs, Bool.toNat_true] at hzero
  omega

/-- The invariant, when the step touches one session that has been accepted, and nothing else
changes for the others. -/
theorem of_touched (hw : SessionInv w) {w' : Holders} {t : SessionId} (ht : t < w.allocated)
    (hall : w'.allocated = w.allocated)
    (hself : Accounted (w.sessions t) (w.holders t) → Accounted (w'.sessions t) (w'.holders t))
    (hother : ∀ s, s ≠ t → w'.sessions s = w.sessions s ∧ w'.holders s = w.holders s)
    (hqueue : ∀ c ∈ w'.queue, PendingConn c) (hentries : w'.connList = w.connList)
    (hleaving : w'.leaving = w.leaving) : SessionInv w' where
  accounts s hs := by
    rw [hall] at hs
    by_cases hst : s = t
    · rw [hst]
      exact hself (hw.accounts t ht)
    · rw [(hother s hst).1, (hother s hst).2]
      exact hw.accounts s hs
  fresh s hs := by
    rw [hall] at hs
    rw [(hother s (Nat.ne_of_gt (Nat.lt_of_lt_of_le ht hs))).2]
    exact hw.fresh s hs
  queue := hqueue
  entries := hentries ▸ hw.entries
  leaving := hleaving ▸ hw.leaving

/-- The invariant, when connections only move from one place to another. -/
theorem of_moved (hw : SessionInv w) {w' : Holders} (hall : w'.allocated = w.allocated)
    (hsessions : w'.sessions = w.sessions) (hholders : ∀ s, w'.holders s = w.holders s)
    (hqueue : ∀ c ∈ w'.queue, PendingConn c) (hentries : ∀ c ∈ w'.connList, HolderConn c)
    (hleaving : ∀ c ∈ w'.leaving, c.packetId ≠ [] → KnownVersion c.nufwVersion) :
    SessionInv w' where
  accounts s hs := by
    rw [hsessions, hholders]
    exact hw.accounts s (hall ▸ hs)
  fresh s hs := by
    rw [hholders]
    exact hw.fresh s (hall ▸ hs)
  queue := hqueue
  entries := hentries
  leaving := hleaving

/-- The worker loop of a new session starts. -/
theorem loopStart (hw : SessionInv w) (host : Host) : SessionInv (w.step host .loopStart) where
  accounts s hs := by
    have hnone := hw.fresh w.allocated (Nat.le_refl _)
    simp only [Holders.holders, Holders.step] at hs hnone ⊢
    rw [increaseNufwSessionUsage]
    by_cases hst : s = w.allocated
    · -- nothing holds the new session but its loop
      subst hst
      rw [Sessions.modify_self, Function.update_self, Function.update_self]
      have hone : true.toNat + (w.callback w.allocated).toNat +
          total (idsOn w.allocated) w.queue + total (idsOn w.allocated) w.connList +
          total (idsOn w.allocated) w.leaving = 1 := by
        rw [Bool.toNat_true]
        omega
      rw [hone]
      exact Accounted.new
    · rw [Sessions.modify_of_ne _ (fun h ↦ hst (Option.some.inj h).symm),
        Function.update_of_ne hst, toNat_update hst]
      exact hw.accounts s (by omega)
  fresh s hs := by
    simp only [Holders.holders, Holders.step] at hs ⊢
    rw [toNat_update (Nat.ne_of_gt hs)]
    exact hw.fresh s (by omega)
  queue := hw.queue
  entries := hw.entries
  leaving := hw.leaving

/-- The worker loop ends. -/
theorem loopEnd (hw : SessionInv w) (host : Host) {t : SessionId} (ht : w.loop t = true) :
    SessionInv (w.step host (.loopEnd t)) := by
  refine hw.of_touched (hw.loop_lt ht) rfl (fun haccount ↦ ?_) (fun s hst ↦ ⟨?_, ?_⟩) hw.queue rfl
    rfl
  · simp only [Holders.step, Holders.holders, declareDeadNufwSession, Sessions.modify_self,
      Function.update_self, Bool.toNat_false] at haccount ⊢
    rw [ht, Bool.toNat_true] at haccount
    refine Accounted.declareDead ?_
    convert haccount using 1
    omega
  · exact Sessions.modify_of_ne _ (fun h ↦ hst (Option.some.inj h).symm) _
  · simp only [Holders.step, Holders.holders, toNat_update hst]

/-- A callback takes its reference. -/
theorem callbackStart (hw : SessionInv w) (host : Host) {t : SessionId} (hloop : w.loop t = true)
    (ht : w.callback t = false) : SessionInv (w.step host (.callbackStart t)) := by
  refine hw.of_touched (hw.loop_lt hloop) rfl (fun haccount ↦ ?_) (fun s hst ↦ ⟨?_, ?_⟩) hw.queue
    rfl rfl
  · simp only [Holders.step, Holders.holders, increaseNufwSessionUsage, Sessions.modify_self,
      Function.update_self, Bool.toNat_true] at haccount ⊢
    rw [ht, Bool.toNat_false, hloop, Bool.toNat_true] at haccount
    rw [hloop, Bool.toNat_true]
    convert haccount.increase (by omega) using 1
    omega
  · exact Sessions.modify_of_ne _ (fun h ↦ hst (Option.some.inj h).symm) _
  · simp only [Holders.step, Holders.holders, toNat_update hst]

/-- A callback drops its reference. -/
theorem callbackEnd (hw : SessionInv w) (host : Host) {t : SessionId} (ht : w.callback t = true) :
    SessionInv (w.step host (.callbackEnd t)) := by
  refine hw.of_touched (hw.callback_lt ht) rfl (fun haccount ↦ ?_) (fun s hst ↦ ⟨?_, ?_⟩) hw.queue
    rfl rfl
  · simp only [Holders.step, Holders.holders, releaseNufwSession, Sessions.modify_self,
      Function.update_self, Bool.toNat_false] at haccount ⊢
    rw [ht, Bool.toNat_true] at haccount
    refine Accounted.release ?_
    convert haccount using 1
    omega
  · exact Sessions.modify_of_ne _ (fun h ↦ hst (Option.some.inj h).symm) _
  · simp only [Holders.step, Holders.holders, toNat_update hst]

/-- A running callback creates a request. -/
theorem create (hw : SessionInv w) (host : Host) {t : SessionId} {conn : Connection}
    (ht : w.callback t = true) (hconn : AuthreqConn conn) :
    SessionInv (w.step host (.create t conn)) := by
  obtain ⟨p, hp⟩ := hconn.packetId
  refine hw.of_touched (hw.callback_lt ht) rfl (fun haccount ↦ ?_) (fun s hst ↦ ⟨?_, ?_⟩)
    (fun c hc ↦ ?_) rfl rfl
  · have hone : idsOn t { conn with tls := some t } = 1 := by
      rw [idsOn_self rfl, hp, List.length_singleton]
    simp only [Holders.step, Holders.holders, increaseNufwSessionUsage, Sessions.modify_self,
      total_append, total_cons, total_nil, hone] at haccount ⊢
    rw [ht, Bool.toNat_true] at haccount ⊢
    convert haccount.increase (by omega) using 1
    omega
  · exact Sessions.modify_of_ne _ (fun h ↦ hst (Option.some.inj h).symm) _
  · have hzero : idsOn s { conn with tls := some t } = 0 :=
      idsOn_of_ne fun h ↦ hst (Option.some.inj h).symm
    simp only [Holders.step, Holders.holders, total_append, total_cons, total_nil, hzero]
    omega
  · rcases List.mem_append.1 hc with hc | hc
    · exact hw.queue c hc
    · rw [List.mem_singleton.1 hc]
      exact Or.inl ⟨⟨hconn.state, hconn.packetId, hconn.canonical, hconn.version⟩, rfl⟩

/-- The packet of a user arrives. -/
theorem pushUserpckt (hw : SessionInv w) (host : Host) {conn : Connection}
    (hconn : UserpcktConn conn) : SessionInv (w.step host (.pushUserpckt conn)) := by
  refine hw.of_moved rfl rfl (fun s ↦ ?_) (fun c hc ↦ ?_) hw.entries hw.leaving
  · simp only [Holders.step, Holders.holders, total_append, total_cons, total_nil,
      idsOn_of_nil hconn.packetId]
    omega
  · rcases List.mem_append.1 hc with hc | hc
    · exact hw.queue c hc
    · rw [List.mem_singleton.1 hc]
      exact Or.inr hconn

/-- A connection becomes an entry. -/
theorem insert (hw : SessionInv w) (host : Host) : SessionInv (w.step host .insert) := by
  rw [Holders.step]
  cases hq : w.queue with
  | nil => exact hw
  | cons new queue =>
    have hqueue := hw.queue
    rw [hq, List.forall_mem_cons] at hqueue
    refine hw.of_moved rfl rfl (fun s ↦ ?_) hqueue.2 ?_ hw.leaving
    · simp only [Holders.holders, hq, total_cons]
      omega
    · rw [List.forall_mem_cons]
      exact ⟨hqueue.1.holderConn, hw.entries⟩

/-- A connection meets an entry. -/
theorem fill (hw : SessionInv w) (host : Host) {i : ℕ} (hok : Balanced w (.fill i)) :
    SessionInv (w.step host (.fill i)) := by
  rw [Holders.step]
  cases hq : w.queue with
  | nil => exact hw
  | cons new queue =>
    cases hi : w.connList[i]? with
    | none => exact hw
    | some packet =>
      obtain ⟨l₁, l₂, hlist, herase⟩ := exists_split_of_getElem? hi
      have hqueue := hw.queue
      rw [hq, List.forall_mem_cons] at hqueue
      have hpacket := hw.entries packet (List.mem_of_getElem? hi)
      have hcount : ∀ s, w.holders s = (w.loop s).toNat + (w.callback s).toNat +
          total (idsOn s) queue + total (idsOn s) (l₁ ++ l₂) + total (idsOn s) w.leaving +
          idsOn s new + idsOn s packet := by
        intro s
        simp only [Holders.holders, hq, total_cons, total_split hlist]
        omega
      dsimp only
      rw [herase]
      refine ⟨fun s hs ↦ ?_, fun s hs ↦ ?_, hqueue.2, ?_, hw.leaving⟩
      · have haccount := hw.accounts s hs
        rw [hcount] at haccount
        have hfilled := accounted_fill host hqueue.1 hpacket
          (hok new queue packet hq hi) s haccount
        convert hfilled using 1
        simp only [Holders.holders, total_cons]
        omega
      · have hzero := hw.fresh s hs
        rw [hcount] at hzero
        have hfilled := idsOn_fill_of_zero host (h := w.sessions) (s := s) hqueue.1
          hpacket (by omega) (by omega)
        simp only [Holders.holders, total_cons, hfilled]
        omega
      · rw [List.forall_mem_cons]
        exact ⟨HolderConn.fill hqueue.1 hpacket, fun c hc ↦ hw.entries c (mem_of_split hlist hc)⟩

/-- An entry is ready. -/
theorem ready (hw : SessionInv w) (host : Host) {i : ℕ} {packet : Connection}
    (hi : w.connList[i]? = some packet) (hp : packet.state = .completing) :
    SessionInv (w.step host (.ready i)) := by
  obtain ⟨l₁, l₂, hlist, herase⟩ := exists_split_of_getElem? hi
  have hpacket := hw.entries packet (List.mem_of_getElem? hi)
  rw [Holders.step, hi]
  dsimp only
  rw [herase]
  refine hw.of_moved rfl rfl (fun s ↦ ?_) hw.queue ?_ hw.leaving
  · simp only [Holders.holders, total_cons, total_split hlist]
    rfl
  · rw [List.forall_mem_cons]
    exact ⟨⟨Or.inr (Or.inr (Or.inr rfl)), fun _ ↦ hpacket.request (by simp [hp]),
      fun h ↦ (by cases h), hpacket.session⟩, fun c hc ↦ hw.entries c (mem_of_split hlist hc)⟩

/-- An entry leaves the hash. -/
theorem leave (hw : SessionInv w) (host : Host) (i : ℕ) :
    SessionInv (w.step host (.leave i)) := by
  rw [Holders.step]
  cases hi : w.connList[i]? with
  | none => exact hw
  | some packet =>
    obtain ⟨l₁, l₂, hlist, herase⟩ := exists_split_of_getElem? hi
    have hpacket := hw.entries packet (List.mem_of_getElem? hi)
    refine hw.of_moved rfl rfl (fun s ↦ ?_) hw.queue
      (fun c hc ↦ hw.entries c (List.mem_of_mem_eraseIdx hc)) ?_
    · simp only [Holders.holders, herase, total_cons, total_split hlist]
      omega
    · rw [List.forall_mem_cons]
      exact ⟨fun h ↦ (hpacket.session h).1, hw.leaving⟩

/-- The next identifier of a connection that leaves is answered. -/
theorem answer (hw : SessionInv w) (host : Host) (i : ℕ) :
    SessionInv (w.step host (.answer i)) := by
  rw [Holders.step]
  cases hi : w.leaving[i]? with
  | none => exact hw
  | some element =>
    obtain ⟨l₁, l₂, hlist, herase⟩ := exists_split_of_getElem? hi
    have helement := hw.leaving element (List.mem_of_getElem? hi)
    have hcount : ∀ s, w.holders s = (w.loop s).toNat + (w.callback s).toNat +
        total (idsOn s) w.queue + total (idsOn s) w.connList + total (idsOn s) (l₁ ++ l₂) +
        idsOn s element := by
      intro s
      simp only [Holders.holders, total_split hlist]
      omega
    dsimp only
    rw [herase]
    refine ⟨fun s hs ↦ ?_, fun s hs ↦ ?_, hw.queue, hw.entries, ?_⟩
    · have haccount := hw.accounts s hs
      rw [hcount] at haccount
      have hanswered := accounted_answer host helement s haccount
      convert hanswered using 1
      simp only [Holders.holders, total_cons]
      omega
    · have hzero := hw.fresh s hs
      rw [hcount] at hzero
      have hdropped : idsOn s element.dropPacketId ≤ idsOn s element := idsOn_dropPacketId_le
      simp only [Holders.holders, total_cons]
      omega
    · rw [List.forall_mem_cons]
      refine ⟨fun h ↦ helement fun hnil ↦ h ?_, fun c hc ↦ hw.leaving c (mem_of_split hlist hc)⟩
      simp [Connection.dropPacketId, hnil]

/-- Every balanced step keeps the invariant. -/
theorem step (hw : SessionInv w) (host : Host) {e : SessionEvent} (he : w.enabled host e)
    (hok : Balanced w e) : SessionInv (w.step host e) := by
  cases e with
  | loopStart => exact hw.loopStart host
  | loopEnd s => exact hw.loopEnd host he.1
  | callbackStart s => exact hw.callbackStart host he.1 (Bool.not_eq_true _ ▸ he.2)
  | callbackEnd s => exact hw.callbackEnd host he
  | treatFailure s => exact hok.elim
  | create s conn => exact hw.create host he.1 he.2
  | pushUserpckt conn => exact hw.pushUserpckt host he
  | insert => exact hw.insert host
  | fill i => exact hw.fill host hok
  | ready i =>
    obtain ⟨packet, hi, hp⟩ := he
    exact hw.ready host hi hp
  | leave i => exact hw.leave host i
  | answer i => exact hw.answer host i

end SessionInv

/-! ### The result -/

/-- The usage of a session is the number of its holders, and it has been cleaned at most once, when
nothing held it any more. -/
def UsageExact (w : Holders) (s : SessionId) : Prop :=
  (w.sessions s).usage = w.holders s ∧ (w.sessions s).cleaned ≤ 1 ∧
    ((w.sessions s).cleaned ≠ 0 → w.holders s = 0)

theorem Accounted.usageExact {w : Holders} {s : SessionId}
    (h : Accounted (w.sessions s) (w.holders s)) : UsageExact w s := by
  obtain ⟨husage, hcleaned⟩ := h
  refine ⟨husage, ?_, fun hne ↦ ?_⟩
  · rw [hcleaned]
    split_ifs <;> omega
  · rw [hcleaned] at hne
    split_ifs at hne with hcond
    · exact hcond.2
    · exact absurd rfl hne

/-- **The usage of the sessions is exact** in every run of balanced steps. -/
theorem usage_exact_of_balanced {host : Host} {w : Holders}
    (h : (sessionMachine host).Reach Balanced w) : ∀ s < w.allocated, UsageExact w s := by
  have hinv : SessionInv w := by
    refine h.invariant ?_ ?_
    · rintro w ⟨h, rfl⟩
      exact SessionInv.start h
    · intro w e hw he hok
      exact hw.step host he hok
  exact fun s hs ↦ (hinv.accounts s hs).usageExact

/-- A gateway announces a request and is answered; then it goes away. -/
def sessionRun : List SessionEvent :=
  [.loopStart, .callbackStart 0, .create 0 (Connection.request 1 0 6), .callbackEnd 0, .insert,
    .leave 0, .answer 0, .loopEnd 0]

/-- The session of that gateway is cleaned, when nothing holds it any more. -/
theorem usage_exact_of_single_session :
    let w := (sessionMachine Host.sample).run (Holders.start fun _ ↦ NufwSession.new) sessionRun
    (w.sessions 0).cleaned = 1 ∧ UsageExact w 0 := by
  intro w
  refine ⟨by decide, usage_exact_of_balanced
    ((sessionMachine Host.sample).reach_run ⟨fun _ ↦ NufwSession.new, rfl⟩ sessionRun ?_) 0
    (by decide)⟩
  refine ⟨trivial, trivial, ⟨rfl, by decide⟩, trivial,
    ⟨rfl, Connection.request_authreqConn 1 0 (by decide)⟩, trivial, rfl, trivial,
    ⟨_, _, rfl, by decide⟩, trivial, Nat.zero_lt_succ _, trivial, Nat.zero_lt_succ _,
    trivial, ⟨rfl, by decide⟩, trivial, trivial⟩

/-- A gateway announces a connection, its user completes it, and a second gateway announces it
too; then the first one goes away, and the connection is answered. -/
def sharedRun : List SessionEvent :=
  [.loopStart, .loopStart, .callbackStart 0, .create 0 (Connection.request 1 0 6), .callbackEnd 0,
    .pushUserpckt (Connection.userPacket 7), .insert, .fill 0, .callbackStart 1,
    .create 1 (Connection.request 2 1 6), .callbackEnd 1, .fill 0, .loopEnd 0, .leave 0, .answer 0]

/-- **The session of the first gateway is cleaned while a connection still holds it**, and the one
of the second is never released. -/
theorem usage_inexact_of_shared_entry :
    let w := (sessionMachine Host.sample).run (Holders.start fun _ ↦ NufwSession.new) sharedRun
    (sessionMachine Host.sample).Reachable w ∧
      ((w.sessions 0).cleaned = 1 ∧ w.holders 0 = 1) ∧
      ((w.sessions 1).usage = 2 ∧ w.holders 1 = 1) ∧
      ¬∀ s < w.allocated, UsageExact w s := by
  intro w
  have hfirst : (w.sessions 0).cleaned = 1 ∧ w.holders 0 = 1 := by decide
  refine ⟨(sessionMachine Host.sample).reach_run ⟨fun _ ↦ NufwSession.new, rfl⟩ sharedRun ?_,
    hfirst, by decide, fun hall ↦ ?_⟩
  · refine ⟨trivial, trivial, trivial, trivial, ⟨rfl, by decide⟩, trivial,
      ⟨rfl, Connection.request_authreqConn 1 0 (by decide)⟩, trivial, rfl, trivial,
      Connection.userPacket_userpcktConn 7, trivial, ⟨_, _, rfl, by decide⟩, trivial,
      ⟨_, _, _, rfl, rfl, by decide⟩, trivial, ⟨rfl, by decide⟩, trivial,
      ⟨rfl, Connection.request_authreqConn 2 1 (by decide)⟩, trivial, rfl, trivial,
      ⟨_, _, _, rfl, rfl, by decide⟩, trivial, ⟨rfl, by decide⟩, trivial,
      Nat.zero_lt_succ _, trivial, Nat.zero_lt_succ _, trivial, trivial⟩
  · obtain ⟨-, -, hclean⟩ := hall 0 (by decide)
    have hzero := hclean (by rw [hfirst.1]; decide)
    rw [hfirst.2] at hzero
    cases hzero

end Nufw
