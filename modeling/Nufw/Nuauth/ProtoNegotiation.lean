import Nufw.Nuauth.PasswordCheck

/-!
# The protocol of a client

Before a client authenticates, it announces its protocol. `sasl.c` waits for that in an event loop
of its own, whose two callbacks are `sock_activity_cb` and `sock_timeout_cb`: a client that is
silent has the oldest protocol, and one that announces a newer protocol than the server knows is
asked for another one, twice at most (`negotiate_proto_version`). `sasl_user_check` goes on with the
protocols that it knows.

A client can send what it likes, so every message is a text of any length, of which a read takes as
much as it asked for. Both callers put a NUL behind what they have read. The first one leaves room
for that in its buffer; the second one does not, so that a reply which fills it is followed by a NUL
outside (`negotiatesSafely_iff`). All else is right: what is announced elsewhere ends the session.
-/

namespace Nufw

/-- `PROTO_STRING`. -/
def protoString : Bytes := ascii "PROTO"

/-- `PROTO_VERSION_NONE`. -/
def protoVersionNone : Int := 0

/-- `PROTO_VERSION`: the newest protocol. -/
def protoVersion : Int := protoVersionV24

/-- `MAX_TRY`. -/
def maxTry : ℕ := 2

/-- The local buffers that messages are read into. -/
inductive LocalBuffer where
  /-- `buffer` of `sock_activity_cb`. -/
  | buffer
  /-- `data` of `negotiate_proto_version`. -/
  | data
  deriving DecidableEq, Repr

/-- The bytes of a buffer. -/
def LocalBuffer.size : LocalBuffer → ℕ
  | .buffer => 20
  | .data => 10

/-- What the client does. -/
structure Peer where
  /-- Its messages, each for a read; nothing when the read fails. -/
  answer : ℕ → Option Bytes
  /-- Whether it can be written to, for each time. -/
  accepts : ℕ → Bool

/-- `nussl_read`. -/
def nusslReadMessage (answer : Option Bytes) (requested : ℕ) : Option Bytes :=
  answer.map (List.take requested)

/-- A session whose protocol is being negotiated. -/
structure ProtoRun where
  protoVersion : Int
  /-- The indices at which local buffers were written to. -/
  stores : List (LocalBuffer × ℕ)
  /-- How often another protocol was asked for. -/
  offers : ℕ

/-- A buffer is written to. -/
def ProtoRun.store (s : ProtoRun) (b : LocalBuffer) (indices : List ℕ) : ProtoRun :=
  { s with stores := s.stores ++ indices.map fun i ↦ (b, i) }

/-! ### The callbacks -/

/-- A message is an announcement. -/
def isAnnouncement (message : Bytes) : Bool :=
  7 ≤ message.length ∧ protoString.isPrefixOf message

/-- The version in an announcement. -/
def announcedVersion (message : Bytes) : Int := atoi (message.drop 5)

section

variable (peer : Peer)

/-- The loop of `negotiate_proto_version`, for so many tries at most; `false` when it is left by
`return`. -/
def negotiateLoop : ℕ → ProtoRun → Bool × ProtoRun
  | 0, s => (true, s)
  | tries + 1, s =>
    if protoVersion < s.protoVersion then
      -- `snprintf` of `PROTO 6`, with its NUL
      let s := s.store .data (List.range 8)
      if peer.accepts s.offers = false then (false, s)
      else
        let s := { s with offers := s.offers + 1 }
        match nusslReadMessage (peer.answer s.offers) 10 with
        | none => (false, s)
        | some data =>
          let s := s.store .data (List.range data.length)
          if isAnnouncement data then
            negotiateLoop tries
              { s.store .data [data.length] with protoVersion := announcedVersion data }
          else (false, s)
    else (true, s)

/-- `negotiate_proto_version`. -/
def negotiateProtoVersion (s : ProtoRun) : NuError × ProtoRun :=
  let r := negotiateLoop peer maxTry s
  if r.1 = false then (.error, r.2)
  else if r.2.protoVersion ≤ protoVersion then
    if peer.accepts r.2.offers then (.ok, r.2) else (.error, r.2)
  else (.error, r.2)

/-- `sock_activity_cb` for `EV_READ`. -/
def sockActivityRead (s : ProtoRun) : ProtoRun :=
  let s := s.store .buffer (List.range 20)
  match nusslReadMessage (peer.answer 0) 19 with
  | none => { s with protoVersion := protoVersionNone }
  | some buffer =>
    let s := s.store .buffer (List.range buffer.length)
    if buffer = [] then { s with protoVersion := protoVersionNone }
    else if isAnnouncement buffer then
      let s := { s.store .buffer [buffer.length] with protoVersion := announcedVersion buffer }
      if (protoVersionV24 : Int) ≤ s.protoVersion then
        let r := negotiateProtoVersion peer s
        if r.1 = .ok then r.2 else { r.2 with protoVersion := protoVersionNone }
      else if s.protoVersion = protoVersionV22 ∨ s.protoVersion = protoVersionV22_1 ∨
          s.protoVersion = protoVersionV24 then s
      else { s with protoVersion := protoVersionNone }
    else { s with protoVersion := protoVersionNone }

/-- `sock_timeout_cb`. -/
def sockTimeout (s : ProtoRun) : ProtoRun :=
  if s.protoVersion = protoVersionNone then { s with protoVersion := protoVersionV20 } else s

/-- What ends the event loop: the timer, an error at the socket, or a message there. The timer can
have expired in the other cases as well. Expired timers are queued behind the events of the socket,
and callbacks are called in reverse order. -/
inductive Wakeup where
  | timeout
  | error (timedOut : Bool)
  | message (timedOut : Bool)
  deriving DecidableEq, Repr

/-- The event loop of `get_proto_info`. -/
def protoLoop : Wakeup → ProtoRun → ProtoRun
  | .timeout, s => sockTimeout s
  | .error timedOut, s =>
    let s := if timedOut then sockTimeout s else s
    { s with protoVersion := protoVersionNone }
  | .message timedOut, s => sockActivityRead peer (if timedOut then sockTimeout s else s)

/-- `get_proto_info`. -/
def getProtoInfo (w : Wakeup) : NuError × ProtoRun :=
  let s := protoLoop peer w ⟨protoVersionNone, [], 0⟩
  (if s.protoVersion = protoVersionNone then .error else .ok, s)

end

/-! ### Authentication -/

/-- The two ways to authenticate. -/
inductive Exchange where
  /-- `mysasl_negotiate`. -/
  | negotiate
  /-- `mysasl_negotiate_v3`. -/
  | negotiateV3
  deriving DecidableEq, Repr

/-- What the other functions return. -/
structure LoginEnv where
  /-- `sasl_server_new`, and the properties that are set. -/
  setup : SaslResult
  exchange : Exchange → SaslResult
  /-- `wait_client_os`. -/
  waitClientOs : SaslResult
  /-- `finish_nego`. -/
  finishNego : SaslResult
  /-- `modules_user_session_modify`. -/
  userSessionModify : SaslResult
  /-- `test_username_count_vs_max`, or there is no limit. -/
  countOk : Bool
  /-- `send_nego_end`. -/
  sendNegoEnd : SaslResult

/-- What `sasl_user_check` has done. -/
structure UserCheck where
  result : SaslResult
  exchange : Option Exchange
  run : ProtoRun

section

variable (env : LoginEnv) (peer : Peer) (w : Wakeup)

/-- The exchange for a protocol. -/
def exchangeFor (version : Int) : Option Exchange :=
  if version = protoVersionV22 ∨ version = protoVersionV22_1 ∨ version = protoVersionV24 then
    some .negotiate
  else if version = protoVersionV20 then some .negotiateV3
  else none

/-- `sasl_user_check`. -/
def saslUserCheck : UserCheck :=
  if env.setup ≠ .ok then ⟨env.setup, none, ⟨protoVersionNone, [], 0⟩⟩
  else
    let r := getProtoInfo peer w
    if r.1 ≠ .ok then ⟨.badParam, none, r.2⟩
    else
      match exchangeFor r.2.protoVersion with
      | some e => ⟨env.exchange e, some e, r.2⟩
      | none => ⟨.badParam, none, r.2⟩

/-- The end of `tls_sasl_connect`: whether the session is registered. -/
def tlsSaslConnectEnd : Bool :=
  let check := saslUserCheck env peer w
  let version := check.run.protoVersion
  if check.result ≠ .ok then false
  else
    let ret :=
      if version = protoVersionV20 ∨ version = protoVersionV22 ∨ version = protoVersionV22_1 then
        env.waitClientOs
      else if version = protoVersionV24 then env.finishNego
      else check.result
    if ret ≠ .ok then false
    else if env.userSessionModify ≠ .ok then false
    else if env.countOk = false then false
    else if (protoVersionV24 : Int) ≤ version then decide (env.sendNegoEnd = .ok)
    else true

end

/-! ### What is expected -/

/-- **A safe negotiation**: the buffers are written to within their bounds, another protocol is
asked for twice at most, an exchange is for a protocol that is known, the old one exactly for the
oldest protocol, and everything else is an error after which no session is registered. -/
structure NegotiatesSafely (env : LoginEnv) (peer : Peer) (w : Wakeup) : Prop where
  stores : ∀ x ∈ (saslUserCheck env peer w).run.stores, x.2 < x.1.size
  offers : (saslUserCheck env peer w).run.offers ≤ maxTry
  known : ∀ e, (saslUserCheck env peer w).exchange = some e →
    (saslUserCheck env peer w).run.protoVersion ∈
        [(protoVersionV20 : Int), (protoVersionV22 : Int), (protoVersionV22_1 : Int),
          (protoVersionV24 : Int)] ∧
      (saslUserCheck env peer w).run.protoVersion ≤ protoVersion ∧
      (e = .negotiateV3 ↔ (saslUserCheck env peer w).run.protoVersion = protoVersionV20)
  other : env.setup = .ok → (saslUserCheck env peer w).exchange = none →
    (saslUserCheck env peer w).result = .badParam
  registered : tlsSaslConnectEnd env peer w = true →
    (saslUserCheck env peer w).exchange.isSome = true

/-- The messages of the client, as they are read. -/
def Peer.message (peer : Peer) (k : ℕ) : Option Bytes :=
  nusslReadMessage (peer.answer k) (if k = 0 then 19 else 10)

/-- The message announces a protocol that is too new, and the client is asked for another one. -/
def Peer.AskedAfter (peer : Peer) (k : ℕ) : Prop :=
  (∃ message, peer.message k = some message ∧ isAnnouncement message = true ∧
    protoVersion < announcedVersion message) ∧ peer.accepts k = true

/-- **No reply fills the buffer**: of the replies that the client is asked for, none that is an
announcement has ten bytes or more. -/
def Peer.RepliesFit (peer : Peer) : Prop :=
  ∀ k < maxTry, (∀ j ≤ k, peer.AskedAfter j) → ∀ reply, peer.message (k + 1) = some reply →
    isAnnouncement reply = true → reply.length < 10

namespace ProtoRun

variable {s : ProtoRun} {b : LocalBuffer} {indices : List ℕ}

/-- The buffers have been written to within their bounds. -/
def Safe (s : ProtoRun) : Prop := ∀ x ∈ s.stores, x.2 < x.1.size

theorem safe_store_iff : (s.store b indices).Safe ↔ s.Safe ∧ ∀ i ∈ indices, i < b.size := by
  simp only [Safe, store, List.forall_mem_append, List.forall_mem_map]

theorem Safe.store_range (h : s.Safe) {n : ℕ} (hn : n ≤ b.size) :
    (s.store b (List.range n)).Safe :=
  safe_store_iff.2 ⟨h, fun _ hi ↦ (List.mem_range.1 hi).trans_le hn⟩

theorem safe_store_singleton_iff {i : ℕ} : (s.store b [i]).Safe ↔ s.Safe ∧ i < b.size := by
  rw [safe_store_iff, List.forall_mem_singleton]

end ProtoRun

section

variable {peer : Peer}

/-- A read takes no more than it asked for. -/
theorem length_le_of_readMessage {answer : Option Bytes} {requested : ℕ} {message : Bytes}
    (h : nusslReadMessage answer requested = some message) : message.length ≤ requested := by
  obtain ⟨bs, -, rfl⟩ := Option.map_eq_some_iff.1 h
  exact List.length_take_le requested bs

/-! ### The loop -/

/-- The client has been asked for another protocol. -/
def ProtoRun.asked (s : ProtoRun) : ProtoRun :=
  { s.store .data (List.range 8) with offers := s.offers + 1 }

/-- And its reply has been read. -/
def ProtoRun.replied (s : ProtoRun) (data : Bytes) : ProtoRun :=
  { (s.asked.store .data (List.range data.length)).store .data [data.length] with
    protoVersion := announcedVersion data }

theorem ProtoRun.safe_asked_iff {s : ProtoRun} : s.asked.Safe ↔ s.Safe := by
  show (s.store .data (List.range 8)).Safe ↔ s.Safe
  rw [safe_store_iff]
  exact and_iff_left (by decide)

/-- A reply that is read into `data` must leave room for the NUL. -/
theorem ProtoRun.safe_replied_iff {s : ProtoRun} {data : Bytes} :
    (s.replied data).Safe ↔ s.Safe ∧ data.length < 10 := by
  show ((s.asked.store .data (List.range data.length)).store .data [data.length]).Safe ↔ _
  rw [safe_store_singleton_iff]
  constructor
  · rintro ⟨h, hlt⟩
    exact ⟨safe_asked_iff.1 (safe_store_iff.1 h).1, hlt⟩
  · rintro ⟨h, hlt⟩
    exact ⟨(safe_asked_iff.2 h).store_range hlt.le, hlt⟩

theorem negotiateLoop_known {s : ProtoRun} (h : ¬protoVersion < s.protoVersion) (tries : ℕ) :
    negotiateLoop peer tries s = (true, s) := by
  cases tries with
  | zero => rfl
  | succ tries => rw [negotiateLoop, if_neg h]

theorem negotiateLoop_refused {s : ProtoRun} (h : protoVersion < s.protoVersion)
    (hrefused : peer.accepts s.offers = false) (tries : ℕ) :
    negotiateLoop peer (tries + 1) s = (false, s.store .data (List.range 8)) := by
  rw [negotiateLoop, if_pos h]
  exact if_pos hrefused

theorem negotiateLoop_asked {s : ProtoRun} (h : protoVersion < s.protoVersion)
    (haccepts : peer.accepts s.offers = true) (tries : ℕ) :
    negotiateLoop peer (tries + 1) s =
      match peer.message (s.offers + 1) with
      | none => (false, s.asked)
      | some data =>
        if isAnnouncement data then negotiateLoop peer tries (s.replied data)
        else (false, s.asked.store .data (List.range data.length)) := by
  have hnot : ¬peer.accepts s.offers = false := by rw [haccepts]; exact Bool.noConfusion
  rw [negotiateLoop, if_pos h]
  exact if_neg hnot

/-- Another protocol is asked for only so often. -/
theorem offers_negotiateLoop_le (tries : ℕ) (s : ProtoRun) :
    (negotiateLoop peer tries s).2.offers ≤ s.offers + tries := by
  induction tries generalizing s with
  | zero => exact le_rfl
  | succ tries ih =>
    by_cases hnew : protoVersion < s.protoVersion
    · cases haccepts : peer.accepts s.offers with
      | false =>
        rw [negotiateLoop_refused hnew haccepts]
        exact Nat.le_add_right _ _
      | true =>
        rw [negotiateLoop_asked hnew haccepts]
        cases peer.message (s.offers + 1) with
        | none => exact Nat.add_le_add_left (Nat.succ_pos tries) _
        | some data =>
          dsimp only
          split_ifs
          · refine (ih _).trans ?_
            show s.offers + 1 + tries ≤ _
            omega
          · exact Nat.add_le_add_left (Nat.succ_pos tries) _
    · rw [negotiateLoop_known hnew]
      exact Nat.le_add_right _ _

/-- What has been written before stays written. -/
theorem safe_of_negotiateLoop {tries : ℕ} {s : ProtoRun}
    (h : (negotiateLoop peer tries s).2.Safe) : s.Safe := by
  induction tries generalizing s with
  | zero => exact h
  | succ tries ih =>
    by_cases hnew : protoVersion < s.protoVersion
    · cases haccepts : peer.accepts s.offers with
      | false =>
        rw [negotiateLoop_refused hnew haccepts] at h
        exact (ProtoRun.safe_store_iff.1 h).1
      | true =>
        rw [negotiateLoop_asked hnew haccepts] at h
        cases hmessage : peer.message (s.offers + 1) with
        | none =>
          rw [hmessage] at h
          exact ProtoRun.safe_asked_iff.1 h
        | some data =>
          rw [hmessage] at h
          dsimp only at h
          split_ifs at h
          · exact (ProtoRun.safe_replied_iff.1 (ih h)).1
          · exact ProtoRun.safe_asked_iff.1 (ProtoRun.safe_store_iff.1 h).1
    · rwa [negotiateLoop_known hnew] at h

/-- **The loop stays within its buffer exactly if** no reply fills it that the client is asked
for. The version is that of the last message. -/
theorem safe_negotiateLoop_iff {tries : ℕ} {s : ProtoRun} (hsafe : s.Safe)
    (hlast : ∃ message, peer.message s.offers = some message ∧ isAnnouncement message = true ∧
      announcedVersion message = s.protoVersion) :
    (negotiateLoop peer tries s).2.Safe ↔
      ∀ k, s.offers ≤ k → k < s.offers + tries →
        (∀ j, s.offers ≤ j → j ≤ k → peer.AskedAfter j) → ∀ reply,
          peer.message (k + 1) = some reply → isAnnouncement reply = true → reply.length < 10 := by
  induction tries generalizing s with
  | zero => exact iff_of_true hsafe fun k hle hlt ↦ absurd hlt (not_lt.2 hle)
  | succ tries ih =>
    obtain ⟨message, hmessage, hannounce, hversion⟩ := hlast
    have hasked : peer.AskedAfter s.offers →
        protoVersion < s.protoVersion ∧ peer.accepts s.offers = true := by
      rintro ⟨⟨message', hmessage', -, hnew⟩, haccepts⟩
      obtain rfl := Option.some.inj (hmessage.symm.trans hmessage')
      exact ⟨hversion ▸ hnew, haccepts⟩
    by_cases hnew : protoVersion < s.protoVersion
    swap
    · rw [negotiateLoop_known hnew]
      exact iff_of_true hsafe fun k hle _ hall ↦ absurd (hasked (hall _ le_rfl hle)).1 hnew
    cases haccepts : peer.accepts s.offers with
    | false =>
      rw [negotiateLoop_refused hnew haccepts]
      refine iff_of_true (hsafe.store_range (by decide)) fun k hle _ hall ↦ ?_
      have htrue := (hasked (hall _ le_rfl hle)).2
      rw [haccepts] at htrue
      cases htrue
    | true =>
      have hfirst : peer.AskedAfter s.offers :=
        ⟨⟨message, hmessage, hannounce, hversion ▸ hnew⟩, haccepts⟩
      -- a later reply is asked for only if this one is an announcement
      have hnext : ∀ k, s.offers < k → (∀ j, s.offers ≤ j → j ≤ k → peer.AskedAfter j) →
          ∃ data, peer.message (s.offers + 1) = some data ∧ isAnnouncement data = true := by
        intro k hlt hall
        obtain ⟨⟨data, hdata, hann, -⟩, -⟩ := hall (s.offers + 1) (Nat.le_succ _) hlt
        exact ⟨data, hdata, hann⟩
      rw [negotiateLoop_asked hnew haccepts]
      cases hreply : peer.message (s.offers + 1) with
      | none =>
        refine iff_of_true (ProtoRun.safe_asked_iff.2 hsafe) fun k hle _ hall reply hk _ ↦ ?_
        obtain rfl | hlt := hle.eq_or_lt
        · rw [hreply] at hk
          cases hk
        · obtain ⟨data, hdata, -⟩ := hnext k hlt hall
          rw [hreply] at hdata
          cases hdata
      | some data =>
        have hlength : data.length ≤ 10 := length_le_of_readMessage hreply
        dsimp only
        by_cases hann : isAnnouncement data = true
        swap
        · rw [if_neg hann]
          refine iff_of_true ((ProtoRun.safe_asked_iff.2 hsafe).store_range hlength)
            fun k hle _ hall reply hk hann' ↦ ?_
          obtain rfl | hlt := hle.eq_or_lt
          · obtain rfl := Option.some.inj (hreply.symm.trans hk)
            exact absurd hann' hann
          · obtain ⟨data', hdata', hann'⟩ := hnext k hlt hall
            obtain rfl := Option.some.inj (hreply.symm.trans hdata')
            exact absurd hann' hann
        rw [if_pos hann]
        by_cases hfits : data.length < 10
        · have hih := ih (ProtoRun.safe_replied_iff.2 ⟨hsafe, hfits⟩)
            ⟨data, hreply, hann, rfl⟩
          rw [hih]
          show (∀ k, s.offers + 1 ≤ k → k < s.offers + 1 + tries →
            (∀ j, s.offers + 1 ≤ j → j ≤ k → peer.AskedAfter j) → _) ↔ _
          constructor
          · intro h k hle hlt hall reply hk hann'
            obtain rfl | hgt := hle.eq_or_lt
            · obtain rfl := Option.some.inj (hreply.symm.trans hk)
              exact hfits
            · exact h k hgt (by omega)
                (fun j hj hjk ↦ hall j ((Nat.le_succ _).trans hj) hjk) reply hk hann'
          · intro h k hle hlt hall
            refine h k ((Nat.le_succ _).trans hle) (by omega) fun j hj hjk ↦ ?_
            obtain rfl | hgt := hj.eq_or_lt
            · exact hfirst
            · exact hall j hgt hjk
        · refine iff_of_false (fun h ↦ ?_) fun h ↦ ?_
          · exact hfits (ProtoRun.safe_replied_iff.1 (safe_of_negotiateLoop h)).2
          · refine hfits (h s.offers le_rfl (by omega) (fun j hj hjk ↦ ?_) data hreply hann)
            rw [le_antisymm hjk hj]
            exact hfirst

/-! ### The callbacks -/

theorem snd_negotiateProtoVersion (s : ProtoRun) :
    (negotiateProtoVersion peer s).2 = (negotiateLoop peer maxTry s).2 := by
  rw [negotiateProtoVersion]
  split_ifs <;> rfl

/-- The announcement of the client has been read. -/
def ProtoRun.announced (s : ProtoRun) (buffer : Bytes) : ProtoRun :=
  { ((s.store .buffer (List.range 20)).store .buffer (List.range buffer.length)).store .buffer
      [buffer.length] with protoVersion := announcedVersion buffer }

/-- The first buffer has room for the NUL. -/
theorem ProtoRun.Safe.announced {s : ProtoRun} (h : s.Safe) {buffer : Bytes}
    (hlength : buffer.length ≤ 19) : (s.announced buffer).Safe := by
  have hlt : buffer.length < LocalBuffer.size .buffer := Nat.lt_succ_of_le hlength
  show ((((s.store .buffer (List.range 20)).store .buffer (List.range buffer.length)).store .buffer
    [buffer.length])).Safe
  rw [safe_store_singleton_iff]
  exact ⟨(h.store_range le_rfl).store_range hlt.le, hlt⟩

/-- **What `sock_activity_cb` does**: with an announcement of a protocol from `PROTO_VERSION_V24` on
it goes on with the loop, and else nothing is asked for. -/
theorem sockActivityRead_cases (s : ProtoRun) :
    (∃ buffer, peer.message 0 = some buffer ∧ isAnnouncement buffer = true ∧
      (sockActivityRead peer s).stores =
        (negotiateLoop peer maxTry (s.announced buffer)).2.stores ∧
      (sockActivityRead peer s).offers =
        (negotiateLoop peer maxTry (s.announced buffer)).2.offers) ∨
    (¬peer.AskedAfter 0 ∧ (s.Safe → (sockActivityRead peer s).Safe) ∧
      (sockActivityRead peer s).offers = s.offers) := by
  rw [sockActivityRead]
  cases hmessage : nusslReadMessage (peer.answer 0) 19 with
  | none =>
    refine Or.inr ⟨?_, fun h ↦ h.store_range le_rfl, rfl⟩
    rintro ⟨⟨message, hsome, -⟩, -⟩
    exact absurd (hmessage.symm.trans hsome) (Option.some_ne_none _).symm
  | some buffer =>
    have hlength := length_le_of_readMessage hmessage
    have hread : s.Safe → ((s.store .buffer (List.range 20)).store .buffer
        (List.range buffer.length)).Safe := fun h ↦
      (h.store_range le_rfl).store_range (hlength.trans (by decide))
    -- the message is what was read
    have hasked : peer.AskedAfter 0 → isAnnouncement buffer = true ∧
        protoVersion < announcedVersion buffer := by
      rintro ⟨⟨message, hsome, hann, hnew⟩, -⟩
      obtain rfl := Option.some.inj (hmessage.symm.trans hsome)
      exact ⟨hann, hnew⟩
    dsimp only
    by_cases hempty : buffer = []
    · rw [if_pos hempty]
      refine Or.inr ⟨fun h ↦ ?_, hread, rfl⟩
      have hann := (hasked h).1
      rw [hempty] at hann
      exact absurd hann (by decide)
    rw [if_neg hempty]
    by_cases hann : isAnnouncement buffer = true
    swap
    · rw [if_neg hann]
      exact Or.inr ⟨fun h ↦ hann (hasked h).1, hread, rfl⟩
    rw [if_pos hann]
    by_cases hnew : (protoVersionV24 : Int) ≤ announcedVersion buffer
    · rw [if_pos hnew]
      refine Or.inl ⟨buffer, hmessage, hann, ?_⟩
      rw [← snd_negotiateProtoVersion]
      split_ifs <;> exact ⟨rfl, rfl⟩
    · rw [if_neg hnew]
      refine Or.inr ⟨fun h ↦ hnew (hasked h).2.le, fun h ↦ ?_, ?_⟩
      · split_ifs <;> exact h.announced hlength
      · split_ifs <;> rfl

theorem safe_sockActivityRead_iff {s : ProtoRun} (hsafe : s.Safe) (hoffers : s.offers = 0) :
    (sockActivityRead peer s).Safe ↔ peer.RepliesFit := by
  obtain ⟨buffer, hmessage, hann, hstores, -⟩ | ⟨hnot, hsafe', -⟩ :=
    @sockActivityRead_cases peer s
  · have hloop := @safe_negotiateLoop_iff peer maxTry (s.announced buffer)
      (hsafe.announced (length_le_of_readMessage hmessage))
      ⟨buffer, by rw [← hmessage]; exact congrArg peer.message hoffers, hann, rfl⟩
    have hzero : (s.announced buffer).offers = 0 := hoffers
    rw [hzero, Nat.zero_add] at hloop
    rw [ProtoRun.Safe, hstores, ← ProtoRun.Safe, hloop]
    constructor
    · intro h k hlt hall
      exact h k (Nat.zero_le k) hlt fun j _ hjk ↦ hall j hjk
    · intro h k _ hlt hall
      exact h k hlt fun j hjk ↦ hall j (Nat.zero_le j) hjk
  · exact iff_of_true (hsafe' hsafe) fun k _ hall ↦ absurd (hall 0 (Nat.zero_le k)) hnot

theorem offers_sockActivityRead_le {s : ProtoRun} (hoffers : s.offers = 0) :
    (sockActivityRead peer s).offers ≤ maxTry := by
  obtain ⟨buffer, -, -, -, hsame⟩ | ⟨-, -, hsame⟩ := @sockActivityRead_cases peer s
  · have hle := @offers_negotiateLoop_le peer maxTry (s.announced buffer)
    have hzero : (s.announced buffer).offers = 0 := hoffers
    rwa [hzero, Nat.zero_add, ← hsame] at hle
  · rw [hsame, hoffers]
    exact Nat.zero_le _

/-- **The event loop.** -/
theorem protoLoop_spec (w : Wakeup) :
    ((protoLoop peer w ⟨protoVersionNone, [], 0⟩).Safe ↔
        ∀ timedOut, w = .message timedOut → peer.RepliesFit) ∧
      (protoLoop peer w ⟨protoVersionNone, [], 0⟩).offers ≤ maxTry := by
  have hstart : (⟨protoVersionNone, [], 0⟩ : ProtoRun).Safe := List.forall_mem_nil _
  cases w with
  | timeout =>
    exact ⟨iff_of_true (List.forall_mem_nil _) fun _ h ↦ Wakeup.noConfusion h, Nat.zero_le _⟩
  | error timedOut =>
    cases timedOut <;>
      exact ⟨iff_of_true (List.forall_mem_nil _) fun _ h ↦ Wakeup.noConfusion h, Nat.zero_le _⟩
  | message timedOut =>
    have hs : ∀ s : ProtoRun, s.Safe → s.offers = 0 → ((sockActivityRead peer s).Safe ↔
        ∀ timedOut', Wakeup.message timedOut = .message timedOut' → peer.RepliesFit) ∧
        (sockActivityRead peer s).offers ≤ maxTry := by
      intro s hsafe hoffers
      refine ⟨(safe_sockActivityRead_iff hsafe hoffers).trans ?_,
        offers_sockActivityRead_le hoffers⟩
      exact ⟨fun h _ _ ↦ h, fun h ↦ h timedOut rfl⟩
    cases timedOut with
    | false => exact hs _ hstart rfl
    | true => exact hs _ (List.forall_mem_nil _) rfl

/-! ### Authentication -/

variable {env : LoginEnv} {w : Wakeup}

/-- The protocols of an exchange. -/
theorem of_exchangeFor {version : Int} {e : Exchange} (h : exchangeFor version = some e) :
    version ∈ [(protoVersionV20 : Int), (protoVersionV22 : Int), (protoVersionV22_1 : Int),
        (protoVersionV24 : Int)] ∧ version ≤ protoVersion ∧
      (e = .negotiateV3 ↔ version = protoVersionV20) := by
  rw [exchangeFor] at h
  split_ifs at h with hnew hold
  · obtain rfl := Option.some.inj h
    obtain rfl | rfl | rfl := hnew <;> decide
  · obtain rfl := Option.some.inj h
    subst hold
    decide

/-- **What `sasl_user_check` does**: an error before the protocol is known, an exchange, or
`SASL_BADPARAM`. -/
theorem saslUserCheck_cases :
    (env.setup ≠ .ok ∧ saslUserCheck env peer w = ⟨env.setup, none, ⟨protoVersionNone, [], 0⟩⟩) ∨
      (env.setup = .ok ∧ (saslUserCheck env peer w).run = (getProtoInfo peer w).2 ∧
        ((∃ e, exchangeFor (getProtoInfo peer w).2.protoVersion = some e ∧
            (saslUserCheck env peer w).exchange = some e) ∨
          ((saslUserCheck env peer w).exchange = none ∧
            (saslUserCheck env peer w).result = .badParam))) := by
  rw [saslUserCheck]
  by_cases hsetup : env.setup = .ok
  swap
  · exact Or.inl ⟨hsetup, if_pos hsetup⟩
  refine Or.inr ⟨hsetup, ?_⟩
  rw [if_neg (not_not.2 hsetup)]
  dsimp only
  by_cases hinfo : (getProtoInfo peer w).1 = .ok
  · rw [if_neg (not_not.2 hinfo)]
    cases hexchange : exchangeFor (getProtoInfo peer w).2.protoVersion with
    | none => exact ⟨rfl, Or.inr ⟨rfl, rfl⟩⟩
    | some e => exact ⟨rfl, Or.inl ⟨e, rfl, rfl⟩⟩
  · rw [if_pos hinfo]
    exact ⟨rfl, Or.inr ⟨rfl, rfl⟩⟩

/-- A session that is registered has authenticated. -/
theorem result_of_registered (h : tlsSaslConnectEnd env peer w = true) :
    (saslUserCheck env peer w).result = .ok := by
  by_contra hne
  rw [tlsSaslConnectEnd, if_pos hne] at h
  cases h

end

/-- **The negotiation is safe exactly if** no reply fills the buffer that the client is asked
for. -/
theorem negotiatesSafely_iff (env : LoginEnv) (peer : Peer) (w : Wakeup) :
    NegotiatesSafely env peer w ↔
      (env.setup = .ok → ∀ timedOut, w = .message timedOut → peer.RepliesFit) := by
  obtain ⟨hsetup, hcheck⟩ | ⟨hsetup, hrun, hexchange⟩ :=
    @saslUserCheck_cases peer env w
  · refine iff_of_true ⟨?_, ?_, fun e he ↦ ?_, fun h ↦ absurd h hsetup, fun h ↦ ?_⟩ fun h ↦
      absurd h hsetup
    · rw [hcheck]
      exact List.forall_mem_nil _
    · rw [hcheck]
      exact Nat.zero_le _
    · rw [hcheck] at he
      cases he
    · have hok := result_of_registered h
      rw [hcheck] at hok
      exact absurd hok hsetup
  · obtain ⟨hsafe, hoffers⟩ := @protoLoop_spec peer w
    constructor
    · intro h _
      have hstores := h.stores
      rw [hrun] at hstores
      exact hsafe.1 hstores
    · intro h
      have hstores := hsafe.2 (h hsetup)
      refine ⟨?_, ?_, fun e he ↦ ?_, fun _ hnone ↦ ?_, fun hregistered ↦ ?_⟩
      · rw [hrun]
        exact hstores
      · rw [hrun]
        exact hoffers
      · obtain ⟨e', hfor, he'⟩ | ⟨hnone, -⟩ := hexchange
        · obtain rfl := Option.some.inj (he.symm.trans he')
          rw [hrun]
          exact of_exchangeFor hfor
        · rw [hnone] at he
          cases he
      · obtain ⟨e, -, he⟩ | ⟨-, hbad⟩ := hexchange
        · rw [hnone] at he
          cases he
        · exact hbad
      · obtain ⟨e, -, he⟩ | ⟨-, hbad⟩ := hexchange
        · rw [he]
          rfl
        · have hok := result_of_registered hregistered
          rw [hbad] at hok
          cases hok

/-- A client that announces protocol 7, and then 6 in ten bytes. -/
def Peer.padded : Peer where
  answer
    | 0 => some (ascii "PROTO 7")
    | _ => some (ascii "PROTO    6")
  accepts _ := true

/-- Everything works. -/
def LoginEnv.fine : LoginEnv where
  setup := .ok
  exchange _ := .ok
  waitClientOs := .ok
  finishNego := .ok
  userSessionModify := .ok
  countOk := true
  sendNegoEnd := .ok

/-- **A NUL behind the buffer.** -/
theorem padded_not_negotiatesSafely : ¬NegotiatesSafely .fine .padded (.message false) := by
  intro h
  have hmem : (LocalBuffer.data, 10) ∈
      (saslUserCheck .fine .padded (.message false)).run.stores := by decide +kernel
  exact absurd (h.stores _ hmem) (by decide)

end Nufw
