import Nufw.Lib.Transition
import Nufw.Nuauth.AclKeys

/-!
# Who owns a new connection

`authpckt_decode` allocates a connection and hands it to its caller through `*conn`, or frees it.
Its caller in `tls_nufw.c`, the loop of `treat_nufw_request`, decodes the messages of a datagram one
after the other with the same variable `current_conn`, which is not initialised, and uses it after
each message for which `NU_EXIT_OK` is returned.

`NewConnection.Owned` is the contract between the two. It is kept by all the messages but those of
two kinds (`Sound`): a UDP, ICMP or ICMPv6 header that is too short, for which the connection is
freed and `NU_EXIT_OK` returned, and a TCP header that is not taken when the address is asked for a
hello, for which `*conn` has been set already. In a datagram with sound messages only, the loop uses
nothing but the connection that the message at hand has allocated.
-/

namespace Nufw

/-! ### The contract -/

/-- **The contract of `authpckt_decode`.** With `NU_EXIT_OK`, `*conn` points to a connection that
the call has allocated, with one packet identifier, and that has not been freed; otherwise the
connection, if there is one, has been freed once and `*conn` does not point to it. -/
structure NewConnection.Owned (r : NewConnection) : Prop where
  ok : r.ret = .ok → ∃ c p, r.Produces c ∧ c.packetId = [p]
  failed : r.ret ≠ .ok → r.returned = false ∧ r.freed = if r.connection.isSome then 1 else 0

/-- The transport header does not break the contract. -/
def SoundTransport (hello : Bool) (t : Tracking) (size : ℕ) (header : Memory) (msgType : UInt8) :
    Prop :=
  if t.protocol = ipprotoTcp then hello = true → TcpTaken size header msgType
  else t.Supported → 8 ≤ size

/-- The datagram of a message does not break the contract. -/
def SoundDgram (fuel : ℕ) (conf : Params) (localid : Tracking → Bool) (dgram : Memory) (size : ℕ)
    (msgType : UInt8) : Prop :=
  ∀ t offset, getIpHeaders fuel Tracking.zero dgram size = some (t, offset) → offset ≠ 0 →
    SoundTransport (conf.helloAuthentication && localid t) t (transportRoom size offset)
      (dgram.drop offset) msgType

/-- The size of the header of a message, by its protocol. -/
def authMessageSize (version : ℕ) : ℕ :=
  if version = protoVersionNufwV20 then nuv3AuthMessageSize else nuv4AuthMessageSize

/-- A message that does not break the contract: it is refused before anything is allocated, or its
datagram is sound. -/
def Sound (fuel : ℕ) (conf : Params) (localid : Tracking → Bool) (msg : Memory) (msgSize : ℕ) :
    Prop :=
  KnownVersion (msg 0).toNat → msg 1 = authRequest ∨ msg 1 = authControl →
    authMessageSize (msg 0).toNat ≤ msgSize →
      SoundDgram fuel conf localid (msg.drop (authMessageSize (msg 0).toNat))
        (msgSize - authMessageSize (msg 0).toNat) (msg 1)

theorem owned_error : NewConnection.error.Owned where
  ok h := nomatch h
  failed _ := ⟨rfl, rfl⟩

/-- The connection of a sound datagram. -/
theorem owned_iff_soundDgram {fuel : ℕ} {conf : Params} {localid : Tracking → Bool} {now : Int}
    {msg dgram : Memory} {nufwVersion size : ℕ} {msgType : UInt8} {r : NewConnection}
    {f : Connection → Connection} (hf : ∀ c, (f c).packetId = c.packetId)
    (h : (parseDgram fuel conf localid (newConnection now msg nufwVersion) dgram size
      msgType).map (fun r ↦ if r.ret ≠ .continue then r
        else ⟨.ok, r.connection.map f, true, r.freed⟩) = some r) :
    r.Owned ↔ SoundDgram fuel conf localid dgram size msgType := by
  obtain ⟨r', hr', hr⟩ := Option.map_eq_some_iff.1 h
  obtain ⟨t, offset, hip, hcase⟩ := parseDgram_cases hr'
  -- the headers are those the condition speaks of
  have hsound : SoundDgram fuel conf localid dgram size msgType ↔ (offset ≠ 0 →
      SoundTransport (conf.helloAuthentication && localid t) t (transportRoom size offset)
        (dgram.drop offset) msgType) := by
    constructor
    · intro hall
      exact hall t offset hip
    · intro hone t' offset' hip'
      obtain ⟨rfl, rfl⟩ := Prod.mk.inj (Option.some.inj (hip.symm.trans hip'))
      exact hone
  rw [hsound]
  obtain ⟨hzero, c, rfl⟩ | ⟨hne, c, rfl, hstate, hcase⟩ := hcase
  · -- no IP header
    rw [← hr]
    exact iff_of_true ⟨(fun h ↦ nomatch h), fun _ ↦ ⟨rfl, rfl⟩⟩ fun hne ↦ absurd hzero hne
  have hne' : ∀ {p : Prop}, (offset ≠ 0 → p) ↔ p := ⟨fun h ↦ h hne, fun h _ ↦ h⟩
  rw [hne', SoundTransport]
  obtain ⟨ret, htransport, rfl⟩ | ⟨t', c', htransport, hpacketId, rfl⟩ := hcase
  · -- the connection has been freed
    have hnot := mt parseTransport_ok_iff.2 (fun h ↦ nomatch htransport.symm.trans h.choose_spec)
    have hret := parseTransport_error htransport
    rw [if_pos
      (fun hcontinue : ret = _ ↦ parseTransport_ne_continue (hcontinue ▸ htransport))] at hr
    rw [← hr]
    split_ifs at hnot hret ⊢ with htcp hsupported
    · rw [hret]
      constructor
      · intro howned hhello
        exact absurd (howned.failed (by simp)).1 (by simp [hhello])
      · intro htaken
        exact ⟨(fun h ↦ nomatch h),
          fun _ ↦ ⟨Bool.eq_false_iff.2 fun hhello ↦ hnot (htaken hhello), rfl⟩⟩
    · refine iff_of_false (fun howned ↦ ?_) fun h ↦ hnot (h hsupported)
      obtain ⟨c', p, ⟨-, -, -, hfreed⟩, -⟩ := howned.ok hret
      cases hfreed
    · rw [hret]
      refine iff_of_true ⟨(fun h ↦ nomatch h), fun _ ↦ ⟨?_, rfl⟩⟩ fun h ↦ absurd h hsupported
      exact Bool.eq_false_iff.2 fun hhello ↦ hnot (hstate.2 hhello)
  · -- both headers are taken
    rw [← hr]
    have hok := parseTransport_ok_iff.1 ⟨t', htransport⟩
    refine iff_of_true ⟨fun _ ↦ ?_, fun h ↦ absurd rfl h⟩ ?_
    · exact ⟨f c', _, ⟨rfl, rfl, rfl, rfl⟩, (hf c').trans hpacketId⟩
    · split_ifs at hok ⊢ with htcp hsupported
      · exact fun _ ↦ hok
      · exact fun _ ↦ hok
      · exact fun h ↦ absurd h hsupported

/-- The connection of a message. -/
theorem owned_iff_sound {fuel : ℕ} {conf : Params} {localid : Tracking → Bool} {now : Int}
    {msg : Memory} {msgSize : ℕ} {d : Decoded}
    (h : authpcktDecode fuel conf localid now msg msgSize = some d) :
    d.new.Owned ↔ Sound fuel conf localid msg msgSize := by
  obtain ⟨herror, hunknown⟩ | ⟨hversion, htype, hnew⟩ | ⟨hversion, htype, hnew⟩ :=
    authpcktDecode_cases h
  · rw [herror]
    exact iff_of_true owned_error fun hknown htype ↦ absurd ⟨hknown, htype⟩ hunknown
  · have hne : (msg 0).toNat ≠ protoVersionNufwV20 := by
      rcases hversion with hv | hv <;> rw [hv] <;> decide
    have hknown : KnownVersion (msg 0).toNat := Or.inr hversion
    rw [Sound, authMessageSize, if_neg hne, forall_prop_of_true hknown, forall_prop_of_true htype]
    rw [authpcktNewConnection] at hnew
    split_ifs at hnew with hsize
    · rw [← Option.some.inj hnew]
      exact iff_of_true owned_error fun hle ↦ absurd hsize (by omega)
    · rw [forall_prop_of_true (by omega)]
      exact owned_iff_soundDgram (parseV4Fields_packetId msg) hnew
  · have hknown : KnownVersion (msg 0).toNat := Or.inl hversion
    rw [Sound, authMessageSize, if_pos hversion, forall_prop_of_true hknown,
      forall_prop_of_true htype]
    rw [authpcktNewConnectionV3] at hnew
    split_ifs at hnew with hsize
    · rw [← Option.some.inj hnew]
      exact iff_of_true owned_error fun hle ↦ absurd hsize (by omega)
    · rw [forall_prop_of_true (by omega)]
      rw [returns_eq_map_id] at hnew
      exact owned_iff_soundDgram (fun _ ↦ rfl) hnew

/-! ### The loop -/

/-- A value of `current_conn`: it may be anything before it is set. -/
inductive ConnPtr where
  | null
  | wild
  /-- The connection allocated in a turn of the loop. -/
  | new (turn : ℕ)
  deriving DecidableEq

/-- A use of `current_conn` after a message: it is queued, or answered and freed. -/
structure Use where
  conn : ConnPtr
  turn : ℕ
  /-- How many times the connection of the message has been freed. -/
  freed : ℕ
  queued : Bool

/-- The connection used is the one of the message, and it has not been freed. -/
def Use.Fresh (u : Use) : Prop := u.conn = .new u.turn ∧ u.freed = 0

/-- The loop of `treat_nufw_request` between two messages. -/
structure RequestLoop where
  dgram : Memory
  dgramSize : ℕ
  currentConn : ConnPtr
  turn : ℕ
  uses : List Use
  /-- The function has returned from within the loop. -/
  returned : Bool

/-- What a turn of the loop finds outside the message. -/
structure Surroundings where
  fuel : ℕ
  localid : Tracking → Bool
  now : Int
  /-- `loggers_pool_full`. -/
  loggersPoolFull : Bool

namespace RequestLoop

/-- The message is decoded. -/
def decode (conf : Params) (s : RequestLoop) (e : Surroundings) : Option Decoded :=
  authpcktDecode e.fuel conf e.localid e.now s.dgram s.dgramSize

/-- One turn, with what `authpckt_decode` has left. -/
def next (conf : Params) (s : RequestLoop) (e : Surroundings) (d : Decoded) : RequestLoop :=
  let currentConn := if d.new.returned then .new s.turn else s.currentConn
  let s' : RequestLoop :=
    { s with
      dgram := s.dgram.drop d.advance
      dgramSize := d.dgramSize
      currentConn := currentConn
      turn := s.turn + 1 }
  match d.new.ret with
  -- the session is declared dead
  | .error => { s' with returned := true }
  | .ok =>
    if currentConn = .null then s'
    else
      let dropped := conf.dropIfNoLogging && e.loggersPoolFull
      { s' with
        uses := s.uses ++ [⟨currentConn, s.turn, d.new.freed, !dropped⟩]
        returned := dropped }
  | _ => s'

/-- One turn of the loop. -/
def step (conf : Params) (s : RequestLoop) (e : Surroundings) : RequestLoop :=
  match s.decode conf e with
  | none => s
  | some d => s.next conf e d

end RequestLoop

/-- The loop as a machine. It starts on any datagram with any value of `current_conn`; a turn can be
taken if the message is decoded at all. -/
def requestLoop (conf : Params) : Machine RequestLoop Surroundings where
  init s := s.turn = 0 ∧ s.uses = [] ∧ s.returned = false
  enabled s e := s.returned = false ∧ (s.turn = 0 ∨ 0 < s.dgramSize) ∧ (s.decode conf e).isSome
  step s e := s.step conf e

/-- A turn with a sound message adds a fresh use at most. -/
theorem uses_next {conf : Params} {s : RequestLoop} {e : Surroundings} {d : Decoded}
    (howned : d.new.Owned) :
    (s.next conf e d).uses = s.uses ∨
      ∃ u : Use, u.Fresh ∧ (s.next conf e d).uses = s.uses ++ [u] := by
  rw [RequestLoop.next]
  dsimp only
  split
  · exact Or.inl rfl
  · next hret =>
    obtain ⟨c, p, ⟨-, -, hreturned, hfreed⟩, -⟩ := howned.ok hret
    rw [hreturned, if_pos rfl, if_neg (by simp)]
    exact Or.inr ⟨_, ⟨rfl, hfreed⟩, rfl⟩
  · exact Or.inl rfl

/-- **Ownership of new connections.** A call of `authpckt_decode`, whatever the message, the
configuration and the value of `*conn`, keeps the contract exactly when the message is sound; and
along any run of the loop of `treat_nufw_request` over a datagram whose messages are all sound,
every use of `current_conn` is one of the connection that the message at hand has allocated, not
freed. -/
theorem connections_owned (conf : Params) :
    (∀ {fuel : ℕ} {localid : Tracking → Bool} {now : Int} {msg : Memory} {msgSize : ℕ}
      {d : Decoded},
      authpcktDecode fuel conf localid now msg msgSize = some d →
        (d.new.Owned ↔ Sound fuel conf localid msg msgSize)) ∧
    ∀ {s : RequestLoop},
      (requestLoop conf).Reach (fun s e ↦ Sound e.fuel conf e.localid s.dgram s.dgramSize) s →
        ∀ u ∈ s.uses, u.Fresh := by
  refine ⟨owned_iff_sound, fun hreach ↦ ?_⟩
  refine hreach.invariant (I := fun s ↦ ∀ u ∈ s.uses, u.Fresh) (fun s hinit u hu ↦ ?_)
    fun s e hfresh henabled hsound ↦ ?_
  · rw [hinit.2.1] at hu
    cases hu
  · obtain ⟨d, hd⟩ := Option.isSome_iff_exists.1 henabled.2.2
    have hstep : (requestLoop conf).step s e = s.next conf e d := by
      show s.step conf e = _
      rw [RequestLoop.step, hd]
    rw [hstep]
    obtain huses | ⟨u, hu, huses⟩ := uses_next ((owned_iff_sound hd).2 hsound)
    · rw [huses]
      exact hfresh
    · rw [huses]
      intro v hv
      exact (List.mem_append.1 hv).elim (hfresh v) fun hv ↦ List.mem_singleton.1 hv ▸ hu

/-! ### Two datagrams -/

/-- The state of the loop before the first message, with `current_conn` as it happens to be. -/
def RequestLoop.start (bytes : Bytes) : RequestLoop :=
  ⟨Memory.ofBytes bytes, bytes.length, .wild, 0, [], false⟩

/-- A quiet moment. -/
def Surroundings.quiet : Surroundings := ⟨1, fun _ ↦ false, 0, false⟩

/-- Outside the hello mode, a datagram with a TCP header is sound. -/
theorem sound_of_tcp {fuel : ℕ} {msg : Memory} {msgSize : ℕ} {localid : Tracking → Bool}
    (h : (getIpHeaders fuel Tracking.zero (msg.drop (authMessageSize (msg 0).toNat))
      (msgSize - authMessageSize (msg 0).toNat)).any (fun r ↦ r.1.protocol = ipprotoTcp) = true) :
    Sound fuel Params.default localid msg msgSize := by
  intro _ _ _ t offset hip _
  rw [hip] at h
  have htcp : t.protocol = ipprotoTcp := of_decide_eq_true h
  rw [SoundTransport, if_pos htcp]
  intro hhello
  cases hhello

/-- Two requests in one datagram: each turn uses the connection it has allocated. -/
theorem two_requests_fresh :
    let s := (requestLoop Params.default).run
      (RequestLoop.start (synAuthRequest 49 ++ synAuthRequest 49)) [.quiet, .quiet]
    s.uses.map (fun u ↦ u.conn) = [.new 0, .new 1] ∧ ∀ u ∈ s.uses, u.Fresh := by
  intro s
  refine ⟨by decide +kernel, (connections_owned Params.default).2 ?_⟩
  refine Machine.reach_run (requestLoop Params.default) ⟨rfl, rfl, rfl⟩ [.quiet, .quiet] ?_
  exact ⟨⟨rfl, Or.inl rfl, by decide +kernel⟩, sound_of_tcp (by decide +kernel),
    ⟨by decide +kernel, by decide +kernel, by decide +kernel⟩, sound_of_tcp (by decide +kernel),
    trivial⟩

/-- A request for a UDP packet of which only four bytes of the header have been sent. -/
def shortUdpRequest : Bytes :=
  [6, 1, 0, 104, 0, 0, 0, 1, 0, 0, 0, 1, 0, 0, 0, 0] ++ List.replicate 64 0 ++
    [0x45, 0, 0, 24, 0, 0, 0, 0, 64, 17, 0, 0, 192, 168, 0, 2, 192, 168, 0, 3, 0x9c, 0x40, 0, 53]

/-- **A short UDP header breaks the contract**: the connection is freed, `NU_EXIT_OK` returned, and
the loop uses a pointer that has never been set. -/
theorem short_udp_not_owned :
    (∃ d, authpcktDecode 1 Params.default (fun _ ↦ false) 0 (Memory.ofBytes shortUdpRequest) 104 =
        some d ∧ ¬d.new.Owned) ∧
      ∃ s, (requestLoop Params.default).Reachable s ∧ ∃ u ∈ s.uses, ¬u.Fresh := by
  constructor
  · have hd : (authpcktDecode 1 Params.default (fun _ ↦ false) 0 (Memory.ofBytes shortUdpRequest)
        104).any (fun d ↦ d.new.ret = .ok ∧ d.new.freed = 1) = true := by decide +kernel
    obtain ⟨d, hd, hbad⟩ := Option.any_eq_true _ _ |>.1 hd
    obtain ⟨hret, hfreed⟩ := of_decide_eq_true hbad
    refine ⟨d, hd, fun howned ↦ ?_⟩
    obtain ⟨c, p, ⟨-, -, -, hzero⟩, -⟩ := howned.ok hret
    rw [hfreed] at hzero
    cases hzero
  · refine ⟨_, Machine.reach_run (requestLoop Params.default)
      (show (requestLoop Params.default).init (RequestLoop.start shortUdpRequest) from
        ⟨rfl, rfl, rfl⟩) [.quiet] ⟨⟨rfl, Or.inl rfl, by decide +kernel⟩, trivial, trivial⟩, ?_⟩
    have huses : ((requestLoop Params.default).run (RequestLoop.start shortUdpRequest)
        [.quiet]).uses.any (fun u ↦ u.conn = .wild) = true := by decide +kernel
    obtain ⟨u, hu, hwild⟩ := List.any_eq_true.1 huses
    refine ⟨u, hu, fun hfresh ↦ ?_⟩
    have hconn := hfresh.1
    rw [of_decide_eq_true hwild] at hconn
    cases hconn

end Nufw
