import Nufw.Nuauth.UserAuthsrv

/-!
# The identity of a user

Whatever bytes a client sends, the connections that `user_check_and_decide` pushes carry the
identity of the session they came on (`pushed_identity`). The fields of a message reach the
tracking, the application and the hello identifier only (`Announced`); the rest is copied from the
session, twice for the groups: once into the buffer and once into each connection.

The source address is taken from the session for a packet of the hello mode, and checked against
it for the others when the configuration says so.
-/

namespace Nufw

/-- The connection carries the identity of the session. -/
structure OfUserSession (session : UserSession) (c : Connection) : Prop where
  userId : c.userId = session.userId
  username : c.username = session.userName
  userGroups : c.userGroups = session.groups
  authQuality : c.authQuality = session.authQuality
  osSysname : c.osSysname = session.sysname
  osRelease : c.osRelease = session.release
  osVersion : c.osVersion = session.version
  protoVersion : c.protoVersion = session.protoVersion

/-- Copying the groups twice gives them back in their order. -/
theorem copyGroups_copyGroups (conf : Params) (groups : List GroupData) :
    copyGroups conf (copyGroups conf groups) = groups := by
  unfold copyGroups duplicateStrList
  split_ifs
  · exact List.reverse_reverse groups
  · rfl

/-- What a session says about its user does not depend on its counters. -/
theorem treatUserMessage_bufferRead {conf : Params} {now : Int} {session session' : UserSession}
    {buffer : Memory} {bufferLen : ℕ} {ret : NuError} {data : TlsBufferRead}
    (h : treatUserMessage conf now session buffer bufferLen = (session', ret, some data)) :
    data = session.bufferRead conf buffer bufferLen := by
  rw [treatUserMessage] at h
  dsimp only at h
  split_ifs at h
  · simp at h
  · simp only [Prod.mk.injEq, Option.some.injEq] at h
    rw [← h.2.2]
    rfl
  · simp at h

/-- **The buffer that leaves `treat_user_request`** has the identity of the session. -/
theorem treatUserRequest_bufferRead {conf : Params} {now : Int} {reads : ℕ → Read} {heap : Memory}
    {session session' : UserSession} {ret : NuError} {data : TlsBufferRead}
    (h : treatUserRequest conf now reads heap session = (session', ret, some data)) :
    ∃ buffer bufferLen, data = session.bufferRead conf buffer bufferLen := by
  rw [treatUserRequest] at h
  split at h
  · simp at h
  · dsimp only at h
    split_ifs at h
    · simp at h
    · simp at h
    · split at h
      · simp at h
      · have hdata := treatUserMessage_bufferRead h
        exact ⟨_, _, hdata⟩
    · have hdata := treatUserMessage_bufferRead h
      exact ⟨_, _, hdata⟩

/-- A connection announced on a buffer of the session carries its identity. -/
theorem Announced.ofUserSession {conf : Params} {session : UserSession} {data : TlsBufferRead}
    {c : Connection} (h : Announced conf data c) {buffer : Memory} {bufferLen : ℕ}
    (hdata : data = session.bufferRead conf buffer bufferLen) : OfUserSession session c := by
  rw [h.frame, hdata]
  exact ⟨rfl, rfl, copyGroups_copyGroups conf session.groups, rfl, rfl, rfl, rfl, rfl⟩

/-! ### The loop over the connections -/

/-- What has been pushed so far carries the identity of the session. -/
structure PushedWell (conf : Params) (session : UserSession) (r : UserChecked) : Prop where
  connectionsQueue : ∀ c ∈ r.connectionsQueue, OfUserSession session c ∧ c.packetId = [] ∧
    (conf.userCheckIpEquality = true → c.tracking.saddr = session.addr)
  localidAuthQueue : ∀ c ∈ r.localidAuthQueue, OfUserSession session c ∧ c.packetId ≠ [] ∧
    c.tracking.saddr = session.addr

theorem PushedWell.push {conf : Params} {session : UserSession} {r : UserChecked} {c : Connection}
    (h : PushedWell conf session r) (hc : OfUserSession session c) :
    PushedWell conf session (r.push conf session.addr c) := by
  rw [UserChecked.push]
  split_ifs with hid hspoofed
  · refine ⟨h.connectionsQueue, fun d hd ↦ ?_⟩
    rcases List.mem_append.1 hd with hd | hd
    · exact h.localidAuthQueue d hd
    · rw [List.mem_singleton.1 hd]
      exact ⟨⟨hc.userId, hc.username, hc.userGroups, hc.authQuality, hc.osSysname, hc.osRelease,
        hc.osVersion, hc.protoVersion⟩, hid, rfl⟩
  · exact ⟨h.connectionsQueue, h.localidAuthQueue⟩
  · refine ⟨fun d hd ↦ ?_, h.localidAuthQueue⟩
    rcases List.mem_append.1 hd with hd | hd
    · exact h.connectionsQueue d hd
    · rw [List.mem_singleton.1 hd]
      refine ⟨hc, not_not.1 hid, fun hcheck ↦ ?_⟩
      by_contra hne
      exact hspoofed ⟨hcheck, fun heq ↦ hne (ipv6Equal_iff.1 heq).symm⟩

theorem PushedWell.foldl {conf : Params} {session : UserSession} {connElts : List Connection}
    (helts : ∀ c ∈ connElts, OfUserSession session c) {r : UserChecked}
    (h : PushedWell conf session r) :
    PushedWell conf session (connElts.foldl (UserChecked.push conf session.addr) r) := by
  induction connElts generalizing r with
  | nil => exact h
  | cons c connElts ih =>
    rw [List.forall_mem_cons] at helts
    exact ih helts.2 (h.push helts.1)

/-- Nothing has been pushed. -/
theorem PushedWell.nil {conf : Params} {session session' : UserSession} {ret : NuError} :
    PushedWell conf session ⟨ret, session', [], []⟩ := by
  constructor <;> intro c hc <;> cases hc

/-! ### The result -/

/-- The connections of a message. -/
theorem userpcktDecode_announced {conf : Params} {env : UserEnv} {clock : ℕ → Int} {fuel : ℕ}
    {data : TlsBufferRead} {ret : NuError} {conns : List Connection}
    (h : userpcktDecode conf env clock fuel data = some (ret, conns)) :
    ∀ c ∈ conns, Announced conf { data with buffer := data.buffer.swap16 env.order 2 } c := by
  have hnil : ∀ ret', some (ret', []) = some (ret, conns) → ∀ c ∈ conns,
      Announced conf { data with buffer := data.buffer.swap16 env.order 2 } c := by
    intro ret' h c hc
    rw [← (Prod.mk.inj (Option.some.inj h)).2] at hc
    cases hc
  rw [userpcktDecode] at h
  dsimp only at h
  split_ifs at h
  · exact hnil _ h
  · exact hnil _ h
  · obtain ⟨conns', hconns, heq⟩ := Option.map_eq_some_iff.1 h
    obtain ⟨-, rfl⟩ := Prod.mk.inj heq
    exact userRequest_announced hconns
  · exact hnil _ h
  · exact hnil _ h
  · exact hnil _ h

/-- What has been pushed are the connections of one buffer of the session, in turn. -/
def PushesOf (conf : Params) (session : UserSession) (r : UserChecked) : Prop :=
  ∃ ret session' buffer bufferLen, ∃ conns : List Connection,
    (∀ c ∈ conns, Announced conf (session.bufferRead conf buffer bufferLen) c) ∧
      r = conns.foldl (UserChecked.push conf session.addr) ⟨ret, session', [], []⟩

theorem PushesOf.nil {conf : Params} {session session' : UserSession} {ret : NuError} :
    PushesOf conf session ⟨ret, session', [], []⟩ :=
  ⟨ret, session', fun _ ↦ 0, 0, [], fun _ hc ↦ absurd hc List.not_mem_nil, rfl⟩

theorem userCheckAndDecide_pushesOf {conf : Params} {env : UserEnv} {clock : ℕ → Int} {fuel : ℕ}
    {now : Int} {reads : ℕ → Read} {heap : Memory} {session : UserSession} {r : UserChecked}
    (h : userCheckAndDecide conf env clock fuel now reads heap session = some r) :
    PushesOf conf session r := by
  rw [userCheckAndDecide] at h
  split at h
  · rw [← Option.some.inj h]
    exact PushesOf.nil
  · rw [← Option.some.inj h]
    exact PushesOf.nil
  · next hrequest =>
    obtain ⟨buffer, bufferLen, hdata⟩ := treatUserRequest_bufferRead hrequest
    obtain ⟨⟨ret, conns⟩, hdecode, hr⟩ := Option.map_eq_some_iff.1 h
    have hconns := userpcktDecode_announced hdecode
    rw [hdata] at hconns hr
    rw [← hr]
    split
    · exact PushesOf.nil
    · exact PushesOf.nil
    · exact PushesOf.nil
    · next heq =>
      obtain ⟨-, rfl⟩ := Prod.mk.inj heq
      exact ⟨_, _, _, bufferLen, conns, hconns, rfl⟩
  · rw [← Option.some.inj h]
    exact PushesOf.nil

/-- **Identity cannot be forged by the content of a message.** Whatever has been read on a session,
the connections pushed to either queue carry its identity; those that carry a hello identifier,
and all of them if `user_check_ip_equality` is set, have its address as their source. -/
theorem pushed_identity {conf : Params} {env : UserEnv} {clock : ℕ → Int} {fuel : ℕ} {now : Int}
    {reads : ℕ → Read} {heap : Memory} {session : UserSession} {r : UserChecked}
    (h : userCheckAndDecide conf env clock fuel now reads heap session = some r) :
    ∀ c ∈ r.connectionsQueue ++ r.localidAuthQueue, OfUserSession session c ∧
      (c.packetId ≠ [] ∨ conf.userCheckIpEquality = true → c.tracking.saddr = session.addr) := by
  obtain ⟨ret, session', buffer, bufferLen, conns, hconns, hr⟩ := userCheckAndDecide_pushesOf h
  have hpushed : PushedWell conf session r := by
    rw [hr]
    exact PushedWell.nil.foldl fun c hc ↦ (hconns c hc).ofUserSession rfl
  intro c hc
  rcases List.mem_append.1 hc with hc | hc
  · obtain ⟨hidentity, hid, hsaddr⟩ := hpushed.connectionsQueue c hc
    exact ⟨hidentity, fun hcond ↦ hsaddr (hcond.resolve_left (not_not.2 hid))⟩
  · obtain ⟨hidentity, -, hsaddr⟩ := hpushed.localidAuthQueue c hc
    exact ⟨hidentity, fun _ ↦ hsaddr⟩

/-- What `user_check_and_decide` does with one announcement, read in two parts. -/
def checkedAnnouncement : UserChecked :=
  (userCheckAndDecide Params.default UserEnv.sample (fun _ ↦ 0) 4 0
    (fun k ↦ .data (if k = 0 then synUserMessage.take 4 else synUserMessage.drop 4)) (fun _ ↦ 0)
    UserSession.sample).get (by decide)

/-- The connection it pushes is the one of its user. -/
theorem pushed_identity_of_announcement :
    checkedAnnouncement.connectionsQueue.length = 1 ∧
      ∀ c ∈ checkedAnnouncement.connectionsQueue ++ checkedAnnouncement.localidAuthQueue,
        OfUserSession UserSession.sample c ∧
          (c.packetId ≠ [] ∨ Params.default.userCheckIpEquality = true →
            c.tracking.saddr = UserSession.sample.addr) :=
  ⟨by decide, pushed_identity (Option.some_get _).symm⟩

end Nufw
