import Nufw.Nuauth.Core
import Nufw.Nuauth.Identity
import Nufw.Nuauth.PcktAuthsrv

/-!
# What arrives in the core

The core takes requests and user packets of a certain form (`AuthreqConn`, `UserpcktConn`) as they
come. Here the two parsers are seen to produce nothing else: what `authpckt_decode` returns outside
the hello mode is a request once it has its session, whatever the gateway sent, and what
`user_check_and_decide` pushes to `connections_queue` is a user packet, whatever the client sent.
-/

namespace Nufw

/-- A request that waits for its user is one for the core. -/
theorem Requested.authreqConn {c : Connection} (h : Requested c) (hstate : c.state = .authreq)
    (hversion : KnownVersion c.nufwVersion) (session : SessionId) :
    AuthreqConn (c.ofSession session) where
  state := hstate
  packetId := (h.ofSession session).packetId
  canonical := h.canonical
  version := hversion

/-- **Requests.** -/
theorem authpcktDecode_authreqConn {fuel : ℕ} {conf : Params} {localid : Tracking → Bool}
    {now : Int} {dgram : Memory} {dgramSize : ℕ} {d : Decoded} {c : Connection}
    (h : authpcktDecode fuel conf localid now dgram dgramSize = some d) (hc : d.new.Produces c)
    (hstate : c.state = .authreq) (session : SessionId) : AuthreqConn (c.ofSession session) := by
  obtain ⟨herror, -⟩ | ⟨hknown, -, hnew⟩ | ⟨-, -, hnew⟩ := authpcktDecode_cases h
  · exact absurd (herror ▸ hc) not_produces_error
  · obtain ⟨hrequested, hversion⟩ := authpcktNewConnection_requested hnew hc hstate
    exact hrequested.authreqConn hstate (Or.inr (hversion ▸ hknown)) session
  · obtain ⟨hrequested, hversion⟩ := authpcktNewConnectionV3_requested hnew hc hstate
    exact hrequested.authreqConn hstate (Or.inl hversion) session

/-- What the loop of `user_check_and_decide` pushes to `connections_queue` carries no hello
identifier. -/
theorem mem_connectionsQueue_foldl {conf : Params} {ipAddr : In6Addr} {connElts : List Connection}
    {r : UserChecked} {c : Connection}
    (h : c ∈ (connElts.foldl (UserChecked.push conf ipAddr) r).connectionsQueue) :
    c ∈ r.connectionsQueue ∨ c ∈ connElts ∧ c.packetId = [] := by
  induction connElts generalizing r with
  | nil => exact Or.inl h
  | cons connElt connElts ih =>
    obtain h | ⟨h, hid⟩ := ih h
    · rw [UserChecked.push] at h
      split_ifs at h with hhello hspoofed
      · exact Or.inl h
      · exact Or.inl h
      · obtain h | h := List.mem_append.1 h
        · exact Or.inl h
        · obtain rfl := List.mem_singleton.1 h
          exact Or.inr ⟨List.mem_cons_self, not_not.1 hhello⟩
    · exact Or.inr ⟨List.mem_cons_of_mem _ h, hid⟩

/-- **User packets.** -/
theorem userCheckAndDecide_userpcktConn {conf : Params} {env : UserEnv} {clock : ℕ → Int}
    {fuel : ℕ} {now : Int} {reads : ℕ → Read} {heap : Memory} {session : UserSession}
    {r : UserChecked}
    (h : userCheckAndDecide conf env clock fuel now reads heap session = some r) :
    ∀ c ∈ r.connectionsQueue, UserpcktConn c := by
  intro c hc
  obtain ⟨ret, session', buffer, bufferLen, conns, hconns, rfl⟩ := userCheckAndDecide_pushesOf h
  obtain hc | ⟨hc, hid⟩ := mem_connectionsQueue_foldl hc
  · exact absurd hc List.not_mem_nil
  · have hannounced := hconns c hc
    refine ⟨by rw [hannounced.frame], hid, hannounced.tracking.resolve_left fun hzero ↦ ?_⟩
    -- the hello mode is the only way to leave the tracking empty
    exact hannounced.saddr hid (by rw [hzero]; rfl)

end Nufw
