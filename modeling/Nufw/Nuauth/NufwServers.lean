import Mathlib.Logic.Function.Basic
import Nufw.Nuauth.Connections

/-!
# Sessions with the gateways

`nufw_servers.c`: a session is kept as long as something uses it. `usage` counts the users by hand,
`alive` tells whether the gateway is still connected, and the memory is released by
`clean_nufw_session` once the session is dead and unused.

The sessions live in a heap that is a function from their number. A `NULL` session is a call that
does nothing; no connection that holds a packet identifier is without one. The clean-ups are
counted (`cleaned`), since a second one is a double free.
-/

namespace Nufw

/-- `nufw_session_t`, as far as its life is concerned. -/
structure NufwSession where
  /-- Number of packets currently depending on this session for their answer. -/
  usage : Int
  alive : Bool
  protoVersion : ℕ
  /-- How many times `clean_nufw_session` has run on it. -/
  cleaned : ℕ
  deriving DecidableEq

/-- The session `tls_nufw_accept` allocates. -/
def NufwSession.new : NufwSession := ⟨0, true, 0, 0⟩

/-- The heap of the sessions. -/
abbrev Sessions := SessionId → NufwSession

/-- `clean_nufw_session`. -/
def cleanNufwSession (s : NufwSession) : NufwSession := { s with cleaned := s.cleaned + 1 }

/-- Apply a function to a session of the heap. -/
def Sessions.modify (h : Sessions) (session : Option SessionId)
    (f : NufwSession → NufwSession) : Sessions :=
  match session with
  | none => h
  | some i => Function.update h i (f (h i))

/-- `g_atomic_int_exchange_and_add` on the usage. -/
def addUsage (n : Int) (s : NufwSession) : NufwSession := { s with usage := s.usage + n }

/-- `increase_nufw_session_usage`. -/
def increaseNufwSessionUsage (h : Sessions) (session : Option SessionId) : Sessions :=
  h.modify session (addUsage 1)

/-- What `declare_dead_nufw_session` does to the session. -/
def NufwSession.declareDead (s : NufwSession) : NufwSession :=
  let s := addUsage (-1) { s with alive := false }
  if s.usage = 0 then cleanNufwSession s else s

/-- `declare_dead_nufw_session`. -/
def declareDeadNufwSession (h : Sessions) (session : Option SessionId) : Sessions :=
  h.modify session NufwSession.declareDead

/-- What `release_nufw_session` does to the session. -/
def NufwSession.release (s : NufwSession) : NufwSession :=
  let s := addUsage (-1) s
  if s.usage = 0 ∧ s.alive = false then cleanNufwSession s else s

/-- `release_nufw_session`. -/
def releaseNufwSession (h : Sessions) (session : Option SessionId) : Sessions :=
  h.modify session NufwSession.release

/-- `nufw_session_send` fails on a dead session, and queues the message otherwise. -/
def nufwSessionSend (h : Sessions) (session : Option SessionId) : NuError :=
  match session with
  | none => .error
  | some i => if (h i).alive then .ok else .error

/-- `merge_nufw_session`: the identifiers of `old` move to the session of `new`. -/
def mergeNufwSession (h : Sessions) (old new : Connection) : Sessions × Connection :=
  if old.tls = new.tls then (h, old)
  else
    let usage : Int := old.packetId.length
    let h := h.modify new.tls (addUsage usage)
    let h := if usage > 1 then h.modify old.tls (addUsage (-usage + 1)) else h
    (releaseNufwSession h old.tls, { old with tls := new.tls })

/-! ### Reading the heap -/

@[simp] theorem Sessions.modify_self (h : Sessions) (i : SessionId)
    (f : NufwSession → NufwSession) : h.modify (some i) f i = f (h i) := by
  simp [Sessions.modify]

theorem Sessions.modify_of_ne (h : Sessions) {i : SessionId} {session : Option SessionId}
    (hi : session ≠ some i) (f : NufwSession → NufwSession) : h.modify session f i = h i := by
  cases session with
  | none => rfl
  | some j => exact Function.update_of_ne (fun hij ↦ hi (by rw [hij])) _ _

theorem mergeNufwSession_of_eq {h : Sessions} {old new : Connection} (htls : old.tls = new.tls) :
    mergeNufwSession h old new = (h, old) := if_pos htls

/-- The session that loses its identifiers: all but one are taken off, and the last is released. -/
theorem mergeNufwSession_old (h : Sessions) {old new : Connection} {i j : SessionId}
    (hold : old.tls = some i) (hnew : new.tls = some j) (hne : i ≠ j) :
    (mergeNufwSession h old new).1 i = (if (old.packetId.length : Int) > 1 then
      addUsage (-old.packetId.length + 1) (h i) else h i).release := by
  have hother : (h.modify (some j) (addUsage old.packetId.length)) i = h i :=
    Sessions.modify_of_ne h (fun hj ↦ hne (Option.some.inj hj).symm) _
  rw [mergeNufwSession, if_neg (by simp [hold, hnew, hne]), hold, hnew]
  show releaseNufwSession _ (some i) i = _
  rw [releaseNufwSession, Sessions.modify_self]
  split_ifs
  · rw [Sessions.modify_self, hother]
  · rw [hother]

/-- The other sessions: the one of `new` gets the identifiers. -/
theorem mergeNufwSession_of_ne (h : Sessions) {old new : Connection} (hne : old.tls ≠ new.tls)
    {s : SessionId} (hs : old.tls ≠ some s) :
    (mergeNufwSession h old new).1 s = h.modify new.tls (addUsage old.packetId.length) s := by
  rw [mergeNufwSession, if_neg hne]
  show releaseNufwSession _ _ s = _
  rw [releaseNufwSession, Sessions.modify_of_ne _ hs]
  split_ifs
  · exact Sessions.modify_of_ne _ hs _
  · rfl

theorem mergeNufwSession_snd (h : Sessions) (old new : Connection) :
    (mergeNufwSession h old new).2 = { old with tls := new.tls } := by
  rw [mergeNufwSession]
  split_ifs with heq
  · rw [← heq]
  · rfl

end Nufw
