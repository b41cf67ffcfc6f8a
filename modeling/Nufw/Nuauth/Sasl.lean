import Nufw.Lib.WhileLoop
import Nufw.Nuauth.ProtoNegotiation
import Nufw.Nuauth.TlsSasl

/-!
# Authentication of a client

`sasl.c`, and what `tls_sasl_connect` does around it. A certificate can give the name of a user.
Otherwise the client goes through an exchange of the SASL library, which asks back with
`userdb_checkpass`; the two forms of the exchange are `mysasl_negotiate` and, for the oldest
protocol, `mysasl_negotiate_v3`. What the library does is a parameter (`SaslLibrary`), and so are
the modules that know the users (`UserModules`).

The client sends what it likes. An exchange is `none` when it does not return: the library can go on
asking for ever, and a module that is asked about no name crashes.
-/

namespace Nufw

/-! ### What is outside -/

/-- The results of the functions of the SASL library that are told apart, and the other ones. -/
inductive SaslCode where
  | ok | continued | fail | badParam | badAuth | noUser | noAuthz
  | other (code : ℕ)
  deriving DecidableEq, Repr

/-- `sasl_callback_t`: the list of mechanisms that `SASL_CB_GETOPT` gives, if any, and
`SASL_CB_SERVER_USERDB_CHECKPASS`. -/
structure SaslCallbacks where
  mechList : Option Bytes
  checkpass : Bytes → Bytes → SaslCode

/-- The SASL library, for a server, over its connections. -/
structure SaslLibrary (Conn : Type) where
  /-- `sasl_server_new`, and the security properties. -/
  serverNew : SaslCallbacks → SaslCode × Conn
  /-- `sasl_setprop (conn, SASL_AUTH_EXTERNAL, name)`. -/
  setAuthExternal : Conn → Bytes → SaslCode × Conn
  /-- `sasl_setprop (conn, SASL_SSF_EXTERNAL, 0)`. -/
  setSsfExternal : Conn → SaslCode × Conn
  /-- `sasl_listmech`, with what stands before the mechanisms and behind them. -/
  listmech : Conn → Bytes → Bytes → SaslCode × Bytes
  /-- `sasl_server_start`, for a mechanism and what the client sends first. -/
  serverStart : Conn → Bytes → Option Bytes → SaslCode × Option Bytes × Conn
  /-- `sasl_server_step`. -/
  serverStep : Conn → Bytes → SaslCode × Option Bytes × Conn
  /-- `sasl_getprop (conn, SASL_AUTHUSER, ..)`. -/
  authuser : Conn → SaslCode × Option Bytes

/-- The modules that are asked about users, each list in the order of its hook. -/
structure UserModules where
  userCheck : List (Bytes → Bytes → SaslCode)
  userGroups : List (Bytes → List GroupData)
  userId : List (Bytes → UInt32)
  /-- For the certificate of a session. -/
  certificateToUid : List (Bytes → Option Bytes)

namespace UserModules

variable (modules : UserModules)

/-- The walk over the modules of a hook, until one of them gives something. -/
def firstAnswer {α : Type} [DecidableEq α] (null : α) (answers : List α) : α :=
  (answers.find? (· ≠ null)).getD null

/-- `modules_user_check`. -/
def modulesUserCheck (user pass : Bytes) : SaslCode :=
  if ∃ check ∈ modules.userCheck, check user pass = .ok then .ok else .noAuthz

/-- `modules_get_user_groups`. -/
def modulesGetUserGroups (user : Bytes) : List GroupData :=
  firstAnswer [] (modules.userGroups.map fun groups ↦ groups user)

/-- `modules_get_user_id`. -/
def modulesGetUserId (user : Bytes) : UInt32 :=
  firstAnswer 0 (modules.userId.map fun userId ↦ userId user)

end UserModules

/-- The server, as far as authentication is concerned. -/
structure AuthHost (Conn : Type) where
  library : SaslLibrary Conn
  modules : UserModules
  env : PasswordEnv
  conf : Params
  /-- `nuauth_tls.auth_by_cert`. -/
  authByCert : ℕ
  nuauthUsesFakeSasl : Bool

/-- `NO_AUTH_BY_CERT`. -/
def noAuthByCert : ℕ := 0
/-- `AUTHQ_SASL`. -/
def authqSasl : Int := 3
/-- `AUTHQ_SSL`. -/
def authqSsl : Int := 4

/-! ### The session and the client -/

/-- `auth_type_t`. -/
inductive AuthType where
  | external
  | internal
  deriving DecidableEq, Repr

/-- `user_session_t`, as far as authentication is concerned. -/
structure AuthSession where
  userName : Option Bytes
  groups : List GroupData
  userId : UInt32
  authType : AuthType
  authQuality : Int
  protoVersion : Int
  deriving DecidableEq

/-- As `tls_sasl_connect` allocates it. -/
def AuthSession.new : AuthSession := ⟨none, [], 0, .external, 0, protoVersionNone⟩

/-- The kind of authentication, which depends on whether the certificate gave a name. -/
def AuthSession.chooseType (s : AuthSession) : AuthSession :=
  if s.userName.isSome then { s with authType := .external, authQuality := authqSsl }
  else { s with authType := .internal, authQuality := authqSasl }

/-- A session, with the connection of the SASL library, and what has been read from the client and
written to it. -/
structure Talk (Conn : Type) where
  session : AuthSession
  conn : Conn
  reads : ℕ
  writes : ℕ
  sent : List Bytes

namespace Talk

variable {Conn : Type} (peer : Peer)

/-- `nussl_write` is not negative. -/
def write (data : Bytes) (t : Talk Conn) : Bool × Talk Conn :=
  let ok := peer.accepts t.writes
  (ok, { t with writes := t.writes + 1, sent := if ok then t.sent ++ [data] else t.sent })

/-- `nussl_read`, into a buffer of some size; nothing when it is negative. -/
def read (size : ℕ) (t : Talk Conn) : Option Bytes × Talk Conn :=
  (nusslReadMessage (peer.answer t.reads) size, { t with reads := t.reads + 1 })

/-- `samp_send` is not negative. What is sent is in base 64. -/
def sampSend (data : Bytes) (t : Talk Conn) : Bool × Talk Conn :=
  t.write peer (ascii "S: " ++ saslEncode64 data)

/-- `samp_send`, if there is something to send. -/
def sampSendData (data : Option Bytes) (t : Talk Conn) : Talk Conn :=
  match data with
  | some data => (t.sampSend peer data).2
  -- "No data to send--something's wrong"
  | none => t

/-- The client is told how the loop ended, if its protocol has that. -/
def report (authResult : SaslCode) (t : Talk Conn) : Talk Conn :=
  if (protoVersionV22_1 : Int) ≤ t.session.protoVersion then
    (t.sampSend peer (if authResult = .ok then ascii "Y" else ascii "N")).2
  else t

/-- The exchange ends with some result, which the client is told. -/
def refuse (code : SaslCode) (t : Talk Conn) : SaslCode × Talk Conn :=
  let w := t.write peer (ascii "N")
  (if w.1 then code else .fail, w.2)

end Talk

/-- What a client does when it logs in, and how the rest of its negotiation ends. -/
structure LoginAttempt where
  /-- The certificate of its session. -/
  certificate : Bytes
  wakeup : Wakeup
  /-- While its protocol is negotiated. -/
  proto : Peer
  /-- In the exchange. -/
  peer : Peer
  /-- For so many rounds. -/
  fuel : ℕ
  waitClientOs : SaslCode
  finishNego : SaslCode
  userSessionModify : SaslCode

/-- `SASL_BUF_SIZE`. -/
def saslBufSize : ℕ := 32768

namespace AuthHost

variable {Conn : Type} (host : AuthHost Conn) (peer : Peer)

/-- The text in a buffer that was filled with NULs before a message was read into it. -/
def bufferText (size : ℕ) (buf : Bytes) : Bytes :=
  cString (if buf.length < size then buf else buf ++ host.env.behind)

/-- `samp_recv`, with nothing for an error. -/
def sampRecv (size : ℕ) (t : Talk Conn) : Bytes × Talk Conn :=
  let r := t.read peer size
  match r.1 with
  | none => ([], r.2)
  | some buf =>
    let text := cString (if buf.length < size then buf.drop 3 else (buf ++ host.env.behind).drop 3)
    ((host.env.saslDecode64 text size).getD [], r.2)

/-- `userdb_checkpass`. -/
def userdbCheckpass (user pass : Bytes) : SaslCode :=
  if pass = [] then .badAuth
  else if host.conf.usesUtf8 then
    match host.env.localeFromUtf8 user with
    | none => .noUser
    | some decUser => host.modules.modulesUserCheck decUser pass
  else host.modules.modulesUserCheck user pass

/-! ### `mysasl_negotiate` -/

/-- The answers of the modules about a user, in a session. -/
def withUser (user : Bytes) (s : AuthSession) : AuthSession :=
  { s with
    userName := some user
    groups := host.modules.modulesGetUserGroups user
    userId := host.modules.modulesGetUserId user }

/-- A turn of the loop `while (auth_result == SASL_CONTINUE)`. The state has what is to be sent. -/
def negotiateRound (x : SaslCode × Option Bytes × Talk Conn) :
    (SaslCode × Option Bytes × Talk Conn) ⊕ (SaslCode × Talk Conn) :=
  if x.1 = .continued then
    let r := host.sampRecv peer saslBufSize (x.2.2.sampSendData peer x.2.1)
    let step := host.library.serverStep r.2.conn r.1
    .inl (step.1, step.2.1, { r.2 with conn := step.2.2 })
  else .inr (x.1, x.2.2)

/-- The end of `mysasl_negotiate`, after the loop. -/
def negotiateEnd (authResult : SaslCode) (t : Talk Conn) : SaslCode × Talk Conn :=
  let t := t.report peer authResult
  if t.session.userName.isSome ∧ authResult ≠ .ok then (authResult, t)
  else if t.session.authType ≠ .external then
    let user := host.library.authuser t.conn
    if user.1 ≠ .ok then (user.1, t)
    else
      match user.2 with
      | none => (.badParam, t)
      | some tempname =>
        if authResult ≠ .ok then
          (authResult, { t with session := { t.session with userName := some tempname } })
        else
          let session := host.withUser tempname t.session
          if session.groups = [] then
            -- `user_id` is not asked for
            (.badAuth, { t with session := { session with userId := t.session.userId } })
          else if session.userId = 0 then (.badAuth, { t with session })
          else (.ok, { t with session })
  else (.ok, t)

/-- What the client sends first, behind the mechanism. -/
def initialResponse (buf : Bytes) : Option Bytes :=
  let mech := cString buf
  if mech.length < buf.length then some (buf.drop (mech.length + 1)) else none

/-- `mysasl_negotiate`, from `sasl_server_start` on. -/
def negotiateStart (fuel : ℕ) (mech : Bytes) (initial : Option Bytes) (t : Talk Conn) :
    Option (SaslCode × Talk Conn) :=
  let start := host.library.serverStart t.conn mech initial
  let t := { t with conn := start.2.2 }
  if start.1 ≠ .ok ∧ start.1 ≠ .continued then
    let user := host.library.authuser t.conn
    if user.1 ≠ .ok then some (user.1, t)
    else
      match user.2 with
      | none => some (.badParam, t)
      | some tempname =>
        some (start.1, { t with session := { t.session with userName := some tempname } })
  else
    (WhileLoop.run (host.negotiateRound peer) fuel (start.1, start.2.1, t)).map fun x ↦
      host.negotiateEnd peer x.1 x.2

/-- `mysasl_negotiate`. -/
def mysaslNegotiate (fuel : ℕ) (t : Talk Conn) : Option (SaslCode × Talk Conn) :=
  let mechs := host.library.listmech t.conn [] []
  if mechs.1 ≠ .ok then some (mechs.1, t)
  else
    let w := t.sampSend peer mechs.2
    if w.1 = false then some (.fail, w.2)
    else
      let r := host.sampRecv peer saslBufSize w.2
      -- "client didn't choose mechanism"; `samp_send` is never positive
      if r.1 = [] then some (.fail, (r.2.sampSend peer (ascii "N")).2)
      else host.negotiateStart peer fuel (cString r.1) (initialResponse r.1) r.2

/-! ### `mysasl_negotiate_v3` -/

/-- A turn of the loop `while (r == SASL_CONTINUE)`, which can be left by `return`. The state has
what is to be sent, and `tls_len`, of which as many bytes are sent. -/
def negotiateRoundV3 (x : SaslCode × Option Bytes × ℕ × Talk Conn) :
    (SaslCode × Option Bytes × ℕ × Talk Conn) ⊕ (Except SaslCode SaslCode × Talk Conn) :=
  if x.1 = .continued then
    let w := x.2.2.2.write peer (ascii "C")
    if w.1 = false then .inr (.error .fail, w.2)
    else
      let data := (x.2.1.map fun data ↦ (data ++ host.env.behind).take x.2.2.1).getD []
      let w := w.2.write peer data
      if w.1 = false then .inr (.error .fail, w.2)
      else
        let m := w.2.read peer 8192
        match m.1 with
        | none => .inr (.error .fail, m.2)
        | some buf =>
          let step := host.library.serverStep m.2.conn buf
          let t := { m.2 with conn := step.2.2 }
          if step.1 ≠ .ok ∧ step.1 ≠ .continued then
            let w := t.refuse peer .badParam
            .inr (.error w.1, w.2)
          else .inl (step.1, step.2.1, buf.length, t)
  else .inr (.ok x.1, x.2.2.2)

/-- The end of `mysasl_negotiate_v3`, after the loop. -/
def negotiateEndV3 (r : SaslCode) (t : Talk Conn) : Option (SaslCode × Talk Conn) :=
  if r ≠ .ok then
    match t.session.userName with
    | some _ => some (t.refuse peer .badAuth)
    | none =>
      let user := host.library.authuser t.conn
      if user.1 ≠ .ok then some (user.1, t)
      else
        some (Talk.refuse peer .badAuth
          { t with session := { t.session with userName := user.2 } })
  else
    let t :=
      if t.session.userName.isSome then
        { t with session := { t.session with authType := .external } }
      else t
    let accepted (t : Talk Conn) : SaslCode × Talk Conn :=
      let w := t.write peer (ascii "O")
      (if w.1 then .ok else .fail, w.2)
    if t.session.authType ≠ .external then
      let user := host.library.authuser t.conn
      if user.1 ≠ .ok then some (user.1, t)
      else
        user.2.map fun tempname ↦
          let session := host.withUser tempname t.session
          if session.groups = [] then
            Talk.refuse peer .badAuth
              { t with session := { session with userId := t.session.userId } }
          else accepted { t with session }
    else some (accepted t)

/-- `mysasl_negotiate_v3`, from `sasl_server_start` on. -/
def negotiateStartV3 (fuel : ℕ) (chosenmech : Bytes) (initial : Option Bytes) (tlsLen : ℕ)
    (t : Talk Conn) : Option (SaslCode × Talk Conn) :=
  let start := host.library.serverStart t.conn chosenmech initial
  let t := { t with conn := start.2.2 }
  if start.1 ≠ .ok ∧ start.1 ≠ .continued then
    let user := host.library.authuser t.conn
    let userName := if user.1 = .ok then user.2 else none
    some (Talk.refuse peer .badParam { t with session := { t.session with userName } })
  else
    (WhileLoop.run (host.negotiateRoundV3 peer) fuel (start.1, start.2.1, tlsLen, t)).bind fun x ↦
      match x.1 with
      | .error ret => some (ret, x.2)
      | .ok r => host.negotiateEndV3 peer r x.2

/-- `mysasl_negotiate_v3`. -/
def mysaslNegotiateV3 (fuel : ℕ) (t : Talk Conn) : Option (SaslCode × Talk Conn) :=
  let mechs := host.library.listmech t.conn (ascii "(") (ascii ")")
  if mechs.1 ≠ .ok then some (mechs.1, t)
  else
    let w := t.write peer mechs.2
    if w.1 = false then some (.fail, w.2)
    else
      let chosen := w.2.read peer 128
      match chosen.1 with
      | none => some (.fail, chosen.2)
      | some [] => some (chosen.2.refuse peer .badParam)
      | some (c :: chosenmech) =>
        let mech := host.bufferText 128 (c :: chosenmech)
        let first := chosen.2.read peer 8192
        match first.1 with
        | none | some [] => some (.fail, first.2)
        | some [b] =>
          if b = 89 then
            let m := first.2.read peer 8192
            match m.1 with
            | none | some [] => some (.fail, m.2)
            | some (b :: buf) =>
              host.negotiateStartV3 peer fuel mech (some (b :: buf)) (buf.length + 1) m.2
          else host.negotiateStartV3 peer fuel mech none 1 first.2
        -- "didn't receive first-sent parameter correctly"
        | some (_ :: _ :: _) => some (first.2.refuse peer .badParam)

/-! ### Logging in -/

/-- The callbacks for a session. -/
def callbacks (s : AuthSession) : SaslCallbacks where
  mechList :=
    if s.userName.isSome then some (ascii "external")
    else if host.nuauthUsesFakeSasl then some (ascii "plain")
    else none
  checkpass := host.userdbCheckpass

/-- The connection of `sasl_user_check`, as it is made. -/
def saslServerNew (s : AuthSession) : SaslCode × Conn :=
  let new := host.library.serverNew (host.callbacks s)
  match s.userName with
  | none => new
  | some userName =>
    if new.1 ≠ .ok then new
    else
      let auth := host.library.setAuthExternal new.2 userName
      if auth.1 ≠ .ok then auth else host.library.setSsfExternal auth.2

/-- `sasl_user_check`. -/
def saslUserCheck (a : LoginAttempt) (s : AuthSession) : Option (SaslCode × Talk Conn) :=
  let s := s.chooseType
  let new := host.saslServerNew s
  let t : Talk Conn := ⟨s, new.2, 0, 0, []⟩
  if new.1 ≠ .ok then some (new.1, t)
  else
    let proto := getProtoInfo a.proto a.wakeup
    let t := { t with session := { s with protoVersion := proto.2.protoVersion } }
    if proto.1 ≠ .ok then some (.badParam, t)
    else
      match exchangeFor proto.2.protoVersion with
      | some .negotiate => host.mysaslNegotiate a.peer a.fuel t
      | some .negotiateV3 => host.mysaslNegotiateV3 a.peer a.fuel t
      | none => some (.badParam, t)

end AuthHost

/-! ### What an exchange shows -/

namespace SaslLibrary

variable {Conn : Type} (library : SaslLibrary Conn) (cb : SaslCallbacks)

/-- A connection with these callbacks. -/
inductive Opened : Conn → Prop
  | new : Opened (library.serverNew cb).2
  | authExternal {conn : Conn} (h : Opened conn) (name : Bytes) :
    Opened (library.setAuthExternal conn name).2
  | ssfExternal {conn : Conn} (h : Opened conn) : Opened (library.setSsfExternal conn).2

/-- The library has answered with a result to some messages of a client. -/
inductive Answers : List Bytes → SaslCode → Conn → Prop
  | start {conn : Conn} (h : Opened library cb conn) (mech : Bytes) (initial : Option Bytes) :
    Answers initial.toList (library.serverStart conn mech initial).1
      (library.serverStart conn mech initial).2.2
  | step {messages : List Bytes} {conn : Conn} (h : Answers messages .continued conn)
    (data : Bytes) :
    Answers (messages ++ [data]) (library.serverStep conn data).1
      (library.serverStep conn data).2.2

end SaslLibrary

namespace Talk

variable {Conn : Type} {peer : Peer} {data : Bytes} {size : ℕ} {code : SaslCode} {t : Talk Conn}

@[simp] theorem session_write : (t.write peer data).2.session = t.session := rfl
@[simp] theorem conn_write : (t.write peer data).2.conn = t.conn := rfl
@[simp] theorem session_read : (t.read peer size).2.session = t.session := rfl
@[simp] theorem conn_read : (t.read peer size).2.conn = t.conn := rfl
@[simp] theorem session_sampSend : (t.sampSend peer data).2.session = t.session := rfl
@[simp] theorem conn_sampSend : (t.sampSend peer data).2.conn = t.conn := rfl

@[simp]
theorem session_sampSendData {data : Option Bytes} :
    (t.sampSendData peer data).session = t.session := by
  cases data <;> rfl

@[simp]
theorem conn_sampSendData {data : Option Bytes} : (t.sampSendData peer data).conn = t.conn := by
  cases data <;> rfl

@[simp] theorem refuse_snd : (t.refuse peer code).2 = (t.write peer (ascii "N")).2 := rfl

end Talk

namespace AuthHost

variable {Conn : Type} {host : AuthHost Conn} {peer : Peer} {cb : SaslCallbacks} {s : AuthSession}
  {t t' : Talk Conn} {fuel : ℕ}

@[simp]
theorem session_sampRecv {size : ℕ} : (host.sampRecv peer size t).2.session = t.session := by
  rw [sampRecv]
  split <;> rfl

@[simp]
theorem conn_sampRecv {size : ℕ} : (host.sampRecv peer size t).2.conn = t.conn := by
  rw [sampRecv]
  split <;> rfl

/-- The client has sent a message: as it is, or in base 64, with something in front of it. -/
def Heard (host : AuthHost Conn) (peer : Peer) (message : Bytes) : Prop :=
  (∃ k size, nusslReadMessage (peer.answer k) size = some message) ∨
    ∃ t : Talk Conn, message <:+ (host.sampRecv peer saslBufSize t).1

/-- **An exchange so far**: the library has answered to messages of the client, and the session is
as it was. -/
def Conversing (host : AuthHost Conn) (peer : Peer) (cb : SaslCallbacks) (s : AuthSession)
    (code : SaslCode) (t : Talk Conn) : Prop :=
  t.session = s ∧ ∃ messages, host.library.Answers cb messages code t.conn ∧
    ∀ message ∈ messages, host.Heard peer message

theorem Conversing.step {code : SaslCode} (h : host.Conversing peer cb s code t)
    (hcode : code = .continued) {data : Bytes} (hdata : host.Heard peer data)
    (hsession : t'.session = t.session)
    (hconn : t'.conn = (host.library.serverStep t.conn data).2.2) :
    host.Conversing peer cb s (host.library.serverStep t.conn data).1 t' := by
  obtain ⟨hs, messages, hanswers, hheard⟩ := h
  rw [hcode] at hanswers
  refine ⟨hsession.trans hs, messages ++ [data], hconn ▸ hanswers.step data, ?_⟩
  simpa only [List.forall_mem_append, List.forall_mem_singleton] using ⟨hheard, hdata⟩

theorem Conversing.start {conn : Conn} (h : host.library.Opened cb conn) (mech : Bytes)
    {initial : Option Bytes} (hinitial : ∀ data, initial = some data → host.Heard peer data)
    (hsession : t.session = s)
    (hconn : t.conn = (host.library.serverStart conn mech initial).2.2) :
    host.Conversing peer cb s (host.library.serverStart conn mech initial).1 t :=
  ⟨hsession, initial.toList, hconn ▸ .start h mech initial,
    fun data hdata ↦ hinitial data (Option.mem_toList.1 hdata)⟩

/-! ### `mysasl_negotiate` -/

/-- The name of a user, as the modules are asked about it. -/
def decUser (host : AuthHost Conn) (user : Bytes) : Option Bytes :=
  if host.conf.usesUtf8 then host.env.localeFromUtf8 user else some user

end AuthHost

end Nufw
