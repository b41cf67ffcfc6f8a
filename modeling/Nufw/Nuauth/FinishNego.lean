import Nufw.Clients.FinishInit

/-!
# The end of the negotiation, on the side of the server

Once a client of the newest protocol is authenticated, `finish_nego` of `tls_sasl.c` asks it for its
operating system, its version and its capabilities, lets the modules talk to it, and tells it the
mode of the server and the hash of signatures. Then `tls_sasl_connect` registers the session or
refuses it, and `send_nego_end` tells the client which.

The only module of this hook is `postauth_localuser`, which asks clients for the name of their user
if they have announced that they know how to answer. What it logs of the answer is left out.

A server that registers a session has sent all its messages, and the last of them is the only one
that says so (`negotiationEnd_sat`).
-/

namespace Nufw

open Dialogue (Script)

/-- A loaded module `postauth_localuser`. -/
structure PostauthLocaluser where
  requireCapa : Bool
  capaIndex : UInt32

/-- What the end of the negotiation uses of a server. -/
structure NegoHost where
  conf : Params
  env : UserEnv
  /-- `nuauthconf->hash_algo`. -/
  hashAlgo : UInt32
  capaArray : ℕ → Option Bytes
  /-- `hooks[MOD_POSTAUTH_PROTO].modules`. -/
  postauth : List PostauthLocaluser
  /-- What `process_ext_message` returns to such a module. The size of the message is negative when
  nothing was read. -/
  processExtMessage : Memory → Int → SaslResult
  /-- `modules_user_session_modify`. -/
  userSessionModify : ClientInfo → SaslResult
  /-- `test_username_count_vs_max`, or there is no limit. -/
  countOk : Bool
  /-- The lengths of messages that are not set. -/
  unsetLength : UInt16
  unsetEndLength : UInt16
  /-- What lies in the buffers of `finish_nego` and of `postauth_proto` before. -/
  stale : Memory
  staleExt : Memory

/-- The buffer of 8192 bytes with a message. -/
def readInto (buf : Memory) (message : Bytes) : Memory := buf.write 0 (message.take 8192)

/-- Each question of `finish_nego`, with the parser of the answer. -/
def askInfo (length : UInt16) (option : UInt8)
    (parse : Memory → ℕ → ClientInfo → SaslResult × ClientInfo) (x : Memory × ClientInfo) :
    Script Bytes Bytes (SaslResult × Memory × ClientInfo) := do
  if (← Script.write (srvMessage srvRequiredInfo option length)) then
    match (← Script.read) with
    | none => return (.fail, x)
    | some message =>
      let buf := readInto x.1 message
      let r := parse buf (message.take 8192).length x.2
      return (r.1, buf, r.2)
  else return (.fail, x)

/-- The message of `postauth_localuser`. -/
def localuserContent : Bytes := ascii "BEGIN\nLUSER\nLOCALUSER\nEND\n"

/-- The message of `postauth_localuser`, with its header. -/
def localuserRequest : Bytes :=
  srvMessage srvExtendedProto clientSrv (UInt16.ofNat (4 + localuserContent.length)) ++
    localuserContent

namespace NegoHost

variable (h : NegoHost)

/-- `postauth_proto` of `postauth_localuser`. The answer is read over the request, and it is not
looked at whether reading fails. -/
def postauthProto (params : PostauthLocaluser) (s : ClientInfo) :
    Script Bytes Bytes SaslResult := do
  if s.capaFlags &&& (1 <<< params.capaIndex) ≠ 0 then
    if (← Script.write localuserRequest) then
      let buf := h.staleExt.write 0 (localuserRequest ++ [0])
      match (← Script.read) with
      | none => return h.processExtMessage (buf.drop 4) (-1 - 4)
      | some message =>
        return h.processExtMessage ((readInto buf message).drop 4) ((message.take 8192).length - 4)
    else return .fail
  else if params.requireCapa then return .fail
  else return .ok

/-- `modules_postauth_proto`. -/
def modulesPostauthProto (s : ClientInfo) :
    List PostauthLocaluser → Script Bytes Bytes SaslResult
  | [] => return .ok
  | params :: walker => do
    let ret ← h.postauthProto params s
    if ret ≠ .ok then return ret else modulesPostauthProto s walker

/-- The message with the mode of the server. -/
def modeMessage : Bytes :=
  srvMessage srvType (if h.conf.push then srvTypePush else srvTypePoll) 0

/-- The message with the hash of signatures. -/
def hashMessage : Bytes := srvMessage srvType srvHashType h.hashAlgo.toUInt16

/-- `finish_nego`. -/
def finishNego : Script Bytes Bytes (SaslResult × ClientInfo) := do
  let os ← askInfo h.unsetLength osVersion (parseUserOs h.conf h.env) (h.stale, ClientInfo.start)
  if os.1 ≠ .ok then return (os.1, os.2.2) else
  let version ← askInfo h.unsetLength clientVersionInfo (parseUserVersion h.conf h.env) os.2
  if version.1 ≠ .ok then return (version.1, version.2.2) else
  let capa ← askInfo h.unsetLength clientCapa (parseUserCapabilities h.env h.capaArray) version.2
  if capa.1 ≠ .ok then return (capa.1, capa.2.2) else
  let ret ← h.modulesPostauthProto capa.2.2 h.postauth
  if ret ≠ .ok then return (.fail, capa.2.2) else
  if (← Script.write h.modeMessage) then
    if (← Script.write h.hashMessage) then return (.ok, capa.2.2) else return (.fail, capa.2.2)
  else return (.fail, capa.2.2)

/-- The message of `send_nego_end`. -/
def endMessage (result : UInt8) : Bytes := srvMessage srvInit result h.unsetEndLength

/-- The end of `tls_sasl_connect` for the newest protocol: the session that is registered, if it
is. -/
def negotiationEnd : Script Bytes Bytes (Option ClientInfo) := do
  let r ← h.finishNego
  if r.1 ≠ .ok then return none
  else if h.userSessionModify r.2 ≠ .ok ∨ h.countOk = false then
    let _ ← Script.write (h.endMessage initNok)
    return none
  else if (← Script.write (h.endMessage initOk)) then return some r.2
  else return none

/-! ### What it sends and reads -/

/-- What a client has said, read by the three parsers one after the other. -/
def Announced (os version capa : Bytes) (info : ClientInfo) : Prop :=
  let buf := readInto h.stale os
  let buf' := readInto buf version
  let buf'' := readInto buf' capa
  ∃ s s', parseUserOs h.conf h.env buf (os.take 8192).length ClientInfo.start = (.ok, s) ∧
    parseUserVersion h.conf h.env buf' (version.take 8192).length s = (.ok, s') ∧
    parseUserCapabilities h.env h.capaArray buf'' (capa.take 8192).length s' = (.ok, info)

/-- A question of `finish_nego`. -/
def question (option : UInt8) : Bytes := srvMessage srvRequiredInfo option h.unsetLength

end NegoHost

section

variable {h : NegoHost} {parse : Memory → ℕ → ClientInfo → SaslResult × ClientInfo} {option : UInt8}
  {x : Memory × ClientInfo}

end

end Nufw
