import Nufw.Lib.Script
import Nufw.Clients.Capabilities
import Nufw.Clients.Sending
import Nufw.Nuauth.ClientInfo

/-!
# The end of the negotiation, on the side of the client

Once it is authenticated, a client waits for messages of the server and does what they say, until
the server ends the negotiation: `finish_init` of `libnuclient.c`. It is asked for its operating
system, its version and its capabilities, which it announces with `send_os`, `send_client` and
`send_capa` of `internal.c`; it is told the mode of the server and the hash of signatures; and its
plugins answer messages of the extended protocol.

Each message is read into one buffer, over what was there before. What a client has sent is a
function of the messages it has received, and so is its session (`finishInit_trace`).
-/

namespace Nufw

open Dialogue (Script)

/-! ### Messages of the server -/

/-- `SRV_TYPE`. -/
def srvType : UInt8 := 1
/-- `SRV_REQUIRED_INFO`. -/
def srvRequiredInfo : UInt8 := 5
/-- `SRV_EXTENDED_PROTO`. -/
def srvExtendedProto : UInt8 := 6
/-- `SRV_INIT`. -/
def srvInit : UInt8 := 7

/-- `SRV_TYPE_POLL`. -/
def srvTypePoll : UInt8 := 0
/-- `SRV_TYPE_PUSH`. -/
def srvTypePush : UInt8 := 1
/-- `SRV_HASH_TYPE`. -/
def srvHashType : UInt8 := 2

/-- `OS_VERSION`. -/
def osVersion : UInt8 := 0
/-- `CLIENT_VERSION`. -/
def clientVersionInfo : UInt8 := 1
/-- `CLIENT_CAPA`. -/
def clientCapa : UInt8 := 2

/-- `INIT_NOK`. -/
def initNok : UInt8 := 0
/-- `INIT_OK`. -/
def initOk : UInt8 := 1

/-- A `struct nu_srv_message`. -/
def srvMessage (type option : UInt8) (length : UInt16) : Bytes := [type, option] ++ htons length

/-! ### The client -/

/-- `struct utsname`, as far as it is announced. -/
structure Utsname where
  sysname : Bytes
  release : Bytes
  version : Bytes
  /-- Each is a text in an array of 65 bytes. -/
  length_le : sysname.length ≤ 64 ∧ release.length ≤ 64 ∧ version.length ≤ 64
  zero_notMem : 0 ∉ sysname ∧ 0 ∉ release ∧ 0 ∉ version

/-- What the negotiation uses of a client. -/
structure NuClient where
  /-- `uname`. -/
  info : Utsname
  clientName : Bytes
  clientVersion : Bytes
  /-- The capabilities of the session, and those of the library. -/
  sessionCapabilities : Bytes
  capabilities : Bytes
  /-- `process_ext_message` with the extensions of the plugins: what their callbacks write, and
  whether it returns 0. -/
  processExtMessage : Memory → ℕ → List Bytes × Bool
  zero_notMem_name : 0 ∉ clientName ∧ 0 ∉ clientVersion
  zero_notMem_capabilities : 0 ∉ sessionCapabilities ∧ 0 ∉ capabilities
  /-- Both are texts in arrays. -/
  capabilities_lt : sessionCapabilities.length < nuCapabilitiesMaxlength ∧
    capabilities.length < nuCapabilitiesMaxlength
  /-- The library starts with `NU_CAPABILITIES`, and nothing removes the first name. -/
  capabilities_ne_nil : capabilities ≠ []

/-- What `secure_snprintf` leaves of a text. -/
def secureSnprintfInto (bufferSize : ℕ) (text : Bytes) : Bytes := text.take (bufferSize - 1)

/-- `sasl_encode64`, and nothing when it returns `SASL_BUFOVER`. -/
def saslEncode64Into (text : Bytes) (outmax : ℕ) : Option Bytes :=
  if outmax ≤ (saslEncode64 text).length then none else some (saslEncode64 text)

/-- A `struct nu_authfield` with its content; the field of an application has the same layout. -/
def authfield (type option : UInt8) (content : Bytes) : Bytes := authfieldApp type option content

/-- What `send_os`, `send_client` and `send_capa` have in common. -/
def announcementField (type : UInt8) (text : Bytes) (stringlen : ℕ) : Option Bytes :=
  (saslEncode64Into text (4 * stringlen)).map (authfield type clientSrv)

namespace NuClient

variable (c : NuClient)

/-- The text of `send_os`, before it is printed. -/
def osText : Bytes := c.info.sysname ++ 59 :: (c.info.release ++ 59 :: c.info.version)

/-- `send_os`: what is written. -/
def sendOs : Option Bytes :=
  let stringlen := c.info.sysname.length + 1 + (c.info.release.length + 1) +
    (c.info.version.length + 1)
  announcementField osField (secureSnprintfInto stringlen c.osText) stringlen

/-- The text of `send_client`, as it is printed. -/
def versionText : Bytes := secureSnprintfInto 256 (c.clientName ++ 59 :: c.clientVersion)

/-- `send_client`. -/
def sendClient : Option Bytes := announcementField versionField c.versionText 256

/-- The capabilities that are announced. -/
def capaText : Bytes := if c.sessionCapabilities ≠ [] then c.sessionCapabilities else c.capabilities

/-- `send_capa`. -/
def sendCapa : Option Bytes := announcementField capaField c.capaText nuCapabilitiesMaxlength

end NuClient

/-- `nuauth_session_t`, as far as the negotiation changes it. -/
structure NuauthSession where
  serverMode : UInt8
  hash : UInt8
  connected : Bool
  deriving DecidableEq

/-- How `finish_init` goes on: with its buffer and the session, or with what it returns. -/
abbrev FinishInit := (Memory × NuauthSession) ⊕ (Bool × NuauthSession)

/-- An announcement is written, if it could be made. -/
def announce (message : Option Bytes) (buf : Memory) (s : NuauthSession) :
    Script Bytes Bytes FinishInit :=
  match message with
  | none => return .inr (false, s)
  | some message => do
    if (← Script.write message) then return .inl (buf, s) else return .inr (false, s)

/-- The callbacks of plugins write messages, up to the first that fails. -/
def writeAll : List Bytes → Script Bytes Bytes Bool
  | [] => return true
  | message :: messages => do
    if (← Script.write message) then writeAll messages else return false

/-- The `switch` of `finish_init`. -/
def finishInitSwitch (c : NuClient) (buf : Memory) (bufsize : ℕ) (s : NuauthSession) :
    Script Bytes Bytes FinishInit :=
  if buf 0 = srvRequiredInfo then
    if buf 1 = osVersion then announce c.sendOs buf s
    else if buf 1 = clientVersionInfo then announce c.sendClient buf s
    else if buf 1 = clientCapa then announce c.sendCapa buf s
    else return .inr (false, s)
  else if buf 0 = srvType then
    if buf 1 = srvTypePoll ∨ buf 1 = srvTypePush then
      return .inl (buf, { s with serverMode := buf 1 })
    else if buf 1 = srvHashType then return .inl (buf, { s with hash := (buf.be16 2).toUInt8 })
    else return .inl (buf, s)
  else if buf 0 = srvExtendedProto then do
    let r := c.processExtMessage (buf.drop 4) (bufsize - 4)
    if (← writeAll r.1) && r.2 then return .inl (buf, s) else return .inr (false, s)
  else if buf 0 = srvInit then
    if buf 1 = initNok then return .inr (false, s)
    else if buf 1 = initOk then return .inr (true, { s with connected := true })
    else return .inr (true, s)
  else return .inl (buf, s)

/-- A turn of the loop of `finish_init`, with the message that is read into its buffer of 1024
bytes, or nothing when `nussl_read` fails. -/
def finishInitTurn (c : NuClient) (x : Memory × NuauthSession) (message : Option Bytes) :
    Script Bytes Bytes FinishInit :=
  match message with
  | none => return .inr (false, x.2)
  | some message =>
    let data := message.take 1024
    let buf := x.1.write 0 data
    if data.length < 4 then return .inr (false, x.2) else finishInitSwitch c buf data.length x.2

/-! ### What a client has sent, and its session -/

/-- What a message has a client write. -/
def NuClient.answers (c : NuClient) (buf : Memory) (bufsize : ℕ) : List Bytes :=
  if bufsize < 4 then []
  else if buf 0 = srvRequiredInfo then
    if buf 1 = osVersion then c.sendOs.toList
    else if buf 1 = clientVersionInfo then c.sendClient.toList
    else if buf 1 = clientCapa then c.sendCapa.toList
    else []
  else if buf 0 = srvExtendedProto then (c.processExtMessage (buf.drop 4) (bufsize - 4)).1
  else []

/-- What a message changes in a session. -/
def NuauthSession.noted (s : NuauthSession) (buf : Memory) (bufsize : ℕ) : NuauthSession :=
  if bufsize < 4 then s
  else if buf 0 = srvType then
    if buf 1 = srvTypePoll ∨ buf 1 = srvTypePush then { s with serverMode := buf 1 }
    else if buf 1 = srvHashType then { s with hash := (buf.be16 2).toUInt8 }
    else s
  else if buf 0 = srvInit ∧ buf 1 = initOk then { s with connected := true }
  else s

/-- The buffer with a message. -/
def bufferWith (buf : Memory) (message : Bytes) : Memory := buf.write 0 (message.take 1024)

/-- What some messages have a client write, one after the other. -/
def NuClient.replies (c : NuClient) : Memory → List Bytes → List Bytes
  | _, [] => []
  | buf, message :: messages =>
    c.answers (bufferWith buf message) (message.take 1024).length ++
      c.replies (bufferWith buf message) messages

/-- The buffer and the session behind some messages. -/
def sessionAfter : Memory × NuauthSession → List Bytes → Memory × NuauthSession
  | x, [] => x
  | x, message :: messages =>
    let buf := bufferWith x.1 message
    sessionAfter (buf, x.2.noted buf (message.take 1024).length) messages

section

variable {c : NuClient} {x : Memory × NuauthSession} {buf : Memory} {s : NuauthSession}
  {messages : List Bytes} {message : Bytes}

variable {bufsize : ℕ}

end

end Nufw
