import Nufw.Nubase.PacketParser

/-!
# Connections

The data model of nuauth: `connections.h`, and the configuration of `nuauth_params.h` as far as
the modelled functions read it.

A `GSList` is a list, `NULL` being the empty one; a `gchar *` is an optional text. Sessions with
gateways are referred to by a number, their address in the heap of `NufwServers`. Lists of user
groups hold either numeric identifiers or names, as `use_groups_name` says.

A packet identifier carries one ghost field, the session whose request announced it. No modelled
function reads it: identifiers are unique for one gateway only, and statements about answers need
to say which of two equal identifiers is meant.
-/

namespace Nufw

/-- A session with a gateway, by its place in the heap. -/
abbrev SessionId := ℕ

/-- An element of `connection_t::packet_id`. -/
structure PacketId where
  /-- The netfilter identifier, or the hello identifier in a user packet. -/
  id : UInt32
  /-- **Ghost**: the session whose request carried the identifier. -/
  origin : Option SessionId
  deriving DecidableEq

/-- `auth_state_t`. -/
inductive AuthState where
  | none
  | authreq
  | userpckt
  | ready
  | completing
  | done
  | hellomode
  | spoofing
  deriving DecidableEq, Repr

/-- `decision_t`. -/
inductive Decision where
  | drop
  | accept
  | nodecide
  | reject
  deriving DecidableEq, Repr

/-- `nu_error_t`. -/
inductive NuError where
  | error
  | ok
  | noReturn
  | continue
  deriving DecidableEq, Repr

/-- `AUTHQ_HELLO`. -/
def authqHello : Int := 2

/-- An element of a list of user groups: a numeric identifier or a name. -/
inductive GroupData where
  | gid (id : UInt32)
  | name (name : Bytes)
  deriving DecidableEq

/-- `struct acl_group`: an ACL that applies to a packet. -/
structure AclGroup where
  users : List UInt32
  groups : List GroupData
  answer : Decision
  period : Option Bytes
  logPrefix : Option Bytes
  flags : UInt32
  /-- Minimum authentication quality required for a match. -/
  authQuality : Int
  deriving DecidableEq

/-- `iface_nfo_t`: the four interface names, empty when not available. -/
structure IfaceNfo where
  indev : Vector UInt8 16
  physindev : Vector UInt8 16
  outdev : Vector UInt8 16
  physoutdev : Vector UInt8 16
  deriving DecidableEq

/-- The interface names of a connection allocated by `g_new0`. -/
def IfaceNfo.zero : IfaceNfo :=
  ⟨Vector.replicate 16 0, Vector.replicate 16 0, Vector.replicate 16 0, Vector.replicate 16 0⟩

/-- `STORED_PAYLOAD_SIZE`. -/
def storedPayloadSize : ℕ := 128

/-- `connection_t`. -/
structure Connection where
  packetId : List PacketId
  timestamp : Int
  socket : Int
  tls : Option SessionId
  tracking : Tracking
  ifaceNfo : IfaceNfo
  userId : UInt32
  mark : UInt32
  username : Option Bytes
  /-- The ACLs found for the packet; an element may be a `NULL` pointer. -/
  aclGroups : List (Option AclGroup)
  userGroups : List GroupData
  /-- The entry of the user cache the connection refers to, if any. -/
  cacheduserdatas : Option ℕ
  osSysname : Option Bytes
  osRelease : Option Bytes
  osVersion : Option Bytes
  appName : Option Bytes
  appSig : Option Bytes
  state : AuthState
  decision : Decision
  logPrefix : Option Bytes
  flags : UInt32
  /-- Expiration time, `-1` for never. -/
  expire : Int
  nufwVersion : ℕ
  protoVersion : ℕ
  authQuality : Int
  payload : Vector UInt8 128
  payloadLen : ℕ
  deriving DecidableEq

/-- A connection as `g_new0` gives it. -/
def Connection.zero : Connection where
  packetId := []
  timestamp := 0
  socket := 0
  tls := none
  tracking := Tracking.zero
  ifaceNfo := IfaceNfo.zero
  userId := 0
  mark := 0
  username := none
  aclGroups := []
  userGroups := []
  cacheduserdatas := none
  osSysname := none
  osRelease := none
  osVersion := none
  appName := none
  appSig := none
  state := .none
  decision := .drop
  logPrefix := none
  flags := 0
  expire := 0
  nufwVersion := 0
  protoVersion := 0
  authQuality := 0
  payload := Vector.replicate 128 0
  payloadLen := 0

/-- No decision has been attempted on the connection. -/
structure Undecided (c : Connection) : Prop where
  aclGroups : c.aclGroups = []
  decision : c.decision = .nodecide
  logPrefix : c.logPrefix = none
  flags : c.flags = 0
  expire : c.expire = -1

/-- `memcpy (dst, src, n)` between two payload buffers. -/
def copyPayload (dst src : Vector UInt8 128) (n : ℕ) : Vector UInt8 128 :=
  Vector.ofFn fun i ↦ if (i : ℕ) < n then src.get i else dst.get i

/-! ### Periods and configuration -/

/-- The fields of `struct tm` that are read. -/
structure Tm where
  wday : Int
  hour : Int
  /-- Seconds east of UTC. -/
  gmtoff : Int
  deriving DecidableEq

/-- `struct period_item`, `-1` in a field meaning that it is not used. -/
structure PeriodItem where
  duration : Int
  startDate : Int
  endDate : Int
  startDay : Int
  endDay : Int
  startHour : Int
  endHour : Int
  deriving DecidableEq

/-- `group_mark_t` and `field_mark_t`: what to look for, and the mark it gives. -/
structure MarkEntry (α : Type) where
  key : α
  mark : UInt32

/-- `mark_group_config_t` and `mark_field_config_t` without their lists. -/
structure MarkWindow where
  shift : UInt32
  mask : UInt32
  defaultMark : UInt32

/-- The modules that hook on `MOD_FINALIZE_PACKET`. A pattern of `mark_field` is the set of texts
`g_pattern_match_string` accepts for it. -/
inductive FinalizeModule where
  | markUid
  | markGroup (config : MarkWindow) (groups : List (MarkEntry UInt32))
  | markField (config : MarkWindow) (type : ℕ) (fields : List (MarkEntry (Option Bytes → Bool)))
  | markFlag (markShift flagShift markMask : UInt32)

/-- `struct nuauth_params`, and the parts of the environment that go with it: the time zone and
the loaded modules. -/
structure Params where
  packetTimeout : Int
  logUsers : UInt32
  logUsersSync : Bool
  dropIfNoLogging : Bool
  prioToNok : Int
  rejectAfterTimeout : Bool
  rejectAuthenticatedDrop : Bool
  push : Bool
  userCheckIpEquality : Bool
  helloAuthentication : Bool
  useGroupsName : Bool
  usesUtf8 : Bool
  datasPersistance : Int
  aclCache : Bool
  /-- The periods by name. -/
  periods : List (Bytes × List PeriodItem)
  /-- `localtime_r` in the zone of the server. -/
  localtime : Int → Tm
  /-- `hooks[MOD_FINALIZE_PACKET].modules`. -/
  finalizeModules : List FinalizeModule

/-- The time in UTC; the first of January 1970 was a Thursday. -/
def Tm.utc (t : Int) : Tm := ⟨(t / 86400 + 4) % 7, t % 86400 / 3600, 0⟩

/-- The configuration an empty file gives, without modules and in UTC. -/
def Params.default : Params where
  packetTimeout := 15
  logUsers := 9
  logUsersSync := true
  dropIfNoLogging := false
  prioToNok := 2
  rejectAfterTimeout := false
  rejectAuthenticatedDrop := false
  push := true
  userCheckIpEquality := true
  helloAuthentication := false
  useGroupsName := false
  usesUtf8 := false
  datasPersistance := 9
  aclCache := false
  periods := []
  localtime := Tm.utc
  finalizeModules := []

end Nufw
