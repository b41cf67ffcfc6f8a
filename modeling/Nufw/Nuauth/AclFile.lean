import Nufw.Nubase.Inet
import Nufw.Nuauth.Plaintext
import Nufw.Nuauth.Ldap
import Mathlib.Data.List.DropRight

/-!
# The file of ACLs

`plaintext.c`: `read_acl_list` reads the file line by line, with an ACL under construction that the
next line with a bracket completes, and the functions that read the lists of values. An error, after
which the module does not start, is `none`; a warning leaves no trace.

A line is at most 999 bytes long, a longer one is read as several. `int` has 32 bits, and
`strcasecmp` and `isspace` are those of the C locale.
-/

namespace Nufw

/-! ### Lines and numbers -/

/-- What is taken away in front of a line. -/
def isBlank (c : UInt8) : Bool := c = 32 || c = 9

/-- What is taken away at the end of a line. -/
def isTrailing (c : UInt8) : Bool := c = 10 || c = 13 || c = 32 || c = 9

/-- `strip_line`, which never takes the first character that is not blank. -/
def stripLine (line : Bytes) : Bytes :=
  match line.dropWhile isBlank with
  | [] => []
  | c :: rest => c :: rest.rdropWhile isTrailing

/-- `strip_line (line, TRUE)`: comments and empty lines are skipped. -/
def stripComment (line : Bytes) : Option Bytes :=
  match stripLine line with
  | [] => none
  | c :: rest => if c = 35 ∨ c = 13 ∨ c = 10 then none else some (c :: rest)

/-- `sscanf` with `%d`: the number that is stored, and what follows. A number that does not fit is
the nearest `long`, cut to an `int`. -/
def scanDecimal (text : Bytes) : Option (Int × Bytes) :=
  (scanNumber text).map fun (negative, n, rest) ↦
    ((if negative then max (-(n : Int)) (-2 ^ 63) else min (n : Int) (2 ^ 63 - 1)).bmod (2 ^ 32),
      rest)

/-- `sscanf` with `%u`: the number that is stored. -/
def scanUnsigned (text : Bytes) : Option UInt32 :=
  (scanNumber text).map fun _ ↦ UInt32.ofNat (strtoul text).1

/-! ### Lists of values -/

/-- `g_strsplit (string, ",", 0)`, which gives no item for an empty text. -/
def gStrsplit (string : Bytes) : List Bytes := if string = [] then [] else string.splitOn 44

/-- The loop of `parse_ints`. What is not a number is an error only if a comma follows. -/
def parseIntsLoop : List Bytes → List UInt32 → Option (List UInt32)
  | [], intlist => some intlist
  | item :: items, intlist =>
    match scanUnsigned item with
    | some number => parseIntsLoop items (number :: intlist)
    | none => if items = [] then some intlist else none

/-- `parse_ints`. -/
def parseInts (intline : Bytes) (intlist : List UInt32) : Option (List UInt32) :=
  parseIntsLoop (intline.splitOn 44) intlist

/-- `sscanf (p_ports, "%d-%d", &fport, &lastport)`. -/
def scanPorts (text : Bytes) : Option (Int × Option Int) :=
  (scanDecimal text).map fun (fport, rest) ↦
    (fport, if rest.head? = some 45 then (scanDecimal (rest.drop 1)).map Prod.fst else none)

/-- The ports of an item. A range that goes down has none. -/
def itemPorts (fport : Int) (lastport : Option Int) : Option PlaintextPorts :=
  let nbports := match lastport with
    | some lastport => if fport ≤ lastport then (lastport - fport).bmod (2 ^ 32) else -1
    | none => 0
  if 0 ≤ nbports then some ⟨UInt16.ofInt fport, nbports⟩ else none

/-- The loop of `parse_ports`. What is not a number is an error only if a comma follows. -/
def parsePortsLoop : List Bytes → List PlaintextPorts → Option (List PlaintextPorts)
  | [], portslist => some portslist
  | item :: items, portslist =>
    match scanPorts item with
    | some (fport, lastport) =>
      parsePortsLoop items (match itemPorts fport lastport with
        | some ports => ports :: portslist
        | none => portslist)
    | none => if items = [] then some portslist else none

/-- `parse_ports`. -/
def parsePorts (portsline : Bytes) (portslist : List PlaintextPorts) :
    Option (List PlaintextPorts) :=
  parsePortsLoop (portsline.splitOn 44) portslist

/-- The text of an address, and the length of its mask as an `int`. Without a mask it is 128. -/
def cutMask (line : Bytes) : Bytes × Option Int :=
  match strchr line 47 with
  | some (addr, tmp) =>
    (addr, (scanUnsigned tmp).map fun mask : UInt32 ↦ (mask.toNat : Int).bmod (2 ^ 32))
  | none => (line, some 128)

/-- An address of either family, with the length of its mask. -/
def readIp (line : Bytes) (mask : Int) : Option (In6Addr × Int) :=
  match inetPton4 line with
  | some ipAddr4 => some (uint32ToIpv6 ipAddr4, (mask + 96).bmod (2 ^ 32))
  | none => (inetPton6 line).map fun ipAddr6 ↦ (ipAddr6, mask)

/-- What is read of an item. -/
def scanIp (item : Bytes) : Option (In6Addr × Int) :=
  let (line, mask) := cutMask (stripLine item)
  mask.bind (readIp line)

/-- What `parse_ips` makes of an item: an address with bits beyond its mask is an error. -/
def parseIp (item : Bytes) : Option PlaintextIp :=
  match scanIp item with
  | none => none
  | some (addr, mask) =>
    let netmask := createIpv6Netmask mask
    if compareIpv6WithMask addr addr netmask then some ⟨addr, netmask⟩ else none

/-- `parse_ips`. -/
def parseIps (ipsline : Bytes) (ipList : List PlaintextIp) : Option (List PlaintextIp) :=
  (gStrsplit ipsline).foldlM (fun list item ↦ (parseIp item).map (· :: list)) ipList

/-! ### ACLs under construction -/

/-- `struct plaintext_acl`, while it is read. -/
structure AclDraft where
  decision : Decision
  proto : Int
  users : List UInt32
  groups : List GroupData
  apps : List Bytes
  os : List PlaintextOs
  types : List UInt32
  srcIp : List PlaintextIp
  srcPorts : List PlaintextPorts
  dstIp : List PlaintextIp
  dstPorts : List PlaintextPorts
  ifaceNfo : IfaceNfo
  period : Option Bytes
  logPrefix : Option Bytes
  flags : Int
  authQuality : Int

/-- A new ACL. -/
def AclDraft.new : AclDraft where
  decision := .accept
  proto := 6
  users := []
  groups := []
  apps := []
  os := []
  types := []
  srcIp := []
  srcPorts := []
  dstIp := []
  dstPorts := []
  ifaceNfo := IfaceNfo.zero
  period := none
  logPrefix := none
  flags := 0
  authQuality := 0

/-- The ACL has a user or a group. -/
def AclDraft.Owned (acl : AclDraft) : Prop := acl.groups ≠ [] ∨ acl.users ≠ []

instance AclDraft.Owned.decidable (acl : AclDraft) : Decidable acl.Owned :=
  inferInstanceAs (Decidable (_ ∨ _))

/-- The ACL with its protocol, which is one of TCP, UDP and ICMP. -/
def AclDraft.withProto (acl : AclDraft) (proto : UInt8)
    (h : proto = ipprotoTcp ∨ proto = ipprotoUdp ∨ proto = ipprotoIcmp) : PlaintextAcl where
  decision := acl.decision
  proto := proto
  proto_mem := h
  users := acl.users
  groups := acl.groups
  apps := acl.apps
  os := acl.os
  types := acl.types.map fun type ↦ (type.toNat : Int).bmod (2 ^ 32)
  srcIp := acl.srcIp
  srcPorts := acl.srcPorts
  dstIp := acl.dstIp
  dstPorts := acl.dstPorts
  ifaceNfo := acl.ifaceNfo
  period := acl.period
  logPrefix := acl.logPrefix
  flags := UInt32.ofInt acl.flags
  authQuality := acl.authQuality

theorem tcp_supported :
    ipprotoTcp = ipprotoTcp ∨ ipprotoTcp = ipprotoUdp ∨ ipprotoTcp = ipprotoIcmp := Or.inl rfl

theorem udp_supported :
    ipprotoUdp = ipprotoTcp ∨ ipprotoUdp = ipprotoUdp ∨ ipprotoUdp = ipprotoIcmp :=
  Or.inr (Or.inl rfl)

theorem icmp_supported :
    ipprotoIcmp = ipprotoTcp ∨ ipprotoIcmp = ipprotoUdp ∨ ipprotoIcmp = ipprotoIcmp :=
  Or.inr (Or.inr rfl)

/-- The ACL that is ready, if its protocol is valid. -/
def AclDraft.ready (acl : AclDraft) : Option PlaintextAcl :=
  if acl.proto = 6 then some (acl.withProto ipprotoTcp tcp_supported)
  else if acl.proto = 17 then some (acl.withProto ipprotoUdp udp_supported)
  else if acl.proto = 1 then some (acl.withProto ipprotoIcmp icmp_supported)
  else none

/-! ### Keys -/

/-- The text before a semicolon, and what stands behind it. -/
def cutSemicolon (value : Bytes) : Bytes × Option Bytes :=
  match strchr value 59 with
  | some (head, tail) => (stripLine head, some tail)
  | none => (stripLine value, none)

/-- The value of `os`: the name of the system, its release and its version. -/
def parseOs (value : Bytes) : PlaintextOs :=
  let (sysname, sep) := cutSemicolon value
  match sep with
  | none => ⟨sysname, none, none⟩
  | some value =>
    let (release, sep) := cutSemicolon value
    ⟨sysname, some release, sep.map stripLine⟩

/-- `memcpy (dev, p_value, IFNAMSIZ)`. What stands behind the end of a text is not read. -/
def ifaceName (value : Bytes) : Vector UInt8 16 :=
  Vector.ofFn fun i : Fin 16 ↦ value.getD i 0

/-- The value of `decision`. -/
def parseDecision (value : Bytes) : Option Decision :=
  if atoi value = 1 then some .accept
  else if atoi value = 0 then some .drop
  else if atoi value = 3 then some .reject
  else none

/-- The keys that a line of an ACL can have. -/
inductive LineKey where
  | decision | gid | uid | proto | type | srcip | srcport | dstip | dstport | app | os | period
  | indev | physindev | outdev | physoutdev | logPrefix | flags | authquality
  deriving DecidableEq

/-- The name of a key. -/
def LineKey.name : LineKey → String
  | decision => "decision"
  | gid => "gid"
  | uid => "uid"
  | proto => "proto"
  | type => "type"
  | srcip => "srcip"
  | srcport => "srcport"
  | dstip => "dstip"
  | dstport => "dstport"
  | app => "app"
  | os => "os"
  | period => "period"
  | indev => "indev"
  | physindev => "physindev"
  | outdev => "outdev"
  | physoutdev => "physoutdev"
  | logPrefix => "log_prefix"
  | flags => "flags"
  | authquality => "authquality"

/-- The keys in the order in which they are compared. -/
def LineKey.all : List LineKey :=
  [decision, gid, uid, proto, type, srcip, srcport, dstip, dstport, app, os, period, indev,
    physindev, outdev, physoutdev, logPrefix, flags, authquality]

/-- The key that a text stands for, by `strcasecmp`. -/
def LineKey.find (key : Bytes) : Option LineKey :=
  LineKey.all.find? fun k ↦ strcasecmp (ascii k.name) key

/-- What a value does to the ACL, for each of the keys. -/
def LineKey.read (conf : Params) (value : Bytes) (newacl : AclDraft) : LineKey → Option AclDraft
  | decision => (parseDecision value).map fun d ↦ { newacl with decision := d }
  | gid =>
    if conf.useGroupsName then
      some { newacl with groups := newacl.groups ++ (gStrsplit value).map GroupData.name }
    else
      (parseInts value []).map fun gids ↦
        { newacl with groups := gids.map GroupData.gid ++ newacl.groups }
  | uid => (parseInts value newacl.users).map fun users ↦ { newacl with users }
  | proto =>
    (scanInt value).bind fun n ↦
      if n = 6 ∨ n = 17 ∨ n = 1 then some { newacl with proto := n } else none
  | type => (parseInts value newacl.types).map fun types ↦ { newacl with types }
  | srcip => (parseIps value newacl.srcIp).map fun srcIp ↦ { newacl with srcIp }
  | srcport => (parsePorts value newacl.srcPorts).map fun srcPorts ↦ { newacl with srcPorts }
  | dstip => (parseIps value newacl.dstIp).map fun dstIp ↦ { newacl with dstIp }
  | dstport => (parsePorts value newacl.dstPorts).map fun dstPorts ↦ { newacl with dstPorts }
  | app => some { newacl with apps := (cutSemicolon value).1 :: newacl.apps }
  | os => some { newacl with os := parseOs value :: newacl.os }
  | period => some { newacl with period := some value }
  | indev => some { newacl with ifaceNfo := { newacl.ifaceNfo with indev := ifaceName value } }
  | physindev =>
    some { newacl with ifaceNfo := { newacl.ifaceNfo with physindev := ifaceName value } }
  | outdev => some { newacl with ifaceNfo := { newacl.ifaceNfo with outdev := ifaceName value } }
  | physoutdev =>
    some { newacl with ifaceNfo := { newacl.ifaceNfo with physoutdev := ifaceName value } }
  | logPrefix => some { newacl with logPrefix := some value }
  | flags => (scanInt value).map fun n ↦ { newacl with flags := n }
  | authquality => (scanInt value).map fun n ↦ { newacl with authQuality := n }

/-- A line `key = value` of an ACL. An unknown key is only warned of. -/
def readKey (conf : Params) (newacl : AclDraft) (entry : Bytes × Bytes) : Option AclDraft :=
  match LineKey.find entry.1 with
  | some key => key.read conf entry.2 newacl
  | none => some newacl

/-! ### The file -/

/-- What the loop of `read_acl_list` holds: the ACLs that are ready, and the one that is read. -/
structure AclReader where
  acllist : List PlaintextAcl
  newacl : Option AclDraft

/-- The ACL that is read is ready, with a bracket behind it. -/
def AclReader.close (s : AclReader) : Option (List PlaintextAcl) :=
  match s.newacl with
  | none => some s.acllist
  | some newacl => if newacl.Owned then some (s.acllist ++ newacl.ready.toList) else none

/-- The ACL that is read is ready, with the end of the file behind it. This is the copy of the check
that only warns. -/
def AclReader.closeLast (s : AclReader) : List PlaintextAcl :=
  match s.newacl with
  | none => s.acllist
  | some newacl => if newacl.Owned then s.acllist ++ newacl.ready.toList else s.acllist

/-- One round of the loop, for a line. -/
def readAclLine (conf : Params) (s : AclReader) (line : Bytes) : Option AclReader :=
  match stripComment line with
  | none => some s
  | some key =>
    if key.head? = some 91 then
      match s.close with
      | none => none
      | some acllist => if 93 ∈ key.drop 1 then some ⟨acllist, some AclDraft.new⟩ else none
    else
      match s.newacl, strchr key 61 with
      | some newacl, some (key, value) =>
        (readKey conf newacl (stripLine key, stripLine value)).map fun newacl ↦
          { s with newacl := some newacl }
      | _, _ => none

/-- What `fgets (line, 1000, fd)` gives of a file, one after the other. -/
def aclLines (file : Bytes) : List Bytes := (readAll 999 file.length file).map cString

/-- `read_acl_list`. -/
def readAclList (conf : Params) (file : Bytes) : Option (List PlaintextAcl) :=
  ((aclLines file).foldlM (readAclLine conf) ⟨[], none⟩).map AclReader.closeLast

end Nufw
