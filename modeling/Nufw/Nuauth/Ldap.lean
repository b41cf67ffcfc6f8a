import Mathlib.Data.List.TakeWhile
import Nufw.Nubase.Strings
import Nufw.Nuauth.Plaintext

/-!
# ACLs in a directory

`ldap.c`: `acl_check` writes a search filter for the connection, has the directory searched, and
keeps the entries whose patterns match the system and the application of the user.

The filter is a text of at most 511 characters; what is appended to a full one is lost. It names the
signature of the application, which the key of the ACL cache does not have, and the interfaces. The
source port is not in it. Some of what the filter is made of has not been written before: the
addresses of the IPv6 schema are not terminated, a name of 16 characters runs into what follows it,
and for another protocol than TCP, UDP and ICMP there is no filter at all. `LdapMemory` is what
stands there.

The directory (`search`) and the patterns of GLib (`glob`) are parameters. `none` stands for what
the program does not survive, or does not mean: an entry without a decision, or with one that is not
a `decision_t`.
-/

namespace Nufw

/-! ### Text -/

/-- `LDAP_QUERY_SIZE`. -/
def ldapQuerySize : ℕ := 512

/-- The string that starts at the head of the memory, as far as a filter can hold it. -/
def stringAt (m : Memory) : Bytes := cString (m.bytes 0 ldapQuerySize).toList

/-- `g_strlcat (dest, src, LDAP_QUERY_SIZE)`. -/
def strlcat (dest src : Bytes) : Bytes :=
  if ldapQuerySize ≤ dest.length then dest else (dest ++ src).take (ldapQuerySize - 1)

/-- `secure_snprintf` on the filter. -/
def secureSnprintf (text : Bytes) : Option Bytes :=
  if text.length ≤ ldapQuerySize - 1 then some text else none

/-! ### The filter -/

/-- The parameters of the module. -/
structure LdapParams where
  ldapUseIpv4Schema : Bool
  ldapFilterType : Int

/-- What `acl_check` finds in memory that it has not written. -/
structure LdapMemory where
  ipSrc : Memory
  ipDst : Memory
  filter : Memory
  integer : Int
  /-- What follows the interface names of a connection. -/
  beyond : Connection → Bytes

/-- `ipv6_to_base10`: the digits are written without a terminator. The number has been multiplied
once too often. -/
def ipv6ToBase10 (buffer : Memory) (addr : In6Addr) : Option Bytes :=
  let number := addr.toList.foldl (fun n b ↦ 256 * (n + b.toNat)) 0
  let text := if number = 0 then [] else decimal number
  if text.length < 42 then some (stringAt (buffer.write 0 text)) else none

/-- `ipv6_to_ipv4`, printed with `%u`. -/
def ipv4Decimal (order : ByteOrder) (addr : In6Addr) : Bytes :=
  decimal ((Memory.ofBytes (addr.toList.drop 12)).host32 order 0).toNat

/-- `ip_src` and `ip_dst`. -/
def ldapAddresses (order : ByteOrder) (params : LdapParams) (mem : LdapMemory)
    (tracking : Tracking) : Option (Bytes × Bytes) :=
  if params.ldapUseIpv4Schema then
    if !isIpv4 tracking.saddr || !isIpv4 tracking.daddr then none
    else some (ipv4Decimal order tracking.saddr, ipv4Decimal order tracking.daddr)
  else
    match ipv6ToBase10 mem.ipSrc tracking.saddr, ipv6ToBase10 mem.ipDst tracking.daddr with
    | some ipSrc, some ipDst => some (ipSrc, ipDst)
    | _, _ => none

/-- `(name<=value)(name'>=value)`. -/
def within (first last : String) (value : Bytes) : Bytes :=
  ascii ("(" ++ first ++ "<=") ++ value ++ ascii (")(" ++ last ++ ">=") ++ value ++ ascii ")"

/-- `(name=value)`. -/
def equals (name : String) (value : Bytes) : Bytes :=
  ascii ("(" ++ name ++ "=") ++ value ++ ascii ")"

/-- The criterion that an entry does not have the attribute. -/
def lacks (name : String) : Bytes := ascii ("(!(" ++ name ++ "=*))")

/-- The entry does not have the attribute, if the connection does not have it either. -/
def lacksIfNone (name : String) (value : Option Bytes) (filter : Bytes) : Bytes :=
  if value = none then strlcat filter (lacks name) else filter

/-- The entry has the attribute of the connection, or does not have it at all. The text is built in
a buffer of 256 bytes. -/
def hasOrLacks (name : String) (value : Option Bytes) (filter : Bytes) : Bytes :=
  match value with
  | none => strlcat filter (lacks name)
  | some value =>
    strlcat filter ((ascii ("(|(" ++ name ++ "=") ++ value ++ ascii ")" ++ lacks name ++
      ascii ")").take 255)

/-- An interface name that is not empty, as a string. `follows` is what stands behind it. -/
def ifaceString (name : Vector UInt8 16) (follows : Bytes) : Option Bytes :=
  if name.get 0 = 0 then none else some (cString (name.toList ++ follows))

/-- The start of the filter for TCP and UDP. A filter of another type is not written. -/
def ldapFilterHead (params : LdapParams) (mem : LdapMemory) (tracking : Tracking)
    (ipSrc ipDst : Bytes) : Option Bytes :=
  let proto := decimal tracking.protocol.toNat
  let dest := decimal tracking.dest.toNat
  let addresses := within "SrcIPStart" "SrcIPEnd" ipSrc ++ within "DstIPStart" "DstIPEnd" ipDst
  if params.ldapFilterType = 1 then
    secureSnprintf (ascii "(&(objectClass=NuAccessControlList)" ++ equals "Proto" proto ++
      equals "DstPort" dest ++ addresses)
  else if params.ldapFilterType = 0 then
    secureSnprintf (ascii "(&(objectClass=NuAccessControlList)" ++ addresses ++
      equals "Proto" proto ++ within "DstPortStart" "DstPortEnd" dest)
  else some (stringAt mem.filter)

/-- The rest of the filter for TCP and UDP. -/
def ldapFilterTail (mem : LdapMemory) (element : Connection) (filter : Bytes) : Bytes :=
  let iface := element.ifaceNfo
  let afterOutdev := iface.physoutdev.toList ++ mem.beyond element
  let afterPhysindev := iface.outdev.toList ++ afterOutdev
  let afterIndev := iface.physindev.toList ++ afterPhysindev
  let filter := lacksIfNone "OsName" element.osSysname filter
  let filter := lacksIfNone "OsRelease" element.osRelease filter
  let filter := lacksIfNone "OsVersion" element.osVersion filter
  let filter := lacksIfNone "AppName" element.appName filter
  let filter := hasOrLacks "AppSig" element.appSig filter
  let filter := hasOrLacks "InDev" (ifaceString iface.indev afterIndev) filter
  let filter := hasOrLacks "OutDev" (ifaceString iface.outdev afterOutdev) filter
  let filter := hasOrLacks "PhysInDev" (ifaceString iface.physindev afterPhysindev) filter
  let filter := hasOrLacks "PhysOutDev" (ifaceString iface.physoutdev (mem.beyond element)) filter
  strlcat filter (ascii ")")

/-- The filter, none when `acl_check` returns `NULL` without a search. -/
def ldapFilter (order : ByteOrder) (params : LdapParams) (mem : LdapMemory)
    (element : Connection) : Option Bytes :=
  match ldapAddresses order params mem element.tracking with
  | none => none
  | some (ipSrc, ipDst) =>
    let tracking := element.tracking
    if tracking.protocol = ipprotoTcp ∨ tracking.protocol = ipprotoUdp then
      (ldapFilterHead params mem tracking ipSrc ipDst).map (ldapFilterTail mem element)
    else if tracking.protocol = ipprotoIcmp then
      secureSnprintf (ascii "(&(objectClass=NuAccessControlList)" ++
        within "SrcIPStart" "SrcIPEnd" ipSrc ++ within "DstIPStart" "DstIPEnd" ipDst ++
        equals "Proto" (decimal tracking.protocol.toNat) ++
        within "SrcPortStart" "SrcPortEnd" (decimal tracking.type.toNat) ++
        within "DstPortStart" "DstPortEnd" (decimal tracking.code.toNat) ++ ascii ")")
    else some (stringAt mem.filter)

/-! ### Entries -/

/-- The attributes that are read. -/
inductive LdapAttribute where
  | appName | osName | osRelease | osVersion | timeRange | description | aclFlags | authQuality
  | aclWeight | decision | groupName | group | user

/-- An entry of the directory. -/
structure LdapEntry where
  values : LdapAttribute → List Bytes

/-- `field_match_pattern` returns `NU_EXIT_OK`. A pattern does not match `NULL`. -/
def fieldMatchPattern (glob : Bytes → Bytes → Bool) (value : Option Bytes)
    (patterns : List Bytes) : Bool :=
  patterns.isEmpty || patterns.any fun pattern ↦ value.any (glob pattern)

/-- The four patterns of `TEST_PATTERN`. -/
def LdapEntry.accepts (glob : Bytes → Bytes → Bool) (entry : LdapEntry) (element : Connection) :
    Bool :=
  fieldMatchPattern glob element.appName (entry.values .appName) &&
    fieldMatchPattern glob element.osSysname (entry.values .osName) &&
    fieldMatchPattern glob element.osRelease (entry.values .osRelease) &&
    fieldMatchPattern glob element.osVersion (entry.values .osVersion)

/-- `sscanf (text, "%d", &x)`: the number that is stored in `x`, if any. A number that does not fit
is the nearest `long`, cut to an `int`. -/
def scanInt (text : Bytes) : Option Int :=
  let text := text.dropWhile fun b ↦ b = 32 ∨ (9 ≤ b ∧ b ≤ 13)
  let (negative, text) := match text with
    | 45 :: text => (true, text)
    | 43 :: text => (false, text)
    | text => (false, text)
  let digits := text.takeWhile fun b ↦ 48 ≤ b ∧ b ≤ 57
  if digits = [] then none
  else
    let n : ℕ := digits.foldl (fun n b ↦ 10 * n + (b.toNat - 48)) 0
    let value : Int := if negative then max (-(n : Int)) (-2 ^ 63) else min (n : Int) (2 ^ 63 - 1)
    some (value.bmod (2 ^ 32))

/-- The first value of an attribute, as a number. -/
def LdapEntry.number (entry : LdapEntry) (a : LdapAttribute) : Int :=
  ((entry.values a).head?.bind scanInt).getD 0

/-- The numbers of an attribute, the last one first. One that cannot be read is the one before it,
which is left in `integer`. -/
def scanInts (values : List Bytes) (integer : Int) : List UInt32 × Int :=
  values.foldl (fun (numbers, integer) value ↦
    let integer := (scanInt value).getD integer
    (UInt32.ofInt integer :: numbers, integer)) ([], integer)

/-- A `decision_t`. -/
def Decision.ofInt? : Int → Option Decision
  | 0 => some .drop
  | 1 => some .accept
  | 2 => some .nodecide
  | 3 => some .reject
  | _ => none

/-- The `acl_group` of an entry, and what is left in `integer`. -/
def LdapEntry.aclGroup (conf : Params) (entry : LdapEntry) (integer : Int) :
    Option (AclGroup × Int) :=
  if entry.values .decision = [] then none
  else
    (Decision.ofInt? (entry.number .decision)).map fun answer ↦
      let (groups, integer) :=
        if conf.useGroupsName then ((entry.values .groupName).reverse.map GroupData.name, integer)
        else
          let (numbers, integer) := scanInts (entry.values .group) integer
          (numbers.map GroupData.gid, integer)
      let (users, integer) := scanInts (entry.values .user) integer
      ({ users := users
         groups := groups
         answer := answer
         period := (entry.values .timeRange).head?
         logPrefix := (entry.values .description).head?
         flags := UInt32.ofInt (entry.number .aclFlags)
         authQuality := entry.number .authQuality }, integer)

/-- `g_slist_insert_sorted` with `compare_acl_weight`. -/
def insertSorted (acl : AclGroup × Int) : List (AclGroup × Int) → List (AclGroup × Int)
  | [] => [acl]
  | acl' :: list =>
    if acl.2 - acl'.2 ≤ 0 then acl :: acl' :: list else acl' :: insertSorted acl list

/-- The loop over the entries that have been found. -/
def ldapEntries (conf : Params) (glob : Bytes → Bytes → Bool) (element : Connection) :
    List LdapEntry → Int → List (AclGroup × Int) → Option (List (AclGroup × Int))
  | [], _, list => some list
  | entry :: entries, integer, list =>
    if entry.accepts glob element then
      match entry.aclGroup conf integer with
      | none => none
      | some (acl, integer) =>
        let list :=
          if acl.groups = [] ∧ acl.users = [] then list
          else if conf.prioToNok = 2 then insertSorted (acl, entry.number .aclWeight) list
          else (acl, 0) :: list
        ldapEntries conf glob element entries integer list
    else ldapEntries conf glob element entries integer list

/-- `acl_check` of `ldap.c`. A search that fails gives no ACL. -/
def ldapAclCheck (conf : Params) (order : ByteOrder) (glob : Bytes → Bytes → Bool)
    (mem : LdapMemory) (params : LdapParams) (search : Bytes → Option (List LdapEntry))
    (element : Connection) : Option (List AclGroup) :=
  match (ldapFilter order params mem element).bind search with
  | none => some []
  | some entries => (ldapEntries conf glob element entries mem.integer []).map (List.map Prod.fst)

/-! ### Equal keys -/

/-- Every name ends before the array does. -/
structure IfaceNfo.Terminated (a : IfaceNfo) : Prop where
  indev : 0 ∈ a.indev.toList
  physindev : 0 ∈ a.physindev.toList
  outdev : 0 ∈ a.outdev.toList
  physoutdev : 0 ∈ a.physoutdev.toList

/-- A name that ends does not run into what follows it. -/
theorem ifaceString_eq {name : Vector UInt8 16} (h : 0 ∈ name.toList) (follows : Bytes) :
    ifaceString name follows = if ifaceChars name = [] then none else some (ifaceChars name) := by
  have hcut : cString (name.toList ++ follows) = ifaceChars name := by
    rw [cString, List.takeWhile_append, ifaceChars]
    refine if_neg fun hlength ↦ ?_
    have hself := (List.takeWhile_sublist (· ≠ (0 : UInt8))).eq_of_length hlength
    exact absurd (List.takeWhile_eq_self_iff.1 hself 0 h) (by decide)
  rw [ifaceString, hcut]
  simp only [ifaceChars_eq_nil_iff]

/-- The rest of the filter says the same of two connections of equal keys. -/
theorem SameKey.ldapFilterTail_eq {c c' : Connection} (h : SameKey c c') (mem : LdapMemory)
    (hsig : c.appSig = c'.appSig) (hnames : c.ifaceNfo.names = c'.ifaceNfo.names)
    (hc : c.ifaceNfo.Terminated) (hc' : c'.ifaceNfo.Terminated) (filter : Bytes) :
    ldapFilterTail mem c filter = ldapFilterTail mem c' filter := by
  simp only [IfaceNfo.names, Prod.mk.injEq] at hnames
  obtain ⟨hin, hphysin, hout, hphysout⟩ := hnames
  simp only [ldapFilterTail, ifaceString_eq hc.indev, ifaceString_eq hc.physindev,
    ifaceString_eq hc.outdev, ifaceString_eq hc.physoutdev, ifaceString_eq hc'.indev,
    ifaceString_eq hc'.physindev, ifaceString_eq hc'.outdev, ifaceString_eq hc'.physoutdev]
  rw [h.sysname, h.release, h.version, h.appname, hsig, hin, hphysin, hout, hphysout]

/-- The filter is the same. -/
theorem SameKey.ldapFilter_eq {c c' : Connection} (h : SameKey c c') (order : ByteOrder)
    (params : LdapParams) (mem : LdapMemory)
    (hsig : c.tracking.HasPorts → c.appSig = c'.appSig)
    (hnames : c.tracking.HasPorts → c.ifaceNfo.names = c'.ifaceNfo.names)
    (hc : c.ifaceNfo.Terminated) (hc' : c'.ifaceNfo.Terminated) :
    ldapFilter order params mem c = ldapFilter order params mem c' := by
  have haddresses : ldapAddresses order params mem c.tracking =
      ldapAddresses order params mem c'.tracking := by
    rw [ldapAddresses, ldapAddresses, h.saddr, h.daddr]
  have hhead : ∀ ipSrc ipDst, ldapFilterHead params mem c.tracking ipSrc ipDst =
      ldapFilterHead params mem c'.tracking ipSrc ipDst := by
    intro ipSrc ipDst
    rw [ldapFilterHead, ldapFilterHead, h.protocol, h.dest]
  rw [ldapFilter, ldapFilter, haddresses]
  cases ldapAddresses order params mem c'.tracking with
  | none => rfl
  | some addresses =>
    obtain ⟨ipSrc, ipDst⟩ := addresses
    dsimp only
    by_cases hports : c.tracking.HasPorts
    · have htail : ldapFilterTail mem c = ldapFilterTail mem c' :=
        funext fun filter ↦ h.ldapFilterTail_eq mem (hsig hports) (hnames hports) hc hc' filter
      rw [hhead, htail, h.protocol, h.type, h.code]
    · have hports' : ¬(c'.tracking.protocol = ipprotoTcp ∨ c'.tracking.protocol = ipprotoUdp) :=
        h.protocol ▸ hports
      rw [h.protocol, if_neg hports', if_neg hports', h.type, h.code]

/-- The patterns of the entries are matched against what equal keys have in common. -/
theorem SameKey.ldapEntries_eq {c c' : Connection} (h : SameKey c c') (conf : Params)
    (glob : Bytes → Bytes → Bool) (entries : List LdapEntry) (integer : Int)
    (list : List (AclGroup × Int)) :
    ldapEntries conf glob c entries integer list =
      ldapEntries conf glob c' entries integer list := by
  have haccepts : ∀ entry : LdapEntry, entry.accepts glob c = entry.accepts glob c' := by
    intro entry
    rw [LdapEntry.accepts, LdapEntry.accepts, h.appname, h.sysname, h.release, h.version]
  induction entries generalizing integer list with
  | nil => rfl
  | cons entry entries ih => simp only [ldapEntries, haccepts, ih]

/-- **What a directory can tell apart** of two connections of equal keys: the signature of the
application and the interface names, where the filter has them. -/
theorem SameKey.ldapAclCheck_eq {c c' : Connection} (h : SameKey c c') (conf : Params)
    (order : ByteOrder) (glob : Bytes → Bytes → Bool) (mem : LdapMemory) (params : LdapParams)
    (search : Bytes → Option (List LdapEntry))
    (hsig : c.tracking.HasPorts → c.appSig = c'.appSig)
    (hnames : c.tracking.HasPorts → c.ifaceNfo.names = c'.ifaceNfo.names)
    (hc : c.ifaceNfo.Terminated) (hc' : c'.ifaceNfo.Terminated) :
    ldapAclCheck conf order glob mem params search c =
      ldapAclCheck conf order glob mem params search c' := by
  rw [ldapAclCheck, ldapAclCheck, h.ldapFilter_eq order params mem hsig hnames hc hc']
  simp only [h.ldapEntries_eq]

end Nufw
