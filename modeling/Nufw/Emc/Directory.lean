import Nufw.Lib.Reader
import Nufw.Lib.SearchTree
import Nufw.Nubase.Strings

/-!
# The directory of EMC

EMC passes the requests of a host on to the nuauth servers in whose networks it is. The networks are
read from a file, with a line `address/length server` for each (`emc_data_parser.c`), and kept in a
search tree (`emc_directory.c`); the worker asks each of them (`emc_worker.c`).

`getaddrinfo` is a parameter: the first address that a text stands for. What C leaves undefined, and
what makes the program crash, is `none` here: a `NULL` pointer that is written through, `strdup` of
one, and a shift by 32 bits or more.
-/

namespace Nufw.Emc

/-- An address, with its family. -/
inductive IpAddr where
  | inet (u4 : BitVec 32)
  | inet6 (addr : In6Addr)
  deriving DecidableEq

/-- What `getaddrinfo` finds first. -/
inductive AddrInfo where
  | ip (addr : IpAddr)
  /-- Another family. -/
  | other

/-- `getaddrinfo`: nothing if it fails. -/
abbrev Resolver := Bytes → Option AddrInfo

namespace IpAddr

/-- `AF_INET` and `AF_INET6`. -/
def family : IpAddr → ℕ
  | inet _ => 2
  | inet6 _ => 10

/-- The words of the address, in host order. -/
def words : IpAddr → List ℕ
  | inet u4 => [u4.toNat]
  | inet6 addr => (List.range 4).map fun i ↦ ofBigEndian ((addr.toList.drop (4 * i)).take 4)

end IpAddr

/-- `struct emc_netmask_t`. The mask of an IPv6 network is never set, the server only by
`_emc_parse_line`. -/
structure Netmask where
  ip : IpAddr
  mask : Option (BitVec 32) := none
  length : ℕ
  nuauthServer : Option Bytes := none
  deriving DecidableEq

/-! ### The data file -/

/-- The address and the length of the mask: `a/n`, or `[a]/n`. -/
def splitMask (str : Bytes) : Option (Bytes × Bytes) :=
  if str.head? = some 91 then do
    let (mask, ptr) ← strchr (str.drop 1) 93
    if ptr.head? = some 47 then some (mask, ptr.drop 1) else none
  else strchr str 47

/-- `_extract_ip_mask`. The length is cut to 16 bits. -/
def extractIpMask (str : Bytes) : Option (Bytes × ℕ) := do
  let (mask, ptr) ← splitMask str
  let (ul, errptr) := strtoul ptr
  if errptr = [] then some (mask, ul % 2 ^ 16) else none

/-- `_convert_str_to_netmask`. -/
def convertStrToNetmask (resolve : Resolver) (mask : Bytes) (masklen : ℕ) :
    Option (Option Netmask) :=
  match resolve mask with
  | some (.ip (.inet u4)) =>
    -- `0xffffffff << (32-masklen)`
    if masklen = 0 ∨ 32 < masklen then none
    else some (some { ip := .inet u4
                      mask := some (0xffffffff#32 <<< (32 - masklen)), length := masklen })
  | some (.ip (.inet6 addr)) => some (some { ip := .inet6 addr, length := masklen })
  | some .other => some none
  | none => some none

/-- The characters that separate the fields of a line. -/
def isDelim (c : UInt8) : Bool := c = 32 || c = 13 || c = 10

/-- `g_strsplit_set`, of a text that is not empty, into at most `n + 1` fields. -/
def strsplitSet : ℕ → Bytes → List Bytes
  | 0, text => [text]
  | n + 1, text =>
    if text.any isDelim then
      text.takeWhile (!isDelim ·) :: strsplitSet n ((text.dropWhile (!isDelim ·)).drop 1)
    else [text]

/-- The fields of a line. An empty text has none. -/
def fields (line : Bytes) : List Bytes := if line = [] then [] else strsplitSet 2 line

/-- `_emc_parse_line`. The server is copied whether or not there is a network, since the `if` over
that statement lacks its braces. -/
def emcParseLine (resolve : Resolver) (line : Bytes) : Option (Option Netmask) :=
  match fields line with
  | [] => some none
  | field :: rest =>
    match extractIpMask field with
    | none => none
    | some (mask, masklen) =>
      match convertStrToNetmask resolve mask masklen, rest with
      | some (some netmask), server :: _ => some (some { netmask with nuauthServer := some server })
      | _, _ => none

/-- What `emc_parse_datafile` reads with its buffer of 1024 bytes. -/
def buffers (file : Bytes) : List Bytes := (readAll 1023 file.length file).map cString

/-! ### The tree -/

/-- The loop of `emc_netmask_order_func`, over one word or four. -/
def orderWords : List ℕ → List ℕ → Ordering
  | u₁ :: w₁, u₂ :: w₂ =>
    if u₁ < u₂ then .lt else if u₂ < u₁ then .gt else orderWords w₁ w₂
  | _, _ => .eq

/-- `emc_netmask_order_func`. -/
def emcNetmaskOrderFunc (val₁ val₂ : Netmask) : Ordering :=
  if val₁.ip.family < val₂.ip.family then .lt
  else if val₂.ip.family < val₁.ip.family then .gt
  else orderWords val₁.ip.words val₂.ip.words

/-- One round of the loop of `emc_parse_datafile`: a line without a network is left out. -/
def insertLine (resolve : Resolver) (directory : List Netmask) (line : Bytes) :
    Option (List Netmask) :=
  match emcParseLine resolve line with
  | none => none
  | some none => some directory
  | some (some netmask) => some (SearchTree.insert emcNetmaskOrderFunc netmask directory)

/-- `emc_parse_datafile`: the `nuauth_directory`. -/
def emcParseDatafile (resolve : Resolver) (file : Bytes) : Option (List Netmask) :=
  (buffers file).foldlM (insertLine resolve) []

/-- `emc_netmask_is_included`. For IPv6 nothing is compared. -/
def emcNetmaskIsIncluded (resolve : Resolver) (netmask : Netmask) (ip : Bytes) : Bool :=
  match resolve ip, netmask.ip, netmask.mask with
  | some (.ip (.inet ipv4)), .inet u4, some mask => ipv4 &&& mask = u4
  | _, _, _ => false

/-! ### The worker -/

/-- `struct emc_client_context`: a nuauth server that is connected. -/
structure ClientContext where
  socket : ℕ
  address : Bytes
  deriving DecidableEq

/-- `_emc_check_send_auth_request`: the servers that the request is written to. -/
def emcCheckSendAuthRequest (resolve : Resolver) (clients : List ClientContext) (hostname : Bytes)
    (netmask : Netmask) : List ClientContext :=
  if emcNetmaskIsIncluded resolve netmask hostname then
    clients.filter fun ctx ↦ netmask.nuauthServer = some ctx.address
  else []

/-- `_emc_dispatch_auth_requests`. -/
def emcDispatchAuthRequests (resolve : Resolver) (directory : List Netmask)
    (clients : List ClientContext) (hostname : Bytes) : List ClientContext :=
  directory.flatMap (emcCheckSendAuthRequest resolve clients hostname)

end Nufw.Emc
