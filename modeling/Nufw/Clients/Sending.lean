import Nufw.Lib.Wire
import Nufw.Nufw.Common
import Nufw.Nuauth.SendAuthResponse

/-!
# Announcements of a client

`clients/lib/sending.c`: a client announces its new connections to the authentication server, up to
`CONN_MAX` of them in one message. Each comes with the name of the application that has opened it,
in base 64, and with a signature of that application when the session asks for it.

The names and the signatures come from the cache of `proc.c`; `PrgCache` carries what that file
makes sure of. The message is built in a buffer of `PACKET_SIZE` bytes; here it is the list of its
bytes. A length is 16 bits wide, and the assertion on the length of the header is the only check.
-/

namespace Nufw

/-! ### The cache of the applications -/

/-- `BASE64` of a number below 64. -/
def base64Char (n : UInt8) : UInt8 :=
  if n < 26 then 65 + n
  else if n < 52 then 97 + (n - 26)
  else if n < 62 then 48 + (n - 52)
  else if n = 62 then 43
  else 47

/-- `sasl_encode64`, when there is room for the result. -/
def saslEncode64 : Bytes → Bytes
  | [] => []
  | [a] => [base64Char (a >>> 2), base64Char ((a &&& 3) <<< 4), 61, 61]
  | [a, b] =>
    [base64Char (a >>> 2), base64Char ((a &&& 3) <<< 4 ||| b >>> 4),
      base64Char ((b &&& 15) <<< 2), 61]
  | a :: b :: c :: bs =>
    base64Char (a >>> 2) :: base64Char ((a &&& 3) <<< 4 ||| b >>> 4) ::
      base64Char ((b &&& 15) <<< 2 ||| c >>> 6) :: base64Char (c &&& 63) :: saslEncode64 bs

theorem length_saslEncode64 (bs : Bytes) :
    (saslEncode64 bs).length = 4 * ((bs.length + 2) / 3) := by
  induction bs using saslEncode64.induct with
  | case1 => rfl
  | case2 a => simp [saslEncode64]
  | case3 a b => simp [saslEncode64]
  | case4 a b c bs ih =>
    simp only [saslEncode64, List.length_cons, ih]
    omega

theorem toNat_shiftRight {a k : UInt8} (hk : k.toNat < 8) :
    (a >>> k).toNat = a.toNat / 2 ^ k.toNat := by
  rw [UInt8.toNat_shiftRight, Nat.mod_eq_of_lt hk, Nat.shiftRight_eq_div_pow]

/-- `SHA512_PREFIX`: `{SHA512}`. -/
def sha512Prefix : Bytes := [123, 83, 72, 65, 53, 49, 50, 125]

/-- A hexadecimal digit. -/
def IsHexDigit (b : UInt8) : Prop := (48 ≤ b ∧ b ≤ 57) ∨ (65 ≤ b ∧ b ≤ 70) ∨ (97 ≤ b ∧ b ≤ 102)

/-- What `prg_cache_getsig` returns: an empty text, `-`, or the digest of the file in
hexadecimal digits after its prefix. -/
def IsSignature (sig : Bytes) : Prop :=
  sig = [] ∨ sig = [45] ∨
    ∃ digits, digits.length = 128 ∧ (∀ d ∈ digits, IsHexDigit d) ∧ sig = sha512Prefix ++ digits

/-- `PROGNAME_WIDTH`. -/
def prognameWidth : ℕ := 64

/-- The cache of `proc.c`. -/
structure PrgCache where
  /-- `prg_cache_get`. -/
  get : UInt64 → Bytes
  /-- `prg_cache_getsig`. -/
  getsig : UInt64 → Bytes
  /-- A name is copied with its NUL into an array of `PROGNAME_WIDTH`. -/
  length_get : ∀ inode, (get inode).length < prognameWidth
  /-- A name ends at its NUL. -/
  zero_notMem_get : ∀ inode, 0 ∉ get inode
  isSignature_getsig : ∀ inode, IsSignature (getsig inode)

/-! ### The message -/

/-- `conn_t`, as far as announcements are concerned. -/
structure ConnT where
  protocol : UInt32
  ipSrc : In6Addr
  portSrc : UInt16
  ipDst : In6Addr
  portDst : UInt16
  inode : UInt64

/-- `CONN_MAX`. -/
def connMax : ℕ := 7

/-- `PACKET_SIZE`: for each item a request, an IPv6 field, two fields of an application, the room of
`PROGNAME_BASE64_WIDTH` for the name and of four digests for the signature. -/
def packetSize : ℕ := 4 + connMax * (4 + 44 + 2 * 4 + 2 * prognameWidth + 4 * 64)

/-- `struct nu_authfield_ipv6`. -/
def authfieldIpv6 (c : ConnT) : Bytes :=
  [2, 0] ++ htons 44 ++ c.ipSrc.toList ++ c.ipDst.toList ++ [c.protocol.toUInt8, 0, 0, 0] ++
    htons c.portSrc ++ htons c.portDst

/-- A `struct nu_authfield_app` with its content. -/
def authfieldApp (type option : UInt8) (content : Bytes) : Bytes :=
  [type, option] ++ htons (UInt16.ofNat (4 + content.length)) ++ content

/-- The fields of an item. -/
def itemFields (cache : PrgCache) (hash : Bool) (c : ConnT) : Bytes :=
  authfieldIpv6 c ++ authfieldApp 3 1 (saslEncode64 (cache.get c.inode)) ++
    if hash then authfieldApp 9 0 (cache.getsig c.inode) else []

/-- One item: `struct nu_authreq` and its fields. The number is stored as it is. -/
def authreqItem (order : ByteOrder) (cache : PrgCache) (hash : Bool) (seq : UInt32) (c : ConnT) :
    Bytes :=
  hostBytes16 order seq.toUInt16 ++
    htons (UInt16.ofNat (4 + (itemFields cache hash c).length)) ++ itemFields cache hash c

/-- The loop of `send_user_pckt`, which fails when its assertion does. -/
def sendLoop (order : ByteOrder) (cache : PrgCache) (hash : Bool) :
    UInt32 → Bytes → List ConnT → Option Bytes
  | _, data, [] => some data
  | seq, data, c :: carray =>
    let data := data ++ authreqItem order cache hash seq c
    if (4 + data.length) % 65536 < packetSize then sendLoop order cache hash (seq + 1) data carray
    else none

/-- `send_user_pckt`: the message that is written. -/
def sendUserPckt (order : ByteOrder) (cache : PrgCache) (hash : Bool) (packetSeq : UInt32)
    (carray : List ConnT) : Option Bytes :=
  (sendLoop order cache hash packetSeq [] (carray.take connMax)).map fun data ↦
    [0x36, 0] ++ htons (UInt16.ofNat (4 + data.length)) ++ data

end Nufw
