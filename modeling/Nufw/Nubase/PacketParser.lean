import Nufw.Lib.Memory

/-!
# Addresses, trackings and packet headers

`libs/nubase/ipv6.c` and `libs/nubase/packet_parser.c`: IPv6 addresses kept in network order as
sixteen bytes, the tracking that identifies a connection, and the parsers that fill it from the
headers of a datagram.

The parsers receive a pointer and a length, and check the length only where the source does. The
walk over IPv6 extension headers is a loop that need not end (a header announcing length zero is
read again for ever), so `getIpHeaders` carries a number of iterations and returns `none` when it
runs out of them.
-/

namespace Nufw

/-- Text without its final NUL. -/
abbrev Bytes := List UInt8

/-! ### Addresses -/

/-- `struct in6_addr`: sixteen bytes in network order. -/
abbrev In6Addr := Vector UInt8 16

/-- The bytes of an address, and of the name of an interface, start at `0`. -/
instance neZeroSixteen : NeZero 16 := ⟨by decide⟩

/-- `in6addr_any`, the address `::`. -/
def in6addrAny : In6Addr := Vector.replicate 16 0

/-- `ipv6_equal`: `memcmp` over the sixteen bytes. -/
def ipv6Equal (a b : In6Addr) : Bool := a == b

@[simp] theorem ipv6Equal_iff {a b : In6Addr} : ipv6Equal a b = true ↔ a = b := by
  simp [ipv6Equal]

/-- `uint32_to_ipv6`: the address `::ffff:a.b.c.d` of four bytes in network order. -/
def uint32ToIpv6 (v4 : Vector UInt8 4) : In6Addr :=
  (Vector.replicate 10 (0 : UInt8) ++ Vector.replicate 2 (0xff : UInt8)) ++ v4

/-- 192.168.0.2, for examples. -/
def clientAddr : In6Addr := uint32ToIpv6 #v[192, 168, 0, 2]

/-- 192.168.0.3, for examples. -/
def serverAddr : In6Addr := uint32ToIpv6 #v[192, 168, 0, 3]

/-- `is_ipv4`: the address has the prefix `::ffff:`. -/
def isIpv4 (a : In6Addr) : Bool :=
  a.toList.take 12 == [0, 0, 0, 0, 0, 0, 0, 0, 0, 0, 0xff, 0xff]

/-! ### Protocols and trackings -/

/-- `IPPROTO_ICMP`. -/
def ipprotoIcmp : UInt8 := 1
/-- `IPPROTO_TCP`. -/
def ipprotoTcp : UInt8 := 6
/-- `IPPROTO_UDP`. -/
def ipprotoUdp : UInt8 := 17
/-- `IPPROTO_ICMPV6`. -/
def ipprotoIcmpv6 : UInt8 := 58
/-- `IPPROTO_HOPOPTS`. -/
def ipprotoHopopts : UInt8 := 0
/-- `IPPROTO_ROUTING`. -/
def ipprotoRouting : UInt8 := 43
/-- `IPPROTO_FRAGMENT`. -/
def ipprotoFragment : UInt8 := 44
/-- `IPPROTO_AH`. -/
def ipprotoAh : UInt8 := 51
/-- `IPPROTO_DSTOPTS`. -/
def ipprotoDstopts : UInt8 := 60

/-- `tracking_t`: what identifies a connection. -/
structure Tracking where
  saddr : In6Addr
  daddr : In6Addr
  protocol : UInt8
  padding : UInt8
  dest : UInt16
  source : UInt16
  type : UInt8
  code : UInt8
  deriving DecidableEq

namespace Tracking

/-- The tracking of a connection allocated by `g_new0`. -/
def zero : Tracking := ⟨in6addrAny, in6addrAny, 0, 0, 0, 0, 0, 0⟩

/-- The protocol is one of the four supported ones. -/
def Supported (t : Tracking) : Prop :=
  t.protocol = ipprotoTcp ∨ t.protocol = ipprotoUdp ∨ t.protocol = ipprotoIcmp ∨
    t.protocol = ipprotoIcmpv6

instance (t : Tracking) : Decidable t.Supported :=
  inferInstanceAs (Decidable (_ ∨ _ ∨ _ ∨ _))

theorem not_supported {t : Tracking} (htcp : t.protocol ≠ ipprotoTcp)
    (hudp : t.protocol ≠ ipprotoUdp) (hicmp : t.protocol ≠ ipprotoIcmp)
    (hicmpv6 : t.protocol ≠ ipprotoIcmpv6) : ¬t.Supported := by
  rintro (h | h | h | h)
  · exact htcp h
  · exact hudp h
  · exact hicmp h
  · exact hicmpv6 h

/-- What both parsers leave in a tracking they accept: a protocol of the four supported ones, and
the fields that protocol does not use at zero. -/
structure Canonical (t : Tracking) : Prop where
  protocol_mem : t.protocol = ipprotoTcp ∨ t.protocol = ipprotoUdp ∨ t.protocol = ipprotoIcmp ∨
    t.protocol = ipprotoIcmpv6
  padding_eq : t.padding = 0
  /-- TCP and UDP have no type and no code. -/
  type_code_eq : t.protocol = ipprotoTcp ∨ t.protocol = ipprotoUdp → t.type = 0 ∧ t.code = 0
  /-- ICMP and ICMPv6 have no ports. -/
  ports_eq : t.protocol = ipprotoIcmp ∨ t.protocol = ipprotoIcmpv6 → t.source = 0 ∧ t.dest = 0

/-- The tracking of TCP or UDP ports. -/
theorem canonical_ports {t : Tracking} (hpadding : t.padding = 0)
    (hprotocol : t.protocol = ipprotoTcp ∨ t.protocol = ipprotoUdp) (source dest : UInt16) :
    Canonical { t with source := source, dest := dest, type := 0, code := 0 } where
  protocol_mem := hprotocol.elim Or.inl fun h ↦ Or.inr (Or.inl h)
  padding_eq := hpadding
  type_code_eq _ := ⟨rfl, rfl⟩
  ports_eq h := by
    have hne : ¬(t.protocol = ipprotoIcmp ∨ t.protocol = ipprotoIcmpv6) := by
      rcases hprotocol with hp | hp <;>
        simp [hp, ipprotoTcp, ipprotoUdp, ipprotoIcmp, ipprotoIcmpv6]
    exact absurd h hne

/-- The tracking of an ICMP type and code. -/
theorem canonical_typeCode {t : Tracking} (hpadding : t.padding = 0)
    (hprotocol : t.protocol = ipprotoIcmp ∨ t.protocol = ipprotoIcmpv6) (type code : UInt8) :
    Canonical { t with source := 0, dest := 0, type := type, code := code } where
  protocol_mem := Or.inr (Or.inr hprotocol)
  padding_eq := hpadding
  type_code_eq h := by
    have hne : ¬(t.protocol = ipprotoTcp ∨ t.protocol = ipprotoUdp) := by
      rcases hprotocol with hp | hp <;>
        simp [hp, ipprotoTcp, ipprotoUdp, ipprotoIcmp, ipprotoIcmpv6]
    exact absurd h hne
  ports_eq _ := ⟨rfl, rfl⟩

end Tracking

/-- `tcp_state_t`. -/
inductive TcpState where
  | drop
  | open
  | established
  | close
  | unknow
  deriving DecidableEq, Repr

/-! ### IP headers -/

/-- One turn of the loop over IPv6 extension headers: the next protocol and offset, or nothing
when the transport layer has been found. -/
def nextExtHeader (dgram : Memory) (protocol : UInt8) (offset : ℕ) : Option (UInt8 × ℕ) :=
  -- these four share the generic extension header
  if protocol = ipprotoHopopts ∨ protocol = ipprotoRouting ∨ protocol = ipprotoDstopts ∨
      protocol = ipprotoAh then
    some (dgram offset, offset + (dgram (offset + 1)).toNat * 8)
  -- a fragment header has a fixed size
  else if protocol = ipprotoFragment then some (dgram offset, offset + 8)
  else none

/-- The loop over IPv6 extension headers, for at most `fuel` turns. -/
def skipExtHeaders (dgram : Memory) : ℕ → UInt8 → ℕ → Option (UInt8 × ℕ)
  | 0, _, _ => none
  | fuel + 1, protocol, offset =>
    match nextExtHeader dgram protocol offset with
    | some (protocol', offset') => skipExtHeaders dgram fuel protocol' offset'
    | none => some (protocol, offset)

/-- `get_ip_headers`: fill the addresses and the protocol, and give the offset of the transport
header, `0` when the packet is not recognised. The outer `none` is a loop that has not ended
within `fuel` turns. -/
def getIpHeaders (fuel : ℕ) (t : Tracking) (dgram : Memory) (dgramSize : ℕ) :
    Option (Tracking × ℕ) :=
  if dgramSize < 20 then some (t, 0)
  else if dgram 0 / 16 = 4 then
    some ({ t with
      saddr := uint32ToIpv6 (dgram.bytes 12 4)
      daddr := uint32ToIpv6 (dgram.bytes 16 4)
      protocol := dgram 9 }, 4 * (dgram 0 % 16).toNat)
  else if dgram 0 / 16 = 6 then
    if dgramSize < 40 then some (t, 0)
    else
      (skipExtHeaders dgram fuel (dgram 6) 40).map fun r ↦
        ({ t with saddr := dgram.bytes 8 16, daddr := dgram.bytes 24 16, protocol := r.1 }, r.2)
  else some (t, 0)

theorem ne_ipv4_of_ipv6 {dgram : Memory} (h : dgram 0 / 16 = 6) : dgram 0 / 16 ≠ 4 := by
  rw [h]
  decide

/-- A complete header of IPv4. -/
theorem getIpHeaders_ipv4 {dgram : Memory} {size : ℕ} (t : Tracking) (fuel : ℕ)
    (hversion : dgram 0 / 16 = 4) (hsize : 20 ≤ size) :
    getIpHeaders fuel t dgram size = some ({ t with
      saddr := uint32ToIpv6 (dgram.bytes 12 4)
      daddr := uint32ToIpv6 (dgram.bytes 16 4)
      protocol := dgram 9 }, 4 * (dgram 0 % 16).toNat) := by
  rw [getIpHeaders, if_neg (by omega), if_pos hversion]

/-- A complete header of IPv6: the rest is up to the loop. -/
theorem getIpHeaders_ipv6 {dgram : Memory} {size : ℕ} (t : Tracking) (fuel : ℕ)
    (hversion : dgram 0 / 16 = 6) (hsize : 40 ≤ size) :
    getIpHeaders fuel t dgram size = (skipExtHeaders dgram fuel (dgram 6) 40).map fun r ↦
      ({ t with saddr := dgram.bytes 8 16, daddr := dgram.bytes 24 16, protocol := r.1 },
        r.2) := by
  rw [getIpHeaders, if_neg (by omega), if_neg (ne_ipv4_of_ipv6 hversion), if_pos hversion,
    if_neg (by omega)]

/-! ### Transport headers -/

/-- `get_udp_headers`: `none` is the error return. -/
def getUdpHeaders (t : Tracking) (dgram : Memory) (dgramSize : ℕ) : Option Tracking :=
  if dgramSize < 8 then none
  else some { t with source := dgram.be16 0, dest := dgram.be16 2, type := 0, code := 0 }

/-- `get_tcp_headers`. -/
def getTcpHeaders (t : Tracking) (dgram : Memory) (dgramSize : ℕ) : Tracking × TcpState :=
  if dgramSize < 20 then (t, .unknow)
  else
    let t := { t with source := dgram.be16 0, dest := dgram.be16 2, type := 0, code := 0 }
    let flags := dgram 13
    let fin := flags &&& 1 ≠ 0
    let syn := flags &&& 2 ≠ 0
    let rst := flags &&& 4 ≠ 0
    let ack := flags &&& 16 ≠ 0
    if fin ∨ rst then (t, .close)
    else if syn then if ack then (t, .established) else (t, .open)
    else (t, .unknow)

/-- `get_icmp_headers` and `get_icmpv6_headers` check the same size and fill the same fields. -/
def getIcmpHeaders (t : Tracking) (dgram : Memory) (dgramSize : ℕ) : Option Tracking :=
  if dgramSize < 8 then none
  else some { t with source := 0, dest := 0, type := dgram 0, code := dgram 1 }

/-- `get_icmpv6_headers`. -/
def getIcmpv6Headers (t : Tracking) (dgram : Memory) (dgramSize : ℕ) : Option Tracking :=
  getIcmpHeaders t dgram dgramSize

/-- The headers of a datagram: `get_ip_headers`, then the function of the transport protocol on what
is left. Nothing is filled when a header is not recognised or is not complete. -/
def getHeaders (fuel : ℕ) (t : Tracking) (dgram : Memory) (dgramSize : ℕ) : Option Tracking :=
  (getIpHeaders fuel t dgram dgramSize).bind fun (t, offset) ↦
    if offset = 0 then none
    else if t.protocol = ipprotoTcp then
      if dgramSize - offset < 20 then none
      else some (getTcpHeaders t (dgram.drop offset) (dgramSize - offset)).1
    else if t.protocol = ipprotoUdp then
      getUdpHeaders t (dgram.drop offset) (dgramSize - offset)
    else if t.protocol = ipprotoIcmp then
      getIcmpHeaders t (dgram.drop offset) (dgramSize - offset)
    else if t.protocol = ipprotoIcmpv6 then
      getIcmpv6Headers t (dgram.drop offset) (dgramSize - offset)
    else none

/-- A TCP SYN over IPv4, from 192.168.0.2 to port 22 of 192.168.0.3. -/
def synDgram : Bytes :=
  [0x45, 0, 0, 40, 0, 0, 0, 0, 64, 6, 0, 0, 192, 168, 0, 2, 192, 168, 0, 3,
    0x9c, 0x40, 0, 22, 0, 0, 0, 0, 0, 0, 0, 0, 0x50, 2, 0, 0, 0, 0, 0, 0]

end Nufw
