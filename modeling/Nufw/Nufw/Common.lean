import Mathlib.Data.List.Basic
import Nufw.Nubase.PacketParser

/-!
# The waiting packets of a gateway

`nufw/common.c`: the list of the packets that wait for an answer of the authentication server, and
the ICMP messages that tell the sender of a packet that it has been rejected.

What the gateway asks of the kernel is kept as the list of the calls it makes (`NfqCall`,
`IcmpPacket`). Time is a parameter: each function reads the clock once.
-/

namespace Nufw

/-! ### Calls to the kernel -/

/-- `NF_DROP` and `NF_ACCEPT`. -/
inductive NfVerdict where
  | drop
  | accept
  deriving DecidableEq, Repr

/-- A call to `libnetfilter_queue`. A mark is given in network order: the number is the one whose
bytes in memory are those of the mark in that order. -/
inductive NfqCall where
  | setVerdict (packetId : UInt32) (verdict : NfVerdict)
  | setVerdictMark (packetId : UInt32) (verdict : NfVerdict) (mark : UInt32)
  | setVerdictMarkExptime (packetId : UInt32) (verdict : NfVerdict) (mark exptime : UInt32)
  deriving DecidableEq, Repr

/-- `packet_idl`: a packet that waits. -/
structure PacketIdl where
  id : UInt32
  timestamp : Int
  nfmark : UInt32
  deriving DecidableEq

/-- The options of a gateway. -/
structure GatewayParams where
  /-- `track_size`. -/
  trackSize : Int
  /-- `packet_timeout`. -/
  packetTimeout : Int
  /-- `nufw_set_mark`. -/
  setMark : Bool
  /-- The library has `nfq_set_verdict_mark_exptime`. -/
  haveNfqMarkExptime : Bool
  /-- `raw_sock6` has been opened. -/
  rawSock6 : Bool

/-! ### The list -/

/-- `padd`: the packet is added at the end, or dropped when the list is full. -/
def padd (params : GatewayParams) (now : Int) (packetsList : List PacketIdl)
    (current : PacketIdl) : Bool × List PacketIdl × List NfqCall :=
  if params.trackSize ≤ packetsList.length then
    (false, packetsList, [.setVerdict current.id .drop])
  else
    let timestamp := if current.timestamp = 0 then now else current.timestamp
    (true, packetsList ++ [{ current with timestamp := timestamp }], [])

/-- The loop of `psearch_and_destroy`: `previous` are the packets it has passed. It starts again
from the head once it has suppressed an old packet. -/
def psearchLoop (params : GatewayParams) (now : Int) (packetId : UInt32)
    (previous current : List PacketIdl) (calls : List NfqCall) :
    Option UInt32 × List PacketIdl × List NfqCall :=
  match current with
  | [] => (none, previous, calls)
  | e :: next =>
    if e.id = packetId then (some e.nfmark, previous ++ next, calls)
    else if params.packetTimeout < now - e.timestamp then
      psearchLoop params now packetId [] (previous ++ next) (calls ++ [.setVerdict e.id .drop])
    else psearchLoop params now packetId (previous ++ [e]) next calls
termination_by (previous.length + current.length, current.length)
decreasing_by
  · simp_wf
    omega
  · simp_wf
    omega

/-- `psearch_and_destroy`: the mark of the packet, if it waits, which it then does no longer. -/
def psearchAndDestroy (params : GatewayParams) (now : Int) (packetId : UInt32)
    (packetsList : List PacketIdl) : Option UInt32 × List PacketIdl × List NfqCall :=
  psearchLoop params now packetId [] packetsList []

/-- `clean_old_packets`: the old packets at the head are dropped, up to the first that is not
old. -/
def cleanOldPackets (params : GatewayParams) (now : Int) :
    List PacketIdl → List PacketIdl × List NfqCall
  | [] => ([], [])
  | e :: next =>
    if params.packetTimeout < now - e.timestamp then
      let (packetsList, calls) := cleanOldPackets params now next
      (packetsList, .setVerdict e.id .drop :: calls)
    else (e :: next, [])

/-! ### Rejections -/

/-- An ICMP message handed to the kernel: the address it goes to and its bytes. -/
inductive IcmpPacket where
  | ipv4 (dest : Vector UInt8 4) (message : Bytes)
  | ipv6 (dest : In6Addr) (message : Bytes)
  deriving DecidableEq

/-- The sum of `icmp_cksum` over `n` words, in the order of the host. -/
def sumWords (order : ByteOrder) (buf : Memory) : ℕ → UInt32
  | 0 => 0
  | n + 1 => sumWords order buf n + (buf.host16 order (2 * n)).toUInt32

/-- `icmp_cksum`. The last byte of an odd number of bytes is read with the byte after it. -/
def icmpCksum (order : ByteOrder) (buf : Memory) (nbytes : ℕ) : UInt16 :=
  let sum := sumWords order buf ((nbytes + 1) / 2)
  let sum := (sum >>> 16) + (sum &&& 0xffff)
  let sum := sum + (sum >>> 16)
  (~~~sum).toUInt16

/-- The two bytes of a number in the order of the host. -/
def hostBytes16 (order : ByteOrder) (x : UInt16) : Bytes :=
  match order with
  | .little => [x.toUInt8, (x >>> 8).toUInt8]
  | .big => [(x >>> 8).toUInt8, x.toUInt8]

/-- `sizeof (struct icmphdr)` and `sizeof (struct icmp6_hdr)`. -/
def icmphdrSize : ℕ := 8

/-- What a function that sends an ICMP message does. -/
inductive IcmpOutcome where
  /-- It returns `-1`. -/
  | error
  /-- It copies a negative number of bytes. -/
  | fault
  /-- There is no socket to send the message on. -/
  | skipped
  | sent (packet : IcmpPacket)
  deriving DecidableEq

/-- `send_icmp_ipv4_unreach`: what follows the IP header is quoted, and sent back to the source.
`stack` is what the buffer holds before it is written. -/
def sendIcmpIpv4Unreach (order : ByteOrder) (stack payload : Memory) (payloadLen : ℕ) :
    IcmpOutcome :=
  if 256 < payloadLen + icmphdrSize then .error
  else if payloadLen < 20 then .fault
  else
    let quoted := (payload.bytes 20 (payloadLen - 20)).toList
    let buffer := stack.write 0 ([3, 3, 0, 0, 0, 0, 0, 0] ++ quoted)
    let size := icmphdrSize + payloadLen - 20
    .sent (.ipv4 (payload.bytes 12 4)
      ([3, 3] ++ hostBytes16 order (icmpCksum order buffer size) ++ [0, 0, 0, 0] ++ quoted))

/-- `send_icmp_ipv6_unreach`: the whole packet is quoted, and the kernel computes the checksum. -/
def sendIcmpIpv6Unreach (rawSock6 : Bool) (payload : Memory) (payloadLen : ℕ) : IcmpOutcome :=
  if 256 < payloadLen + icmphdrSize then .error
  else if !rawSock6 then .skipped
  else .sent (.ipv6 (payload.bytes 8 16)
    ([1, 0, 0, 0, 0, 0, 0, 0] ++ (payload.bytes 0 payloadLen).toList))

/-- `AF_INET`. -/
def afInet : UInt8 := 2

/-- `send_icmp_unreach`: the version field tells IPv4 from IPv6. -/
def sendIcmpUnreach (order : ByteOrder) (rawSock6 : Bool) (stack payload : Memory)
    (payloadLen : ℕ) : IcmpOutcome :=
  if payload 0 / 16 = afInet then sendIcmpIpv4Unreach order stack payload payloadLen
  else sendIcmpIpv6Unreach rawSock6 payload payloadLen

end Nufw
