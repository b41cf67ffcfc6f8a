import Nufw.Lib.Wire
import Nufw.Nufw.Common
import Nufw.Nuauth.PcktAuthsrv

/-!
# Packets queued by the kernel

`nufw/packetsrv.c`: a packet that the kernel queues is either accepted at once and reported to the
authentication server (`AUTH_CONTROL`), or kept in the list of waiting packets while the server is
asked about it (`AUTH_REQUEST`).

The message of `auth_request_send` is built in a buffer of 512 bytes. Whether it could be written
on the TLS session, opened again if need be, is a parameter of `treatPacket`.
-/

namespace Nufw

/-- `struct queued_pckt`. -/
structure QueuedPckt where
  packetId : UInt32
  indev : Vector UInt8 16
  physindev : Vector UInt8 16
  outdev : Vector UInt8 16
  physoutdev : Vector UInt8 16
  mark : UInt32
  timestamp : Int
  payload : Memory
  payloadLen : ℕ

/-- The size of the buffer of `auth_request_send`. -/
def requestBufferSize : ℕ := 512

/-- The part of a payload that is sent. -/
def sentLength (payloadLen : ℕ) : ℕ :=
  if requestBufferSize < nuv4AuthMessageSize + payloadLen then
    requestBufferSize - nuv4AuthMessageSize
  else payloadLen

/-- The message of `auth_request_send`, none for a packet that is neither IPv4 nor IPv6. The mark
is stored as it is. -/
def authRequestMessage (order : ByteOrder) (type : UInt8) (pckt : QueuedPckt) : Option Bytes :=
  if pckt.payload 0 / 16 ≠ 4 ∧ pckt.payload 0 / 16 ≠ 6 then none
  else
    let payloadLen := sentLength pckt.payloadLen
    some ([UInt8.ofNat protoVersionNufwV24, type] ++
      htons (UInt16.ofNat (nuv4AuthMessageSize + payloadLen)) ++
      htonl pckt.packetId ++ htonl (UInt32.ofInt pckt.timestamp) ++
      order.bytes32 pckt.mark ++ pckt.indev.toList ++ pckt.physindev.toList ++
      pckt.outdev.toList ++ pckt.physoutdev.toList ++
      (pckt.payload.bytes 0 payloadLen).toList)

/-- `look_for_tcp_flags`: a TCP packet over IPv4 with `FIN`, `ACK` or `RST`. -/
def lookForTcpFlags (dgram : Memory) (datalen : ℕ) : Bool :=
  if datalen < 40 then false
  else if dgram 0 / 16 = 4 then
    if dgram 9 = ipprotoTcp then
      let flags := dgram (4 * (dgram 0 % 16).toNat + 13)
      decide (flags &&& 1 ≠ 0 ∨ flags &&& 16 ≠ 0 ∨ flags &&& 4 ≠ 0)
    else false
  else false

/-- What the library tells about a queued packet. -/
structure NfqData where
  /-- `nfq_get_payload`. -/
  payload : Option (Memory × ℕ)
  /-- `nfq_get_nfmark`. -/
  mark : UInt32
  /-- `get_interface_information`: the four names in the order of the message. -/
  ifaces : Option (Vector UInt8 16 × Vector UInt8 16 × Vector UInt8 16 × Vector UInt8 16)
  /-- `nfq_get_timestamp`. -/
  timestamp : Option Int
  /-- `nfq_get_msg_packet_hdr`. -/
  packetId : Option UInt32

/-- What `treat_packet` leaves. -/
structure Treated where
  packetsList : List PacketIdl
  /-- The messages written on the session. -/
  written : List Bytes
  calls : List NfqCall

/-- `auth_request_send`: whether it succeeds, and what it writes. -/
def authRequestSend (order : ByteOrder) (writable : Bool) (type : UInt8) (pckt : QueuedPckt) :
    Bool × List Bytes :=
  match authRequestMessage order type pckt with
  | none => (false, [])
  | some message => if writable then (true, [message]) else (false, [])

/-- The part of `treat_packet` for a packet that has to wait. -/
def askAuthentication (order : ByteOrder) (params : GatewayParams) (now : Int) (writable : Bool)
    (packetsList : List PacketIdl) (pckt : QueuedPckt) : Treated :=
  match padd params now packetsList ⟨pckt.packetId, pckt.timestamp, pckt.mark⟩ with
  | (false, packetsList, calls) => ⟨packetsList, [], calls⟩
  | (true, packetsList, calls) =>
    match authRequestSend order writable authRequest pckt with
    | (true, written) => ⟨packetsList, written, calls⟩
    | (false, written) =>
      let r := psearchAndDestroy params now pckt.packetId packetsList
      ⟨r.2.1, written, calls ++ [.setVerdict pckt.packetId .drop] ++ r.2.2⟩

/-- `treat_packet`. -/
def treatPacket (order : ByteOrder) (params : GatewayParams) (now : Int) (writable : Bool)
    (packetsList : List PacketIdl) (nfa : NfqData) : Treated :=
  match nfa.payload, nfa.ifaces, nfa.packetId with
  | some (payload, payloadLen), some (indev, physindev, outdev, physoutdev), some packetId =>
    let pckt : QueuedPckt :=
      { packetId, indev, physindev, outdev, physoutdev, mark := nfa.mark,
        timestamp := nfa.timestamp.getD now, payload, payloadLen }
    if lookForTcpFlags payload payloadLen then
      ⟨packetsList, (authRequestSend order writable authControl pckt).2,
        [.setVerdict packetId .accept]⟩
    else askAuthentication order params now writable packetsList pckt
  | _, _, _ => ⟨packetsList, [], []⟩

end Nufw
