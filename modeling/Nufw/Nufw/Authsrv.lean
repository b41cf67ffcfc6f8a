import Nufw.Lib.Wire
import Nufw.Nufw.Common
import Nufw.Nuauth.SendAuthResponse

/-!
# Answers of the authentication server

`nufw/authsrv.c`: a gateway reads an answer from its TLS session, first the header and then the
payload that the header announces, and sets the verdict of the packet that it is about.

`nussl_read` gives some of the bytes that the server has sent, at most as many as are asked for, or
fails (`ReadResult`). A call of `authsrv` reads up to four times; `reads` says how each of these
reads turns out.
-/

namespace Nufw

/-! ### Processing an answer -/

/-- What the gateway tells the kernel, and the packets that wait. -/
structure Gateway where
  packetsList : List PacketIdl
  calls : List NfqCall
  icmp : List IcmpOutcome

/-- The machine and the options a gateway runs with. -/
structure GatewayEnv where
  host : Host
  params : GatewayParams
  /-- What the buffer of `authsrv` holds before it is written. -/
  cdgram : Memory

/-- `sizeof (nuv4_nuauth_decision_response_t)`. -/
def nuv4DecisionResponseSize : ℕ := 16
/-- `sizeof (nuv5_nuauth_decision_response_t)`. -/
def nuv5DecisionResponseSize : ℕ := 20

/-- The verdict on an accepted packet. The mark is taken as it stands in the message. -/
def acceptCall (env : GatewayEnv) (packetId : UInt32) (dgram : Memory) : NfqCall :=
  if env.params.setMark then
    if env.params.haveNfqMarkExptime ∧ dgram.be32 12 ≠ 0xffffffff then
      .setVerdictMarkExptime packetId .accept (dgram.host32 env.host.order 8) (dgram.be32 12)
    else .setVerdictMark packetId .accept (dgram.host32 env.host.order 8)
  else .setVerdict packetId .accept

/-- `auth_process_answer`: the length of the message, none for `-1`, and what is done. -/
def authProcessAnswer (env : GatewayEnv) (now : Int) (g : Gateway) (dgram : Memory)
    (dgramSize : ℕ) : Option ℕ × Gateway :=
  if dgramSize < nuv4DecisionResponseSize then (none, g)
  else
    let payloadLen := (dgram.be16 16).toNat
    let msgLen := payloadLen + nuv5DecisionResponseSize
    if dgramSize < msgLen then (none, g)
    else
      let packetId := dgram.be32 4
      match psearchAndDestroy env.params now packetId g.packetsList with
      | (none, packetsList, dropped) =>
        (none, { g with packetsList := packetsList, calls := g.calls ++ dropped })
      | (some _, packetsList, dropped) =>
        let g := { g with packetsList := packetsList, calls := g.calls ++ dropped }
        if dgram 2 = Decision.accept.toByte then
          (some msgLen, { g with calls := g.calls ++ [acceptCall env packetId dgram] })
        else if dgram 2 = Decision.reject.toByte then
          (some msgLen, { g with
            calls := g.calls ++ [.setVerdict packetId .drop]
            icmp := g.icmp ++ [sendIcmpUnreach env.host.order env.params.rawSock6 env.host.stack
              (dgram.drop nuv5DecisionResponseSize) payloadLen] })
        else (some msgLen, { g with calls := g.calls ++ [.setVerdict packetId .drop] })

/-- `auth_packet_to_decision`. -/
def authPacketToDecision (env : GatewayEnv) (now : Int) (g : Gateway) (dgram : Memory)
    (dgramSize : ℕ) : Option ℕ × Gateway :=
  if dgramSize < 2 then (none, g)
  else if dgram 0 ≠ UInt8.ofNat protoVersionNufwV24 then (none, g)
  else if dgram 1 = authAnswer then authProcessAnswer env now g dgram dgramSize
  else (none, g)

/-- The loop at the end of `authsrv`: the messages that are processed, and the gateway. A message
takes at least one byte, so that `left` turns are enough for `left` bytes. -/
def decisionLoop (env : GatewayEnv) (now : Int) :
    ℕ → Gateway → Memory → ℕ → List Bytes × Gateway
  | 0, g, _, _ => ([], g)
  | fuel + 1, g, dgram, left =>
    let (ret, g) := authPacketToDecision env now g dgram left
    let message := (dgram.bytes 0 (ret.getD left)).toList
    match ret with
    | none => ([message], g)
    | some size =>
      if size < left then
        let (messages, g) := decisionLoop env now fuel g (dgram.drop size) (left - size)
        (message :: messages, g)
      else ([message], g)

/-! ### Reading an answer -/

/-- How a call of `nussl_read` turns out. -/
inductive ReadResult where
  /-- At most this many bytes are given, and one more. -/
  | data (n : ℕ)
  /-- The call fails with `Resource temporarily unavailable`. -/
  | unavailable
  /-- The call fails in another way. -/
  | error
  /-- The other end has closed the session. -/
  | closed
  deriving DecidableEq

/-- What `nussl_read` gives when it is asked for `size` bytes. -/
inductive Received where
  | bytes (bs : Bytes)
  | unavailable
  | error
  | closed
  deriving DecidableEq

/-- `nussl_read`: at least one byte and at most `size`, from the head of what has been sent and not
been read yet. -/
def nusslRead (stream : Bytes) (size : ℕ) : ReadResult → Received × Bytes
  | .data n =>
    if stream = [] then (.unavailable, stream)
    else (.bytes (stream.take (min (n + 1) size)), stream.drop (min (n + 1) size))
  | .unavailable => (.unavailable, stream)
  | .error => (.error, stream)
  | .closed => (.closed, stream)

/-- How reading the header ends. -/
inductive HeaderRead where
  /-- The header is in the buffer; the number of reads it has taken. -/
  | complete (buffer : Memory) (stream : Bytes) (passes : ℕ)
  /-- Three passes have not been enough. -/
  | gaveUp (stream : Bytes)
  /-- The session has been closed. -/
  | shut (stream : Bytes)

/-- The loop that reads the header, with `left` passes to go. -/
def readHeader (reads : ℕ → ReadResult) : ℕ → Memory → ℕ → Bytes → HeaderRead
  | 0, _, _, stream => .gaveUp stream
  | left + 1, buffer, offset, stream =>
    match nusslRead stream (nuv5DecisionResponseSize - offset) (reads (2 - left)) with
    | (.unavailable, stream) => readHeader reads left buffer offset stream
    | (.error, stream) => .shut stream
    | (.closed, stream) => .shut stream
    | (.bytes bs, stream) =>
      if bs.length ≠ nuv5DecisionResponseSize - offset then
        readHeader reads left (buffer.write offset bs) (offset + bs.length) stream
      else .complete (buffer.write offset bs) stream (3 - left)

/-- The session of a gateway, what the server has sent on it and has not been read, and the messages
that have been processed. -/
structure AnswerSession where
  /-- `tls.session` is not `NULL`. -/
  session : Bool
  stream : Bytes
  gateway : Gateway
  processed : List Bytes

/-- The end of `authsrv`: `size` bytes have been read. -/
def AnswerSession.process (env : GatewayEnv) (now : Int) (s : AnswerSession) (buffer : Memory)
    (size : ℕ) (stream : Bytes) : AnswerSession :=
  let (messages, gateway) := decisionLoop env now size s.gateway buffer size
  { s with stream := stream, gateway := gateway, processed := s.processed ++ messages }

/-- The size of the buffer of `authsrv`. -/
def answerBufferSize : ℕ := 512

/-- `authsrv`. -/
def authsrv (env : GatewayEnv) (now : Int) (reads : ℕ → ReadResult) (s : AnswerSession) :
    NuError × AnswerSession :=
  if s.session = false then (.error, s)
  else
    match readHeader reads 3 env.cdgram 0 s.stream with
    | .shut stream => (.error, { s with session := false, stream := stream })
    | .gaveUp stream => (.error, { s with stream := stream })
    | .complete buffer stream passes =>
      let readSize := (buffer.be16 16).toNat
      let size := nuv5DecisionResponseSize + readSize
      if readSize = 0 then (.ok, s.process env now buffer size stream)
      else if answerBufferSize < size then
        (.error, { s with session := false, stream := stream })
      else
        match nusslRead stream readSize (reads passes) with
        | (.bytes bs, stream) =>
          if bs.length ≠ readSize then (.error, { s with stream := stream })
          else (.ok, s.process env now (buffer.write nuv5DecisionResponseSize bs) size stream)
        | (_, stream) => (.error, { s with stream := stream })

end Nufw
