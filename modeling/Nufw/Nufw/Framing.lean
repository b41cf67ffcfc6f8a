import Nufw.Lib.Transition
import Nufw.Nufw.Answers

/-!
# Framing of the answers

The server writes its answers one after the other on the session of a gateway, and each call of
`authsrv` is to take one of them. What `nussl_read` gives at a time is up to the network, so a call
may find that it cannot get a whole message.

Two returns of `authsrv` leave the session open in the middle of a message: after three passes that
have given a part of the header, and after a single read that has not given the whole payload, or
nothing at all. The next call then takes what follows for a header. In the runs in which no call
meets one of the two (`Whole`), the messages are processed in order and each once, as long as the
session is open (`Framed`).
-/

namespace Nufw

/-! ### Messages -/

/-- A message that the server sends: an answer in the current protocol. -/
def AnswerMessage (message : Bytes) : Prop :=
  ∃ host element packetId, element.nufwVersion = protoVersionNufwV24 ∧
    element.payloadLen ≤ storedPayloadSize ∧ authResponse host element packetId = some message

/-- What framing needs to know of a message in memory. -/
theorem AnswerMessage.holds {message : Bytes} (h : AnswerMessage message) {m : Memory}
    (hm : m.Holds 0 message) :
    m 0 = UInt8.ofNat protoVersionNufwV24 ∧ m 1 = authAnswer ∧
      (m.be16 16).toNat + nuv5DecisionResponseSize = message.length ∧
      message.length ≤ responseBufferSize := by
  obtain ⟨host, element, packetId, hversion, hpayload, hmessage⟩ := h
  have hanswer := isAnswer hversion hpayload hmessage hm
  refine ⟨hanswer.version, hanswer.type, ?_, length_authResponse_le hpayload hmessage⟩
  rw [hanswer.payloadLen, length_authResponse hversion hmessage, Nat.add_comm]

theorem AnswerMessage.le_length {message : Bytes} (h : AnswerMessage message) :
    nuv5DecisionResponseSize ≤ message.length := by
  rw [← (h.holds (Memory.holds_ofBytes message)).2.2.1]
  exact Nat.le_add_left _ _

/-- A message is an answer for `auth_packet_to_decision`. -/
theorem authPacketToDecision_eq (env : GatewayEnv) (now : Int) (g : Gateway) {m : Memory}
    {message : Bytes} (h : AnswerMessage message) (hm : m.Holds 0 message) :
    authPacketToDecision env now g m message.length =
      authProcessAnswer env now g m message.length := by
  obtain ⟨hversion, htype, -⟩ := h.holds hm
  have hle := h.le_length
  have h20 : nuv5DecisionResponseSize = 20 := rfl
  rw [authPacketToDecision, if_neg (by omega), if_neg (not_not.2 hversion), if_pos htype]

/-- A message is processed as a whole, or refused as a whole. -/
theorem authPacketToDecision_message (env : GatewayEnv) (now : Int) (g : Gateway) {m : Memory}
    {message : Bytes} (h : AnswerMessage message) (hm : m.Holds 0 message) :
    (authPacketToDecision env now g m message.length).1 = none ∨
      (authPacketToDecision env now g m message.length).1 = some message.length := by
  obtain ⟨-, -, hlength, -⟩ := h.holds hm
  have hle := h.le_length
  have h20 : nuv5DecisionResponseSize = 20 := rfl
  have h16 : nuv4DecisionResponseSize = 16 := rfl
  rw [authPacketToDecision_eq env now g h hm, authProcessAnswer, if_neg (by omega)]
  dsimp only
  rw [if_neg (by omega)]
  split
  · exact Or.inl rfl
  · split_ifs
    · exact Or.inr (congrArg some hlength)
    · exact Or.inr (congrArg some hlength)
    · exact Or.inr (congrArg some hlength)

/-- The loop at the end of `authsrv` takes one message. -/
theorem decisionLoop_message (env : GatewayEnv) (now : Int) (g : Gateway) {m : Memory}
    {message : Bytes} (h : AnswerMessage message) (hm : m.Holds 0 message) :
    decisionLoop env now message.length g m message.length =
      ([message], (authPacketToDecision env now g m message.length).2) := by
  have hpos : 0 < message.length := Nat.lt_of_lt_of_le (by decide) h.le_length
  have hbytes := hm.toList_bytes rfl
  have hone : ∀ fuel, decisionLoop env now (fuel + 1) g m message.length =
      ([message], (authPacketToDecision env now g m message.length).2) := by
    intro fuel
    have hret := authPacketToDecision_message env now g h hm
    rw [decisionLoop]
    generalize authPacketToDecision env now g m message.length = r at hret ⊢
    obtain ⟨ret, g'⟩ := r
    obtain rfl | rfl : ret = none ∨ ret = some message.length := hret
    · simp only [Option.getD_none, hbytes]
    · simp only [Option.getD_some, hbytes, Nat.lt_irrefl, ↓reduceIte]
  obtain ⟨fuel, hfuel⟩ := Nat.exists_eq_succ_of_ne_zero (Nat.pos_iff_ne_zero.1 hpos)
  calc decisionLoop env now message.length g m message.length
      = decisionLoop env now (fuel + 1) g m message.length := by rw [hfuel]
    _ = _ := hone fuel

/-! ### Reading -/

/-- The header is complete after some of the three passes: from pass `i` on, with `offset` bytes of
it read, until the pass before `passes`. -/
inductive HeaderWithin (reads : ℕ → ReadResult) : ℕ → ℕ → ℕ → Prop
  | last {i offset n : ℕ} (hi : i < 3) (hread : reads i = .data n)
      (hn : nuv5DecisionResponseSize - offset ≤ n + 1) : HeaderWithin reads i offset (i + 1)
  | short {i offset n passes : ℕ} (hread : reads i = .data n)
      (hn : n + 1 < nuv5DecisionResponseSize - offset)
      (h : HeaderWithin reads (i + 1) (offset + (n + 1)) passes) :
      HeaderWithin reads i offset passes
  | unavailable {i offset passes : ℕ} (hread : reads i = .unavailable)
      (h : HeaderWithin reads (i + 1) offset passes) : HeaderWithin reads i offset passes

/-- The payload that the header of a message announces. -/
def announcedPayload (stream : Bytes) : ℕ := ((Memory.ofBytes stream).be16 16).toNat

/-- **The reads of a call do not cut a message.** There is nothing to read, or none of the three
passes gives anything; or the header comes within three passes, and the payload in one read. -/
def Whole (reads : ℕ → ReadResult) (stream : Bytes) : Prop :=
  stream = [] ∨ (∀ i < 3, reads i = .unavailable) ∨
    ∃ passes, HeaderWithin reads 0 0 passes ∧
      (announcedPayload stream = 0 ∨ ∃ n, reads passes = .data n ∧ announcedPayload stream ≤ n + 1)

theorem HeaderWithin.lt {reads : ℕ → ReadResult} {i offset passes : ℕ}
    (h : HeaderWithin reads i offset passes) : i < 3 := by
  induction h with
  | last hi => exact hi
  | short _ _ _ ih => omega
  | unavailable _ _ ih => omega

/-- A pass that gives some bytes of the header. -/
theorem readHeader_data {reads : ℕ → ReadResult} {i n : ℕ} (hi : i < 3) (hread : reads i = .data n)
    {stream : Bytes} (hstream : stream ≠ []) (buffer : Memory) (offset : ℕ) :
    readHeader reads (3 - i) buffer offset stream =
      let size := min (n + 1) (nuv5DecisionResponseSize - offset)
      if (stream.take size).length ≠ nuv5DecisionResponseSize - offset then
        readHeader reads (3 - (i + 1)) (buffer.write offset (stream.take size))
          (offset + (stream.take size).length) (stream.drop size)
      else .complete (buffer.write offset (stream.take size)) (stream.drop size) (i + 1) := by
  have hleft : 3 - i = (2 - i) + 1 := by omega
  have hindex : 2 - (2 - i) = i := by omega
  have hnext : 3 - (i + 1) = 2 - i := by omega
  have hpasses : 3 - (2 - i) = i + 1 := by omega
  rw [hleft, readHeader, hindex, hread, nusslRead, if_neg hstream, hnext, hpasses]

/-- A pass that gives nothing. -/
theorem readHeader_unavailable {reads : ℕ → ReadResult} {i : ℕ} (hi : i < 3) {stream : Bytes}
    {buffer : Memory} {offset : ℕ} (hread : nusslRead stream (nuv5DecisionResponseSize - offset)
      (reads i) = (.unavailable, stream)) :
    readHeader reads (3 - i) buffer offset stream =
      readHeader reads (3 - (i + 1)) buffer offset stream := by
  have hleft : 3 - i = (2 - i) + 1 := by omega
  have hindex : 2 - (2 - i) = i := by omega
  have hnext : 3 - (i + 1) = 2 - i := by omega
  rw [hleft, readHeader, hindex, hread, hnext]

/-- **The header is read.** -/
theorem readHeader_within {reads : ℕ → ReadResult} {full : Bytes}
    (hfull : nuv5DecisionResponseSize ≤ full.length) {i offset passes : ℕ}
    (h : HeaderWithin reads i offset passes) {buffer : Memory}
    (hoffset : offset < nuv5DecisionResponseSize) (hbuffer : buffer.Holds 0 (full.take offset)) :
    ∃ buffer' : Memory, buffer'.Holds 0 (full.take nuv5DecisionResponseSize) ∧
      readHeader reads (3 - i) buffer offset (full.drop offset) =
        .complete buffer' (full.drop nuv5DecisionResponseSize) passes := by
  have hne : ∀ {o}, o < nuv5DecisionResponseSize → full.drop o ≠ [] := by
    intro o ho hnil
    have hlength := congrArg List.length hnil
    rw [List.length_drop, List.length_nil] at hlength
    omega
  -- what a pass leaves in the buffer
  have hwrite : ∀ {o size} {b : Memory}, o < nuv5DecisionResponseSize → b.Holds 0 (full.take o) →
      (b.write o ((full.drop o).take size)).Holds 0 (full.take (o + size)) := by
    intro o size b ho hb
    have hlength : (full.take o).length = o := List.length_take_of_le (by omega)
    rw [List.take_add]
    have hb' : (b.write (full.take o).length ((full.drop o).take size)).Holds 0
        (full.take o ++ (full.drop o).take size) := hb.write_append
    rwa [hlength] at hb'
  have htake : ∀ {o size}, o + size ≤ nuv5DecisionResponseSize →
      ((full.drop o).take size).length = size := by
    intro o size hle
    exact List.length_take_of_le (by rw [List.length_drop]; omega)
  induction h generalizing buffer with
  | @last i offset n hi hread hn =>
    have hmin : min (n + 1) (nuv5DecisionResponseSize - offset) =
        nuv5DecisionResponseSize - offset := Nat.min_eq_right hn
    have hsum : offset + (nuv5DecisionResponseSize - offset) = nuv5DecisionResponseSize := by omega
    rw [readHeader_data hi hread (hne hoffset)]
    dsimp only
    rw [hmin, htake (by omega), if_neg (not_not.2 rfl), List.drop_drop, hsum]
    refine ⟨_, ?_, rfl⟩
    have hheader := @hwrite offset (nuv5DecisionResponseSize - offset) buffer hoffset hbuffer
    rwa [hsum] at hheader
  | @short i offset n passes hread hn h ih =>
    have hi : i < 3 := by
      have := h.lt
      omega
    have hmin : min (n + 1) (nuv5DecisionResponseSize - offset) = n + 1 :=
      Nat.min_eq_left (by omega)
    rw [readHeader_data hi hread (hne hoffset)]
    dsimp only
    rw [hmin, htake (by omega), if_pos (by omega), List.drop_drop]
    exact ih (by omega) (hwrite hoffset hbuffer)
  | @unavailable i offset passes hread h ih =>
    have hi : i < 3 := by
      have := h.lt
      omega
    rw [readHeader_unavailable hi (by rw [hread]; rfl)]
    exact ih hoffset hbuffer

/-- When nothing is read, nothing changes. -/
theorem readHeader_of_unavailable {reads : ℕ → ReadResult} {stream : Bytes} (buffer : Memory)
    (hreads : ∀ i < 3, reads i = .unavailable) :
    readHeader reads 3 buffer 0 stream = .gaveUp stream := by
  have hread : ∀ i < 3, nusslRead stream (nuv5DecisionResponseSize - 0) (reads i) =
      (.unavailable, stream) := by
    intro i hi
    rw [hreads i hi]
    rfl
  calc readHeader reads 3 buffer 0 stream
      = readHeader reads 2 buffer 0 stream :=
        readHeader_unavailable (by decide) (hread 0 (by decide))
    _ = readHeader reads 1 buffer 0 stream :=
      readHeader_unavailable (by decide) (hread 1 (by decide))
    _ = readHeader reads 0 buffer 0 stream :=
      readHeader_unavailable (by decide) (hread 2 (by decide))
    _ = .gaveUp stream := rfl

/-- When there is nothing to read, nothing is read. -/
theorem readHeader_nil {reads : ℕ → ReadResult} (left : ℕ) (buffer : Memory) (offset : ℕ) :
    readHeader reads left buffer offset [] = .gaveUp [] ∨
      readHeader reads left buffer offset [] = .shut [] := by
  induction left with
  | zero => exact Or.inl rfl
  | succ left ih =>
    rw [readHeader]
    cases reads (2 - left) with
    | data n => exact ih
    | unavailable => exact ih
    | error => exact Or.inr rfl
    | closed => exact Or.inr rfl

/-- The header announces the rest of the message. -/
theorem announcedPayload_append {message : Bytes} (h : AnswerMessage message) (rest : Bytes) :
    announcedPayload (message ++ rest) + nuv5DecisionResponseSize = message.length :=
  (h.holds (Memory.holds_append.1 (Memory.holds_ofBytes (message ++ rest))).1).2.2.1

/-- The same, in the buffer that the header has been read into. -/
theorem be16_of_header {message : Bytes} (h : AnswerMessage message) {buffer : Memory}
    (hbuffer : buffer.Holds 0 (message.take nuv5DecisionResponseSize)) :
    (buffer.be16 16).toNat + nuv5DecisionResponseSize = message.length := by
  have hmessage := Memory.holds_ofBytes message
  have hheader : (Memory.ofBytes message).Holds 0 (message.take nuv5DecisionResponseSize) := by
    have hsplit : (Memory.ofBytes message).Holds 0
        (message.take nuv5DecisionResponseSize ++ message.drop nuv5DecisionResponseSize) := by
      rwa [List.take_append_drop]
    exact (Memory.holds_append.1 hsplit).1
  have hlength : (message.take nuv5DecisionResponseSize).length = nuv5DecisionResponseSize :=
    List.length_take_of_le h.le_length
  have hsame := hbuffer.congr hheader
  rw [Memory.be16_congr hsame (by rw [hlength]; decide)]
  exact (h.holds hmessage).2.2.1

/-- A message that is in the buffer is processed. -/
theorem process_message (env : GatewayEnv) (now : Int) (s : AnswerSession) {buffer : Memory}
    {message : Bytes} (h : AnswerMessage message) (hbuffer : buffer.Holds 0 message)
    (stream : Bytes) :
    s.process env now buffer message.length stream =
      { s with
        stream := stream
        gateway := (authPacketToDecision env now s.gateway buffer message.length).2
        processed := s.processed ++ [message] } := by
  rw [AnswerSession.process, decisionLoop_message env now s.gateway h hbuffer]

/-- **A call whose reads do not cut the message takes it.** -/
theorem authsrv_message (env : GatewayEnv) (now : Int) {reads : ℕ → ReadResult} {s : AnswerSession}
    {message rest : Bytes} {passes : ℕ} (h : AnswerMessage message) (hsession : s.session = true)
    (hstream : s.stream = message ++ rest) (hheader : HeaderWithin reads 0 0 passes)
    (hpayload : announcedPayload s.stream = 0 ∨
      ∃ n, reads passes = .data n ∧ announcedPayload s.stream ≤ n + 1) :
    ∃ m : Memory, m.Holds 0 message ∧ authsrv env now reads s =
      (.ok, { s with
        stream := rest
        gateway := (authPacketToDecision env now s.gateway m message.length).2
        processed := s.processed ++ [message] }) := by
  have hle := h.le_length
  have hmax := (h.holds (Memory.holds_ofBytes message)).2.2.2
  have hfull : nuv5DecisionResponseSize ≤ s.stream.length := by
    rw [hstream, List.length_append]
    omega
  obtain ⟨buffer, hbuffer, hread⟩ := readHeader_within hfull hheader (by decide)
    (show env.cdgram.Holds 0 (s.stream.take 0) from trivial)
  rw [List.drop_zero, hstream, List.drop_append_of_le_length hle] at hread
  rw [hstream, List.take_append_of_le_length hle] at hbuffer
  -- both the stream and the buffer announce what is left of the message
  have hsize := be16_of_header h hbuffer
  have hannounced := announcedPayload_append h rest
  rw [hstream] at hpayload
  have hlength : nuv5DecisionResponseSize + (buffer.be16 16).toNat = message.length := by omega
  rw [authsrv, if_neg (by rw [hsession]; decide), hstream, hread]
  dsimp only
  by_cases hzero : (buffer.be16 16).toNat = 0
  · -- there is no payload: the header is the message
    have hwhole : message.take nuv5DecisionResponseSize = message :=
      List.take_of_length_le (by omega)
    have hdrop : message.drop nuv5DecisionResponseSize = [] := List.drop_of_length_le (by omega)
    rw [hwhole] at hbuffer
    rw [if_pos hzero, hlength, hdrop, List.nil_append, process_message env now s h hbuffer]
    exact ⟨buffer, hbuffer, rfl⟩
  · obtain ⟨n, hdata, hn⟩ := hpayload.resolve_left (by omega)
    have hrest : (message.drop nuv5DecisionResponseSize).length = (buffer.be16 16).toNat := by
      rw [List.length_drop]
      omega
    have hne : message.drop nuv5DecisionResponseSize ++ rest ≠ [] := by
      intro hnil
      rw [List.append_eq_nil_iff] at hnil
      rw [hnil.1] at hrest
      exact hzero hrest.symm
    have hfits : ¬ answerBufferSize < nuv5DecisionResponseSize + (buffer.be16 16).toNat := by
      have h204 : responseBufferSize = 204 := rfl
      have h512 : answerBufferSize = 512 := rfl
      omega
    have hmin : min (n + 1) (buffer.be16 16).toNat =
        (message.drop nuv5DecisionResponseSize).length := by omega
    rw [if_neg hzero, if_neg hfits, hdata, nusslRead, if_neg hne, hmin, List.take_left,
      List.drop_left]
    dsimp only
    rw [if_neg (not_not.2 hrest), hlength]
    -- the payload is written behind the header
    have hheaderLength : (message.take nuv5DecisionResponseSize).length =
        nuv5DecisionResponseSize := List.length_take_of_le hle
    have hwritten : (buffer.write (message.take nuv5DecisionResponseSize).length
        (message.drop nuv5DecisionResponseSize)).Holds 0
        (message.take nuv5DecisionResponseSize ++ message.drop nuv5DecisionResponseSize) :=
      hbuffer.write_append
    rw [List.take_append_drop, hheaderLength] at hwritten
    rw [process_message env now s h hwritten]
    exact ⟨_, hwritten, rfl⟩

/-! ### Runs -/

/-- The messages that the server has sent, and the gateway. -/
structure AnswerRun where
  sent : List Bytes
  client : AnswerSession

/-- What happens on the session of a gateway. -/
inductive AnswerEvent where
  /-- The server sends an answer. -/
  | send (message : Bytes)
  /-- The gateway calls `authsrv`; in the meantime the packets that wait have become these. -/
  | call (now : Int) (reads : ℕ → ReadResult) (packetsList : List PacketIdl)

/-- A read gives some bytes, or fails for the time being. -/
def ReadResult.Live : ReadResult → Prop
  | .data _ => True
  | .unavailable => True
  | .error => False
  | .closed => False

/-- A server that sends well-formed answers and a gateway that reads them as the network allows. -/
def answers (env : GatewayEnv) : Machine AnswerRun AnswerEvent where
  init s := s.sent = [] ∧ s.client.session = true ∧ s.client.stream = [] ∧ s.client.processed = []
  enabled _
    | .send message => AnswerMessage message
    | .call _ reads _ => ∀ i, (reads i).Live
  step s
    | .send message =>
      { sent := s.sent ++ [message]
        client := { s.client with stream := s.client.stream ++ message } }
    | .call now reads packetsList =>
      let gateway := { s.client.gateway with packetsList := packetsList }
      { s with client := (authsrv env now reads { s.client with gateway := gateway }).2 }

/-- **Framing.** What has been processed is what has been sent, in order and each message once, up
to the messages still to come; and as long as the session is open, these are what there is to read,
from the first byte of a message on. -/
def Framed (s : AnswerRun) : Prop :=
  ∃ pending, s.sent = s.client.processed ++ pending ∧
    (s.client.session = true → s.client.stream = pending.flatten)

/-- The reads of a call do not cut a message. -/
def WholeReads (s : AnswerRun) : AnswerEvent → Prop
  | .send _ => True
  | .call _ reads _ => s.client.session = true → Whole reads s.client.stream

/-- A call that gets nothing from the session leaves the messages where they are. -/
theorem authsrv_nothing (env : GatewayEnv) (now : Int) {reads : ℕ → ReadResult} {s : AnswerSession}
    (h : readHeader reads 3 env.cdgram 0 s.stream = .gaveUp s.stream ∨
      readHeader reads 3 env.cdgram 0 s.stream = .shut s.stream) :
    (authsrv env now reads s).2.processed = s.processed ∧
      (authsrv env now reads s).2.stream = s.stream := by
  rw [authsrv]
  split
  · exact ⟨rfl, rfl⟩
  · obtain h | h := h
    · rw [h]
      exact ⟨rfl, rfl⟩
    · rw [h]
      exact ⟨rfl, rfl⟩

/-- A call on a closed session does nothing. -/
theorem authsrv_closed (env : GatewayEnv) (now : Int) {reads : ℕ → ReadResult} {s : AnswerSession}
    (h : s.session = false) : authsrv env now reads s = (.error, s) := by
  rw [authsrv, if_pos h]

/-- A call whose reads do not cut a message leaves the session at the start of one. -/
theorem framed_call (env : GatewayEnv) (now : Int) {reads : ℕ → ReadResult} {sent : List Bytes}
    {s : AnswerSession} (hsent : ∀ message ∈ sent, AnswerMessage message) (h : Framed ⟨sent, s⟩)
    (hwhole : s.session = true → Whole reads s.stream) :
    Framed ⟨sent, (authsrv env now reads s).2⟩ := by
  obtain ⟨pending, hprocessed, hstream⟩ := h
  obtain hsession | hsession := Bool.eq_false_or_eq_true s.session |>.symm
  · rw [authsrv_closed env now hsession]
    exact ⟨pending, hprocessed, hstream⟩
  have hstream : s.stream = pending.flatten := hstream hsession
  -- when nothing is read, the same messages are to come
  have hnothing : (readHeader reads 3 env.cdgram 0 s.stream = .gaveUp s.stream ∨
      readHeader reads 3 env.cdgram 0 s.stream = .shut s.stream) →
      Framed ⟨sent, (authsrv env now reads s).2⟩ := by
    intro hread
    obtain ⟨hp, hs⟩ := authsrv_nothing env now hread
    refine ⟨pending, ?_, fun _ ↦ ?_⟩
    · show sent = (authsrv env now reads s).2.processed ++ pending
      rw [hp]
      exact hprocessed
    · show (authsrv env now reads s).2.stream = pending.flatten
      rw [hs]
      exact hstream
  by_cases hempty : s.stream = []
  · refine hnothing ?_
    rw [hempty]
    exact readHeader_nil 3 env.cdgram 0
  obtain hnil | hunavailable | ⟨passes, hheader, hpayload⟩ := hwhole hsession
  · exact absurd hnil hempty
  · exact hnothing (Or.inl (readHeader_of_unavailable env.cdgram hunavailable))
  · cases pending with
    | nil => exact absurd hstream hempty
    | cons message pending =>
      have hmessage : AnswerMessage message := by
        refine hsent message ?_
        show message ∈ (AnswerRun.mk sent s).sent
        rw [hprocessed]
        exact List.mem_append_right _ List.mem_cons_self
      obtain ⟨m, -, hcall⟩ := authsrv_message env now hmessage hsession hstream hheader hpayload
      rw [hcall]
      refine ⟨pending, ?_, fun _ ↦ rfl⟩
      exact hprocessed.trans (List.append_cons _ _ _)

/-- When there is nothing left to read, every message has been processed. -/
theorem Framed.processed_eq {s : AnswerRun} (h : Framed s)
    (hsent : ∀ message ∈ s.sent, AnswerMessage message) (hsession : s.client.session = true)
    (hstream : s.client.stream = []) : s.client.processed = s.sent := by
  obtain ⟨pending, hprocessed, hpending⟩ := h
  cases pending with
  | nil => rw [hprocessed, List.append_nil]
  | cons message pending =>
    have hmessage : message ∈ s.sent := by
      rw [hprocessed]
      exact List.mem_append_right _ List.mem_cons_self
    have hle := (hsent message hmessage).le_length
    have hnil := hpending hsession
    rw [hstream, List.flatten_cons] at hnil
    rw [(List.append_eq_nil_iff.1 hnil.symm).1] at hle
    cases hle

/-- **Framing is kept in the runs whose reads do not cut a message**: the messages are processed in
order and each once, and all of them once there is nothing left to read. -/
theorem framed_of_wholeReads (env : GatewayEnv) {s : AnswerRun}
    (h : (answers env).Reach WholeReads s) :
    Framed s ∧ (s.client.session = true → s.client.stream = [] → s.client.processed = s.sent) := by
  have hinv : (∀ message ∈ s.sent, AnswerMessage message) ∧ Framed s := by
    refine h.invariant (I := fun s ↦ (∀ message ∈ s.sent, AnswerMessage message) ∧ Framed s) ?_ ?_
    · rintro s ⟨hsent, -, hstream, hprocessed⟩
      rw [hsent]
      refine ⟨by simp, [], ?_, fun _ ↦ hstream⟩
      rw [hsent, hprocessed, List.append_nil]
    · rintro s e ⟨hsent, hframed⟩ he hok
      cases e with
      | send message =>
        obtain ⟨pending, hprocessed, hstream⟩ := hframed
        refine ⟨?_, pending ++ [message], ?_, fun hsession ↦ ?_⟩
        · intro m hm
          obtain hm | hm := List.mem_append.1 hm
          · exact hsent m hm
          · exact List.mem_singleton.1 hm ▸ he
        · show s.sent ++ [message] = s.client.processed ++ (pending ++ [message])
          rw [hprocessed, List.append_assoc]
        · show s.client.stream ++ message = (pending ++ [message]).flatten
          rw [hstream hsession, List.flatten_append, List.flatten_singleton]
      | call now reads packetsList =>
        refine ⟨hsent, framed_call env now hsent ?_ hok⟩
        exact hframed
  exact ⟨hinv.2, hinv.2.processed_eq hinv.1⟩

/-! ### Two runs -/

/-- A little-endian gateway. -/
def GatewayEnv.little : GatewayEnv where
  host := ⟨.little, Memory.ofBytes []⟩
  params := ⟨1000, 15, true, false, true⟩
  cdgram := Memory.ofBytes []

/-- A rejected connection, with no stored payload. -/
def Connection.rejected : Connection :=
  { Connection.zero with decision := .reject, nufwVersion := protoVersionNufwV24 }

/-- The answer for its packet `7`: a header, and the 40 bytes of an IPv6 header. -/
def rejection : Bytes :=
  (authResponse GatewayEnv.little.host Connection.rejected 7).getD []

theorem answerMessage_rejection : AnswerMessage rejection :=
  ⟨GatewayEnv.little.host, Connection.rejected, 7, rfl, by decide, by decide +kernel⟩

/-- A gateway that has just opened its session. -/
def AnswerRun.start : AnswerRun := ⟨[], ⟨true, [], ⟨[], [], []⟩, []⟩⟩

/-- How the reads of a call turn out, and nothing more to read. -/
def readsOf (rs : List ReadResult) (i : ℕ) : ReadResult := (rs[i]?).getD .unavailable

theorem live_readsOf {rs : List ReadResult} (h : ∀ r ∈ rs, r.Live) (i : ℕ) :
    (readsOf rs i).Live := by
  rw [readsOf]
  cases hr : rs[i]? with
  | none => trivial
  | some r => exact h r (List.mem_of_getElem? hr)

/-- A message whose header comes in two pieces, with a pass in between that gives nothing. -/
def piecewise : List ReadResult := [.data 4, .unavailable, .data 14, .data 39]

theorem rejection_framed :
    let s := (answers GatewayEnv.little).run AnswerRun.start
      [.send rejection, .call 0 (readsOf piecewise) []]
    s.client.processed = [rejection] ∧ Framed s := by
  intro s
  have hheader : HeaderWithin (readsOf piecewise) 0 0 3 :=
    .short rfl (by decide) (.unavailable rfl (.last (by decide) rfl (by decide)))
  have hpayload : announcedPayload rejection = 0 ∨
      ∃ n, readsOf piecewise 3 = .data n ∧ announcedPayload rejection ≤ n + 1 :=
    Or.inr ⟨39, rfl, by decide +kernel⟩
  constructor
  · obtain ⟨m, -, hcall⟩ := authsrv_message GatewayEnv.little 0 answerMessage_rejection
      (s := ⟨true, rejection, ⟨[], [], []⟩, []⟩) rfl (List.append_nil _).symm hheader hpayload
    show (authsrv GatewayEnv.little 0 (readsOf piecewise) _).2.processed = _
    exact congrArg (fun r ↦ r.2.processed) hcall
  · refine (framed_of_wholeReads GatewayEnv.little ?_).1
    exact Machine.reach_run (answers GatewayEnv.little) ⟨rfl, rfl, rfl, rfl⟩ _
      ⟨answerMessage_rejection, trivial, live_readsOf (by simp [piecewise, ReadResult.Live]),
        fun _ ↦ Or.inr (Or.inr ⟨3, hheader, hpayload⟩), trivial⟩

/-- A payload that is not there yet when the header has been read. -/
def late : List ReadResult := [.data 19]

/-- **A payload that comes late costs the framing**: `authsrv` returns with the session open after
the header, and the next call takes the IPv6 header for a message. -/
theorem late_payload_not_framed :
    let s := (answers GatewayEnv.little).run AnswerRun.start
      [.send rejection, .call 0 (readsOf late) []]
    let s' := (answers GatewayEnv.little).step s (.call 0 (readsOf late) [])
    (s.client.session = true ∧ s.client.stream = rejection.drop nuv5DecisionResponseSize) ∧
      (answers GatewayEnv.little).Reachable s' ∧ s'.client.session = true ∧
        s'.client.processed = [(rejection.drop nuv5DecisionResponseSize).take 20] ∧
          ¬Framed s' := by
  intro s s'
  have hlive : ∀ i, (readsOf late i).Live := live_readsOf (by simp [late, ReadResult.Live])
  have hs : (answers GatewayEnv.little).Reachable s :=
    Machine.reach_run (answers GatewayEnv.little) ⟨rfl, rfl, rfl, rfl⟩ _
      ⟨answerMessage_rejection, trivial, hlive, trivial, trivial⟩
  have hprocessed : s'.client.processed =
      [(rejection.drop nuv5DecisionResponseSize).take 20] := by decide +kernel
  have hs' : (answers GatewayEnv.little).Reachable s' :=
    Machine.Reach.step (e := AnswerEvent.call 0 (readsOf late) []) hs hlive trivial
  refine ⟨by decide +kernel, hs', by decide +kernel, hprocessed, ?_⟩
  rintro ⟨pending, hsent, -⟩
  have hhead : s'.sent.head? ≠ s'.client.processed.head? := by decide +kernel
  rw [hsent, hprocessed] at hhead
  exact hhead rfl

end Nufw
