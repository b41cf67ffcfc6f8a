import Nufw.Lib.Spans
import Mathlib.Data.List.Infix

/-!
# Buffered reads

The read side of the sockets of nussl (`nussl_socket.c`). What arrives on a connection comes in
pieces of any size, and the calls of `sread` may fail in between; the functions here read through
a buffer of `RDBUFSIZ` bytes and give the bytes away in any other pieces, or line by line.

`NusslSocket.unread` is the stream that is still to be given away, wherever its bytes are at the
moment. `Serves` says what a call may do to a stream, without buffer and pieces, and
`nussl_serves` that any calls on a socket do just this.
-/

namespace Nufw

/-- `RDBUFSIZ`. -/
def rdbufsiz : ℕ := 4096

/-- `'\n'`. -/
def newline : UInt8 := 10

/-- `ssl_sock_error_t`. -/
inductive SslSockError where
  | error
  | timeout
  | closed
  | reset
  | trunc
  deriving DecidableEq, Repr

def SslSockError.code : SslSockError → ℤ
  | error => -1
  | timeout => -2
  | closed => -3
  | reset => -4
  | trunc => -5

/-- What a call of `ops->sread` finds: bytes, or an error with its text. -/
inductive Arrival where
  | data (b : UInt8) (bs : List UInt8)
  | fault (e : SslSockError) (text : String)
  deriving DecidableEq, Repr

/-- The bytes of the arrivals. -/
def carried : List Arrival → List UInt8
  | [] => []
  | .data b bs :: fd => (b :: bs) ++ carried fd
  | .fault _ _ :: fd => carried fd

/-- Nothing but bytes. -/
def Calm (fd : List Arrival) : Prop := ∀ e text, Arrival.fault e text ∉ fd

theorem calm_nil : Calm [] := fun _ _ ↦ List.not_mem_nil

theorem calm_data {b : UInt8} {bs : List UInt8} {fd : List Arrival} :
    Calm (.data b bs :: fd) ↔ Calm fd := by
  refine forall₂_congr fun e text ↦ not_congr ?_
  rw [List.mem_cons]
  exact or_iff_right fun h ↦ by cases h

/-- `struct nussl_socket_s`, as far as reads go. `fd` stands for what will arrive. -/
structure NusslSocket where
  buffer : Memory
  /-- An index into `buffer`. -/
  bufpos : ℕ
  bufavail : ℕ
  within : bufpos + bufavail ≤ rdbufsiz
  error : String
  fd : List Arrival

namespace NusslSocket

/-- What has been read and not been given away. -/
def pending (sock : NusslSocket) : List UInt8 := sock.buffer.span sock.bufpos sock.bufavail

/-- The stream that is still to be given away. -/
def unread (sock : NusslSocket) : List UInt8 := sock.pending ++ carried sock.fd

/-- `nussl_sock_create`. -/
def create (fd : List Arrival) : NusslSocket :=
  ⟨.ofBytes [], 0, 0, Nat.zero_le _, "", fd⟩

/-- `sock->ops->sread`: bytes that have arrived, `len` of them at most. When nothing more arrives
the read times out. -/
def sread (sock : NusslSocket) (len : ℕ) : Except SslSockError (List UInt8) × NusslSocket :=
  match sock.fd with
  | [] => (.error .timeout, { sock with error := "Read timed out" })
  | .fault e text :: fd => (.error e, { sock with error := text, fd := fd })
  | .data b bs :: fd =>
    if len = 0 then (.error .closed, { sock with error := "Connection closed" })
    else
      match (b :: bs).drop len with
      | [] => (.ok (b :: bs), { sock with fd := fd })
      | b' :: bs' => (.ok ((b :: bs).take len), { sock with fd := .data b' bs' :: fd })

variable {sock sock' : NusslSocket} {len : ℕ} {bs : List UInt8} {e : SslSockError}

theorem bufavail_sread (sock : NusslSocket) (len : ℕ) :
    (sock.sread len).2.bufavail = sock.bufavail := by
  rw [sread]
  split
  · rfl
  · rfl
  · split
    · rfl
    · split <;> rfl

theorem pending_sread (sock : NusslSocket) (len : ℕ) :
    (sock.sread len).2.pending = sock.pending := by
  rw [sread]
  split
  · rfl
  · rfl
  · split
    · rfl
    · split <;> rfl

/-- **What a successful `sread` does.** -/
theorem sread_ok (h : sock.sread len = (.ok bs, sock')) :
    bs ≠ [] ∧ bs.length ≤ len ∧ carried sock.fd = bs ++ carried sock'.fd ∧
      (Calm sock.fd → Calm sock'.fd) := by
  rw [sread] at h
  split at h
  · cases h
  · cases h
  · next b bs' fd hfd =>
    have hcalm : Calm sock.fd → Calm fd := fun hcalm ↦ calm_data.1 (hfd ▸ hcalm)
    split at h
    · cases h
    · next hlen =>
      split at h
      · next hdrop =>
        obtain ⟨rfl, rfl⟩ := Prod.mk.inj h |>.imp_left Except.ok.inj
        exact ⟨List.cons_ne_nil _ _, List.drop_eq_nil_iff.1 hdrop, by rw [hfd, carried], hcalm⟩
      · next b' bs'' hdrop =>
        obtain ⟨rfl, rfl⟩ := Prod.mk.inj h |>.imp_left Except.ok.inj
        refine ⟨?_, List.length_take_le _ _, ?_, fun h ↦ calm_data.2 (hcalm h)⟩
        · rw [Ne, List.take_eq_nil_iff, not_or]
          exact ⟨hlen, List.cons_ne_nil _ _⟩
        · rw [hfd, carried, carried, ← List.append_assoc, ← hdrop, List.take_append_drop]

/-- **What a failed `sread` does.** -/
theorem sread_error (h : sock.sread len = (.error e, sock')) :
    carried sock.fd = carried sock'.fd ∧
      (len ≠ 0 → Calm sock.fd → e = .timeout ∧ sock'.fd = []) := by
  rw [sread] at h
  split at h
  · next hfd =>
    obtain ⟨rfl, rfl⟩ := Prod.mk.inj h |>.imp_left Except.error.inj
    exact ⟨rfl, fun _ _ ↦ ⟨rfl, hfd⟩⟩
  · next e' text fd hfd =>
    obtain ⟨rfl, rfl⟩ := Prod.mk.inj h |>.imp_left Except.error.inj
    refine ⟨by rw [hfd, carried], fun _ hcalm ↦ ?_⟩
    exact absurd (hfd ▸ List.mem_cons_self) (hcalm e' text)
  · split at h
    · next hlen =>
      obtain ⟨rfl, rfl⟩ := Prod.mk.inj h |>.imp_left Except.error.inj
      exact ⟨rfl, fun hne ↦ absurd hlen hne⟩
    · split at h
      · cases h
      · cases h

end NusslSocket

/-! ### The calls -/

open NusslSocket

/-- What a call returns, and what it has written to the buffer of its caller. -/
structure Reply where
  ret : ℤ
  out : List UInt8
  deriving DecidableEq, Repr

def Reply.failed (e : SslSockError) : Reply := ⟨e.code, []⟩

def nusslSockRead (sock : NusslSocket) (buflen : ℕ) : Reply × NusslSocket :=
  if 0 < sock.bufavail then
    -- deliver buffered data
    let n := min buflen sock.bufavail
    (⟨n, sock.buffer.span sock.bufpos n⟩,
      { sock with
        bufpos := sock.bufpos + n
        bufavail := sock.bufavail - n
        within := by
          have hwithin := sock.within
          omega })
  else if rdbufsiz ≤ buflen then
    -- no need for the read buffer
    match sock.sread buflen with
    | (.error e, sock) => (.failed e, sock)
    | (.ok bytes, sock) => (⟨bytes.length, bytes⟩, sock)
  else
    match h : sock.sread rdbufsiz with
    | (.error e, sock) => (.failed e, sock)
    | (.ok bytes, sock) =>
      let n := min buflen bytes.length
      let buffer := sock.buffer.write 0 bytes
      (⟨n, buffer.span 0 n⟩,
        { sock with
          buffer := buffer
          bufpos := n
          bufavail := bytes.length - n
          within := by
            have hlength := (sread_ok h).2.1
            omega })

/-- The buffer of `nussl_sock_peek`, filled if nothing is pending. -/
def fillBuffer (sock : NusslSocket) : Except SslSockError Unit × NusslSocket :=
  if sock.bufavail ≠ 0 then (.ok (), sock)
  else
    match h : sock.sread rdbufsiz with
    | (.error e, sock) => (.error e, sock)
    | (.ok bytes, sock) =>
      (.ok (),
        { sock with
          buffer := sock.buffer.write 0 bytes
          bufpos := 0
          bufavail := bytes.length
          within := by
            have hlength := (sread_ok h).2.1
            omega })

def nusslSockPeek (sock : NusslSocket) (buflen : ℕ) : Reply × NusslSocket :=
  match fillBuffer sock with
  | (.error e, sock) => (.failed e, sock)
  | (.ok (), sock) =>
    let n := min buflen sock.bufavail
    (⟨n, sock.buffer.span sock.bufpos n⟩, sock)

/-- How far the first newline is. -/
def firstNewline (bs : List UInt8) : Option ℕ := bs.findIdx? (· = newline)

/-- `memchr(sock->bufpos, '\n', sock->bufavail)`. -/
def NusslSocket.lf (sock : NusslSocket) : Option ℕ := firstNewline sock.pending

/-- The loop of `nussl_sock_readline`: fill the buffer whilst there is no newline in it. -/
def fillLine (sock : NusslSocket) (hpos : sock.bufpos = 0) :
    Except SslSockError (Option ℕ) × NusslSocket :=
  match h : sock.sread (rdbufsiz - sock.bufavail) with
  | (.error e, sock) => (.error e, sock)
  | (.ok bytes, sock') =>
    let filled : NusslSocket :=
      { sock with
        buffer := sock.buffer.write sock.bufavail bytes
        bufavail := sock.bufavail + bytes.length
        fd := sock'.fd
        within := by
          have hlength := (sread_ok h).2.1
          have hwithin := sock.within
          omega }
    if filled.lf = none ∧ filled.bufavail < rdbufsiz then fillLine filled hpos
    else (.ok filled.lf, filled)
termination_by rdbufsiz - sock.bufavail
decreasing_by
  have hne := List.length_pos_iff.2 (sread_ok h).1
  have hlength := (sread_ok h).2.1
  show rdbufsiz - (sock.bufavail + bytes.length) < _
  omega

/-- What is pending, moved to the beginning of the buffer. -/
def NusslSocket.moved (sock : NusslSocket) : NusslSocket :=
  { sock with
    buffer := sock.buffer.write 0 sock.pending
    bufpos := 0
    within := by
      have hwithin := sock.within
      omega }

/-- The newline that ends the line, with the buffer filled for it. -/
def findLine (sock : NusslSocket) : Except SslSockError (Option ℕ) × NusslSocket :=
  if sock.lf = none ∧ sock.bufavail < rdbufsiz then fillLine sock.moved rfl
  else (.ok sock.lf, sock)

/-! ### Looking for a line -/

namespace NusslSocket

variable {sock sock' : NusslSocket} {lf : Option ℕ} {e : SslSockError}

@[simp] theorem length_pending (sock : NusslSocket) : sock.pending.length = sock.bufavail :=
  Memory.length_span _ _ _

theorem pending_moved (sock : NusslSocket) : sock.moved.pending = sock.pending := by
  have hspan : (sock.buffer.write 0 sock.pending).span 0 sock.pending.length = sock.pending :=
    Memory.span_write
  rwa [length_pending] at hspan

theorem unread_moved (sock : NusslSocket) : sock.moved.unread = sock.unread := by
  rw [unread, pending_moved]
  rfl

theorem lt_of_lf {k : ℕ} (h : sock.lf = some k) : k < sock.bufavail := by
  rw [← length_pending]
  exact (List.findIdx?_eq_some_iff_getElem.1 h).1

/-- Bytes written behind what is pending. -/
theorem pending_append {m : Memory} {bs : List UInt8} {o n : ℕ} :
    (m.write (o + n) bs).span o (n + bs.length) = m.span o n ++ bs := by
  rw [Memory.span_add, Memory.span_write, Memory.span_write_of_le (Nat.le_refl _)]

/-- A turn of the loop keeps the stream. -/
theorem unread_filled {len : ℕ} {bs : List UInt8} (hpos : sock.bufpos = 0)
    (h : sock.sread len = (.ok bs, sock')) :
    (sock.buffer.write sock.bufavail bs).span sock.bufpos (sock.bufavail + bs.length) ++
      carried sock'.fd = sock.unread := by
  have hspan : (sock.buffer.write sock.bufavail bs).span 0 (sock.bufavail + bs.length) =
      sock.buffer.span 0 sock.bufavail ++ bs := by
    rw [← pending_append, Nat.zero_add]
  rw [unread, pending, hpos, hspan, (sread_ok h).2.2.1, List.append_assoc]

end NusslSocket

/-- **The loop ends with the newline, or with a full buffer, or with an error**, and the stream is
what it was. -/
theorem fillLine_spec {sock : NusslSocket} (hpos : sock.bufpos = 0) :
    (fillLine sock hpos).2.unread = sock.unread ∧
      (∀ lf, (fillLine sock hpos).1 = .ok lf → (fillLine sock hpos).2.lf = lf ∧
        (lf = none → (fillLine sock hpos).2.bufavail = rdbufsiz) ∧
        (Calm sock.fd → Calm (fillLine sock hpos).2.fd)) ∧
      ∀ e, (fillLine sock hpos).1 = .error e → sock.lf = none → sock.bufavail < rdbufsiz →
        Calm sock.fd → e = .timeout ∧ (fillLine sock hpos).2.fd = [] ∧
          (fillLine sock hpos).2.lf = none ∧ (fillLine sock hpos).2.bufavail < rdbufsiz := by
  fun_induction fillLine sock hpos with
  | case1 sock hpos e sock' h =>
    obtain ⟨hcarried, hcalm⟩ := sread_error h
    have hpending : sock'.pending = sock.pending := by rw [← pending_sread sock, h]
    have havail : sock'.bufavail = sock.bufavail := by rw [← bufavail_sread sock, h]
    refine ⟨by rw [unread, unread, hpending, hcarried], fun lf h ↦ (by cases h), ?_⟩
    intro e' he hlf hlt hfd
    obtain ⟨rfl, hnil⟩ := hcalm (by omega) hfd
    refine ⟨(Except.error.inj he).symm, hnil, ?_, havail ▸ hlt⟩
    rwa [lf, hpending]
  | case2 sock hpos bytes sock' h filled hmore ih =>
    obtain ⟨hunread, hok, herror⟩ := ih
    have hfd : Calm sock.fd → Calm filled.fd := (sread_ok h).2.2.2
    have hfilled : filled.unread = sock.unread := (unread_filled hpos h :)
    refine ⟨hunread.trans hfilled, fun lf hlf ↦ ?_, fun e he _ _ hcalm ↦ ?_⟩
    · obtain ⟨hlf, hfull, hcalm⟩ := hok lf hlf
      exact ⟨hlf, hfull, fun h ↦ hcalm (hfd h)⟩
    · exact herror e he hmore.1 hmore.2 (hfd hcalm)
  | case3 sock hpos bytes sock' h filled hstop =>
    have hfilled : filled.unread = sock.unread := (unread_filled hpos h :)
    refine ⟨hfilled, fun lf hlf ↦ ?_, fun e he ↦ by cases he⟩
    obtain rfl := Except.ok.inj hlf
    refine ⟨rfl, fun hnone ↦ ?_, (sread_ok h).2.2.2⟩
    have hwithin := filled.within
    have hfull : ¬filled.bufavail < rdbufsiz := fun hlt ↦ hstop ⟨hnone, hlt⟩
    show filled.bufavail = rdbufsiz
    omega

/-- **What looking for a line does.** -/
theorem findLine_spec (sock : NusslSocket) :
    (findLine sock).2.unread = sock.unread ∧
      (∀ lf, (findLine sock).1 = .ok lf → (findLine sock).2.lf = lf ∧
        (lf = none → (findLine sock).2.bufavail = rdbufsiz) ∧
        (Calm sock.fd → Calm (findLine sock).2.fd)) ∧
      ∀ e, (findLine sock).1 = .error e → Calm sock.fd →
        e = .timeout ∧ (findLine sock).2.fd = [] ∧ (findLine sock).2.lf = none ∧
          (findLine sock).2.bufavail < rdbufsiz := by
  rw [findLine]
  split
  · next h =>
    obtain ⟨hunread, hok, herror⟩ := @fillLine_spec sock.moved rfl
    have hlf : sock.moved.lf = none := by rw [lf, pending_moved, ← lf, h.1]
    exact ⟨hunread.trans (unread_moved sock), hok, fun e he ↦ herror e he hlf h.2⟩
  · next h =>
    refine ⟨rfl, fun lf hlf ↦ ?_, fun e he ↦ by cases he⟩
    obtain rfl := Except.ok.inj hlf
    refine ⟨rfl, fun hnone ↦ ?_, id⟩
    have hwithin := sock.within
    have hfull : ¬sock.bufavail < rdbufsiz := fun hlt ↦ h ⟨hnone, hlt⟩
    show sock.bufavail = rdbufsiz
    omega

/-- The line is in the buffer. -/
theorem le_bufavail_of_findLine {sock sock' : NusslSocket} {lf : Option ℕ} {buflen : ℕ}
    (h : findLine sock = (.ok lf, sock')) (hlen : ¬buflen < (lf.map (· + 1)).getD buflen + 1) :
    (lf.map (· + 1)).getD buflen ≤ sock'.bufavail := by
  have hlf := ((findLine_spec sock).2.1 lf (by rw [h])).1
  rw [h] at hlf
  cases lf with
  | none => exact absurd (Nat.lt_succ_self buflen) hlen
  | some k => exact lt_of_lf hlf

def nusslSockReadline (sock : NusslSocket) (buflen : ℕ) : Reply × NusslSocket :=
  match h : findLine sock with
  | (.error e, sock) => (.failed e, sock)
  | (.ok lf, sock) =>
    -- without a newline, fall into "line too long"
    let len := (lf.map (· + 1)).getD buflen
    if hlen : buflen < len + 1 then (.failed .error, { sock with error := "Line too long" })
    else
      (⟨len, sock.buffer.span sock.bufpos len ++ [0]⟩,
        { sock with
          bufpos := sock.bufpos + len
          bufavail := sock.bufavail - len
          within := by
            have hle := le_bufavail_of_findLine h hlen
            have hwithin := sock.within
            omega })

/-! ### What a read does to the stream -/

namespace NusslSocket

variable {sock sock' : NusslSocket}

/-- What is given away from the buffer, and what stays. -/
theorem take_unread {n : ℕ} (h : n ≤ sock.bufavail) :
    sock.unread = sock.buffer.span sock.bufpos n ++
      (sock.buffer.span (sock.bufpos + n) (sock.bufavail - n) ++ carried sock.fd) := by
  rw [unread, pending, ← List.append_assoc, ← Memory.span_add, Nat.add_sub_cancel' h]

theorem pending_eq_nil (h : sock.bufavail = 0) : sock.pending = [] := by
  rw [← List.length_eq_zero_iff, length_pending, h]

/-- A failed `sread` leaves the stream as it is. -/
theorem unread_of_sread_error {len : ℕ} {e : SslSockError}
    (h : sock.sread len = (.error e, sock')) : sock'.unread = sock.unread := by
  rw [unread, unread, (sread_error h).1, ← pending_sread sock len, h]

end NusslSocket

/-- What a read may do to a stream: take the next bytes, some at least and `n` at most. -/
structure IsTaken (n : ℕ) (s bs rest : List UInt8) : Prop where
  eq : s = bs ++ rest
  le : bs.length ≤ n
  ne_nil : 0 < n → bs ≠ []

/-- Bytes of the buffer. -/
theorem IsTaken.pending {sock : NusslSocket} (hpos : 0 < sock.bufavail) (n : ℕ) :
    IsTaken n sock.unread (sock.buffer.span sock.bufpos (min n sock.bufavail))
      (sock.buffer.span (sock.bufpos + min n sock.bufavail) (sock.bufavail - min n sock.bufavail) ++
        carried sock.fd) := by
  refine ⟨take_unread (Nat.min_le_right _ _), ?_, fun hn ↦ List.length_pos_iff.1 ?_⟩
  · rw [Memory.length_span]
    exact Nat.min_le_left _ _
  · rw [Memory.length_span]
    exact Nat.lt_min.2 ⟨hn, hpos⟩

/-- **A read takes the next bytes**, or fails and leaves the stream as it is. -/
theorem nusslSockRead_spec (sock : NusslSocket) (buflen : ℕ) :
    (∃ e, (nusslSockRead sock buflen).1 = .failed e ∧
      (nusslSockRead sock buflen).2.unread = sock.unread ∧
      (0 < buflen → Calm sock.fd →
        e = .timeout ∧ (nusslSockRead sock buflen).2.fd = [] ∧ sock.unread = [])) ∨
    ∃ bs, (nusslSockRead sock buflen).1 = ⟨bs.length, bs⟩ ∧
      IsTaken buflen sock.unread bs (nusslSockRead sock buflen).2.unread ∧
      (Calm sock.fd → Calm (nusslSockRead sock buflen).2.fd) := by
  rw [nusslSockRead]
  split
  · next hpos => exact .inr ⟨_, by rw [Memory.length_span], .pending hpos buflen, id⟩
  · next hpos =>
    have hnil : sock.pending = [] := pending_eq_nil (Nat.eq_zero_of_not_pos hpos)
    have hfailed {len e sock'} (h : sock.sread len = (.error e, sock')) (hlen : len ≠ 0)
        (hcalm : Calm sock.fd) : e = .timeout ∧ sock'.fd = [] ∧ sock.unread = [] := by
      obtain ⟨he, hfd⟩ := (sread_error h).2 hlen hcalm
      refine ⟨he, hfd, ?_⟩
      rw [unread, hnil, (sread_error h).1, hfd]
      rfl
    split
    · split
      · next e sock' h =>
        exact .inl ⟨e, rfl, unread_of_sread_error h, fun hn ↦ hfailed h (Nat.ne_of_gt hn)⟩
      · next bytes sock' h =>
        obtain ⟨hne, hle, hcarried, hcalm⟩ := sread_ok h
        have hpending : sock'.pending = [] := by rw [← hnil, ← pending_sread sock buflen, h]
        refine .inr ⟨bytes, rfl, ⟨?_, hle, fun _ ↦ hne⟩, hcalm⟩
        rw [unread, unread, hnil, hpending, hcarried, List.nil_append, List.nil_append]
    · split
      · next e sock' h =>
        exact .inl ⟨e, rfl, unread_of_sread_error h, fun _ ↦ hfailed h (by decide)⟩
      · next bytes sock' h =>
        obtain ⟨hne, -, hcarried, hcalm⟩ := sread_ok h
        have hsplit := sock'.buffer.span_write_split 0 (Nat.min_le_right buflen bytes.length)
        refine .inr ⟨_, by rw [Memory.length_span], ⟨?_, ?_, fun hn ↦ List.length_pos_iff.1 ?_⟩,
          hcalm⟩
        · rw [unread, hnil, hcarried, List.nil_append, unread, pending, ← List.append_assoc]
          rw [Nat.zero_add] at hsplit
          exact congrArg (· ++ carried sock'.fd) hsplit.symm
        · rw [Memory.length_span]
          exact Nat.min_le_left _ _
        · rw [Memory.length_span]
          exact Nat.lt_min.2 ⟨hn, List.length_pos_iff.2 hne⟩

/-- Filling the buffer keeps the stream, and leaves something pending. -/
theorem fillBuffer_spec (sock : NusslSocket) :
    (fillBuffer sock).2.unread = sock.unread ∧
      ((fillBuffer sock).1 = .ok () → 0 < (fillBuffer sock).2.bufavail) := by
  rw [fillBuffer]
  split
  · next hzero => exact ⟨rfl, fun _ ↦ Nat.pos_of_ne_zero hzero⟩
  · next hzero =>
    split
    · next h => exact ⟨unread_of_sread_error h, fun h ↦ by cases h⟩
    · next bytes sock' h =>
      obtain ⟨hne, -, hcarried, -⟩ := sread_ok h
      refine ⟨?_, fun _ ↦ List.length_pos_iff.2 hne⟩
      rw [unread, unread, pending_eq_nil (not_not.1 hzero), hcarried, List.nil_append]
      have hspan : (sock'.buffer.write 0 bytes).span 0 bytes.length = bytes := Memory.span_write
      exact congrArg (· ++ carried sock'.fd) hspan

/-- **A look at the next bytes**, which leaves the stream as it is. -/
theorem nusslSockPeek_spec (sock : NusslSocket) (buflen : ℕ) :
    (nusslSockPeek sock buflen).2.unread = sock.unread ∧
      ((∃ e, (nusslSockPeek sock buflen).1 = .failed e) ∨
        ∃ bs rest, (nusslSockPeek sock buflen).1 = ⟨bs.length, bs⟩ ∧
          IsTaken buflen sock.unread bs rest) := by
  obtain ⟨hunread, hpos⟩ := fillBuffer_spec sock
  rw [nusslSockPeek]
  split
  · next e sock' h => exact ⟨by rw [← hunread, h], .inl ⟨e, rfl⟩⟩
  · next sock' h =>
    rw [h] at hunread hpos
    have htaken := IsTaken.pending (hpos rfl) buflen
    rw [show sock'.unread = sock.unread from hunread] at htaken
    exact ⟨hunread, .inr ⟨_, _, by rw [Memory.length_span], htaken⟩⟩

/-! ### Lines -/

theorem firstNewline_eq_some_iff {bs : List UInt8} {k : ℕ} : firstNewline bs = some k ↔
    ∃ line rest, bs = line ++ newline :: rest ∧ newline ∉ line ∧ line.length = k := by
  constructor
  · intro h
    obtain ⟨hlt, hk, hbefore⟩ := List.findIdx?_eq_some_iff_getElem.1 h
    refine ⟨bs.take k, bs.drop (k + 1), ?_, fun hmem ↦ ?_, List.length_take_of_le hlt.le⟩
    · rw [← of_decide_eq_true hk, List.getElem_cons_drop, List.take_append_drop]
    · obtain ⟨i, hi, heq⟩ := List.getElem_of_mem hmem
      rw [List.length_take] at hi
      rw [List.getElem_take] at heq
      exact hbefore i (by omega) (decide_eq_true heq)
  · rintro ⟨line, rest, rfl, hline, rfl⟩
    rw [firstNewline, List.findIdx?_append, List.findIdx?_eq_none_iff.2]
    · rw [List.findIdx?_cons, decide_eq_true rfl]
      simp
    · exact fun b hb ↦ decide_eq_false fun heq ↦ hline (heq ▸ hb)

theorem firstNewline_eq_none_iff {bs : List UInt8} : firstNewline bs = none ↔ newline ∉ bs := by
  rw [firstNewline, List.findIdx?_eq_none_iff]
  exact ⟨fun h hmem ↦ of_decide_eq_false (h _ hmem) rfl,
    fun h b hb ↦ decide_eq_false fun heq ↦ h (heq ▸ hb)⟩

/-- **A line is read whole, up to its newline and no further**, or the stream stays as it is. -/
theorem nusslSockReadline_spec (sock : NusslSocket) (buflen : ℕ) :
    (∃ line, (nusslSockReadline sock buflen).1 = ⟨line.length + 1, line ++ [newline, 0]⟩ ∧
      sock.unread = line ++ newline :: (nusslSockReadline sock buflen).2.unread ∧
      newline ∉ line ∧ line.length + 2 ≤ buflen ∧ line.length < rdbufsiz ∧
      (Calm sock.fd → Calm (nusslSockReadline sock buflen).2.fd)) ∨
    ∃ e, (nusslSockReadline sock buflen).1 = .failed e ∧
      (nusslSockReadline sock buflen).2.unread = sock.unread ∧
      (Calm sock.fd → Calm (nusslSockReadline sock buflen).2.fd ∧
        ((e = .timeout ∧ newline ∉ sock.unread ∧ sock.unread.length < rdbufsiz) ∨
          e = .error ∧ ((newline ∉ sock.unread.take rdbufsiz ∧ rdbufsiz ≤ sock.unread.length) ∨
            ∃ line rest, sock.unread = line ++ newline :: rest ∧ newline ∉ line ∧
              line.length < rdbufsiz ∧ buflen < line.length + 2))) := by
  obtain ⟨hunread, hok, herror⟩ := findLine_spec sock
  rw [nusslSockReadline]
  split
  · next e sock' h =>
    rw [h] at hunread herror
    refine .inr ⟨e, rfl, hunread, fun hcalm ↦ ?_⟩
    obtain ⟨he, hfd, hlf, hlt⟩ := herror e rfl hcalm
    have hpending : sock.unread = sock'.pending := by
      rw [← hunread, unread, hfd]
      exact List.append_nil _
    refine ⟨?_, .inl ⟨he, ?_, ?_⟩⟩
    · exact (show sock'.fd = [] from hfd) ▸ calm_nil
    · rw [hpending]
      exact firstNewline_eq_none_iff.1 hlf
    · rw [hpending, length_pending]
      exact hlt
  · next lf sock' h =>
    rw [h] at hunread hok
    obtain ⟨hlf, hfull, hcalm⟩ := hok lf rfl
    cases lf with
    | none =>
      dsimp only [Option.map_none, Option.getD_none]
      rw [dif_pos (Nat.lt_succ_self buflen)]
      refine .inr ⟨.error, rfl, hunread, fun h ↦ ⟨hcalm h, .inr ⟨rfl, .inl ?_⟩⟩⟩
      have hlength : sock'.pending.length = rdbufsiz := by rw [length_pending]; exact hfull rfl
      rw [← show sock'.unread = sock.unread from hunread, unread, ← hlength, List.take_left,
        List.length_append]
      exact ⟨firstNewline_eq_none_iff.1 hlf, Nat.le_add_right _ _⟩
    | some k =>
      obtain ⟨line, rest, hpending, hline, rfl⟩ := firstNewline_eq_some_iff.1 hlf
      have hstream : sock.unread = line ++ newline :: (rest ++ carried sock'.fd) := by
        rw [← show sock'.unread = sock.unread from hunread, unread, hpending, List.append_assoc,
          List.cons_append]
      have hle : line.length + 1 ≤ sock'.bufavail := lt_of_lf hlf
      have hwithin := sock'.within
      dsimp only [Option.map_some, Option.getD_some]
      split
      · next hlen =>
        refine .inr ⟨.error, rfl, hunread, fun h ↦ ⟨hcalm h, .inr ⟨rfl, .inr ?_⟩⟩⟩
        exact ⟨line, _, hstream, hline, by omega, hlen⟩
      · next hlen =>
        have hspan : sock'.buffer.span sock'.bufpos (line.length + 1) = line ++ [newline] := by
          rw [← Memory.span_take hle]
          show sock'.pending.take _ = _
          rw [hpending, show line ++ newline :: rest = (line ++ [newline]) ++ rest by simp,
            List.take_left' (by simp)]
        refine .inl ⟨line, ?_, ?_, hline, Nat.le_of_not_lt hlen, by omega, hcalm⟩
        · rw [hspan, List.append_assoc]
          rfl
        · have htake := take_unread hle
          rw [hspan, show sock'.unread = sock.unread from hunread] at htake
          rw [htake, List.append_assoc]
          rfl

/-! ### Blocks -/

theorem SslSockError.code_neg (e : SslSockError) : e.code < 0 := by cases e <;> decide

def nusslSockFullread (sock : NusslSocket) (buflen : ℕ) : Reply × NusslSocket :=
  if buflen = 0 then (⟨0, []⟩, sock)
  else
    let len := (nusslSockRead sock buflen).1.ret
    if len < 0 then nusslSockRead sock buflen
    else
      let rest := nusslSockFullread (nusslSockRead sock buflen).2 (buflen - len.toNat)
      (⟨rest.1.ret, (nusslSockRead sock buflen).1.out ++ rest.1.out⟩, rest.2)
termination_by buflen
decreasing_by
  next hlen =>
    obtain ⟨e, hr, -⟩ | ⟨bs, hr, htaken, -⟩ := nusslSockRead_spec sock buflen
    · have hret : len = e.code := congrArg Reply.ret hr
      exact absurd (hret ▸ e.code_neg) hlen
    · have hpos := List.length_pos_iff.2 (htaken.ne_nil (by omega))
      rw [hr, Int.toNat_natCast]
      omega

/-- **All the bytes are read, or the read fails after some of them.** -/
theorem nusslSockFullread_spec (sock : NusslSocket) (buflen : ℕ) :
    ∃ bs, sock.unread = bs ++ (nusslSockFullread sock buflen).2.unread ∧
      (((nusslSockFullread sock buflen).1 = ⟨0, bs⟩ ∧ bs.length = buflen ∧
          (Calm sock.fd → Calm (nusslSockFullread sock buflen).2.fd)) ∨
        ∃ e : SslSockError, (nusslSockFullread sock buflen).1 = ⟨e.code, bs⟩ ∧ bs.length < buflen ∧
          (Calm sock.fd → e = .timeout ∧ (nusslSockFullread sock buflen).2.fd = [] ∧
            (nusslSockFullread sock buflen).2.unread = [])) := by
  fun_induction nusslSockFullread sock buflen with
  | case1 sock => exact ⟨[], rfl, .inl ⟨rfl, rfl, id⟩⟩
  | case2 sock buflen hzero len hlen =>
    obtain ⟨e, hr, hunread, hcalm⟩ | ⟨bs, hr, -⟩ := nusslSockRead_spec sock buflen
    · refine ⟨[], hunread.symm, .inr ⟨e, hr, Nat.pos_of_ne_zero hzero, fun h ↦ ?_⟩⟩
      obtain ⟨he, hfd, hnil⟩ := hcalm (Nat.pos_of_ne_zero hzero) h
      exact ⟨he, hfd, hunread.trans hnil⟩
    · have hret : len = bs.length := congrArg Reply.ret hr
      omega
  | case3 sock buflen hzero len hlen rest ih =>
    obtain ⟨e, hr, -⟩ | ⟨bs, hr, htaken, hcalm⟩ := nusslSockRead_spec sock buflen
    · have hret : len = e.code := congrArg Reply.ret hr
      exact absurd (hret ▸ e.code_neg) hlen
    · have hret : len = bs.length := congrArg Reply.ret hr
      have hout : (nusslSockRead sock buflen).1.out = bs := congrArg Reply.out hr
      have hle := htaken.le
      obtain ⟨cs, hunread, hrest⟩ := ih
      refine ⟨bs ++ cs, ?_, ?_⟩
      · rw [htaken.eq, hunread, List.append_assoc]
      · rw [hout, List.length_append]
        obtain ⟨hrest, hlength, hcalm'⟩ | ⟨e, hrest, hlength, hcalm'⟩ := hrest
        · refine .inl ⟨?_, by omega, fun h ↦ hcalm' (hcalm h)⟩
          rw [show rest.1 = ⟨0, cs⟩ from hrest]
        · refine .inr ⟨e, ?_, by omega, fun h ↦ hcalm' (hcalm h)⟩
          rw [show rest.1 = ⟨e.code, cs⟩ from hrest]

/-! ### Any calls -/

inductive SockCall where
  | read (buflen : ℕ)
  | peek (buflen : ℕ)
  | readline (buflen : ℕ)
  | fullread (buflen : ℕ)
  deriving DecidableEq, Repr

def SockCall.apply : SockCall → NusslSocket → Reply × NusslSocket
  | .read buflen, sock => nusslSockRead sock buflen
  | .peek buflen, sock => nusslSockPeek sock buflen
  | .readline buflen, sock => nusslSockReadline sock buflen
  | .fullread buflen, sock => nusslSockFullread sock buflen

/-- The replies to the calls, and the socket after them. -/
def NusslSocket.serves : List SockCall → NusslSocket → List Reply × NusslSocket
  | [], sock => ([], sock)
  | c :: cs, sock =>
    let r := c.apply sock
    let rest := serves cs r.2
    (r.1 :: rest.1, rest.2)

/-- What a call may do to a stream: its reply, and the stream after it. -/
inductive Serves : SockCall → List UInt8 → Reply → List UInt8 → Prop
  | read {n : ℕ} {s bs rest : List UInt8} (h : IsTaken n s bs rest) :
      Serves (.read n) s ⟨bs.length, bs⟩ rest
  | peek {n : ℕ} {s bs rest : List UInt8} (h : IsTaken n s bs rest) :
      Serves (.peek n) s ⟨bs.length, bs⟩ s
  | readline {n : ℕ} {line rest : List UInt8} (hline : newline ∉ line)
      (hle : line.length + 2 ≤ n) (hlt : line.length < rdbufsiz) :
      Serves (.readline n) (line ++ newline :: rest) ⟨line.length + 1, line ++ [newline, 0]⟩ rest
  | fullread {bs rest : List UInt8} : Serves (.fullread bs.length) (bs ++ rest) ⟨0, bs⟩ rest
  | short {n : ℕ} {bs rest : List UInt8} (e : SslSockError) (h : bs.length < n) :
      Serves (.fullread n) (bs ++ rest) ⟨e.code, bs⟩ rest
  | failed {c : SockCall} {s : List UInt8} (e : SslSockError) : Serves c s (.failed e) s

/-- The calls one after the other. -/
inductive ServesAll : List SockCall → List UInt8 → List Reply → List UInt8 → Prop
  | nil (s : List UInt8) : ServesAll [] s [] s
  | cons {c : SockCall} {cs : List SockCall} {s s' s'' : List UInt8} {r : Reply} {rs : List Reply}
      (h : Serves c s r s') (hrest : ServesAll cs s' rs s'') : ServesAll (c :: cs) s (r :: rs) s''

/-- What a call has taken from the stream. -/
def SockCall.taken : SockCall → Reply → List UInt8
  | .read _, r => r.out
  | .peek _, _ => []
  | .readline _, r => r.out.dropLast
  | .fullread _, r => r.out

theorem Serves.eq_taken {c : SockCall} {s s' : List UInt8} {r : Reply} (h : Serves c s r s') :
    s = c.taken r ++ s' := by
  cases h with
  | read h => exact h.eq
  | peek h => rfl
  | @readline n line rest hline hle hlt =>
    have htaken : (line ++ [newline, 0]).dropLast = line ++ [newline] := by
      rw [show line ++ [newline, 0] = (line ++ [newline]) ++ [0] by simp, List.dropLast_concat]
    show _ = (line ++ [newline, 0]).dropLast ++ _
    rw [htaken, List.append_assoc]
    rfl
  | fullread => rfl
  | short e h => rfl
  | failed e => cases c <;> rfl

theorem ServesAll.eq_taken {cs : List SockCall} {s s' : List UInt8} {rs : List Reply}
    (h : ServesAll cs s rs s') : s = (List.zipWith SockCall.taken cs rs).flatten ++ s' := by
  induction h with
  | nil s => rfl
  | cons h _ ih =>
    rw [h.eq_taken, ih]
    exact (List.append_assoc _ _ _).symm

theorem apply_serves (c : SockCall) (sock : NusslSocket) :
    Serves c sock.unread (c.apply sock).1 (c.apply sock).2.unread := by
  cases c with
  | read n =>
    show Serves _ _ (nusslSockRead sock n).1 (nusslSockRead sock n).2.unread
    obtain ⟨e, hr, hunread, -⟩ | ⟨bs, hr, htaken, -⟩ := nusslSockRead_spec sock n
    · rw [hr, hunread]
      exact .failed e
    · rw [hr]
      exact .read htaken
  | peek n =>
    show Serves _ _ (nusslSockPeek sock n).1 (nusslSockPeek sock n).2.unread
    obtain ⟨hunread, ⟨e, hr⟩ | ⟨bs, rest, hr, htaken⟩⟩ := nusslSockPeek_spec sock n
    · rw [hr, hunread]
      exact .failed e
    · rw [hr, hunread]
      exact .peek htaken
  | readline n =>
    show Serves _ _ (nusslSockReadline sock n).1 (nusslSockReadline sock n).2.unread
    obtain ⟨line, hr, hs, hline, hle, hlt, -⟩ | ⟨e, hr, hunread, -⟩ :=
      nusslSockReadline_spec sock n
    · rw [hr, hs]
      exact .readline hline hle hlt
    · rw [hr, hunread]
      exact .failed e
  | fullread n =>
    show Serves _ _ (nusslSockFullread sock n).1 (nusslSockFullread sock n).2.unread
    obtain ⟨bs, hs, ⟨hr, rfl, -⟩ | ⟨e, hr, hlt, -⟩⟩ := nusslSockFullread_spec sock n
    · rw [hr]
      nth_rewrite 1 [hs]
      exact .fullread
    · rw [hr]
      nth_rewrite 1 [hs]
      exact .short e hlt

/-- **Any calls on a socket** do what they may do to the stream, whatever the pieces in which its
bytes arrive and the faults in between; so what they have taken, and what is still unread, is the
stream. -/
theorem nussl_serves (cs : List SockCall) (sock : NusslSocket) :
    ServesAll cs sock.unread (sock.serves cs).1 (sock.serves cs).2.unread ∧
      sock.unread = (List.zipWith SockCall.taken cs (sock.serves cs).1).flatten ++
        (sock.serves cs).2.unread := by
  have hserves : ServesAll cs sock.unread (sock.serves cs).1 (sock.serves cs).2.unread := by
    induction cs generalizing sock with
    | nil => exact .nil _
    | cons c cs ih => exact .cons (apply_serves c sock) (ih _)
  exact ⟨hserves, hserves.eq_taken⟩

end Nufw
