import Nufw.Nussl.Socket

/-!
# From one end of a connection to the other

Without faults the pieces in which a stream arrives do not matter: `StreamRead.serve` computes what
a reader of lines and of blocks gets from the stream alone, and a socket gives just this
(`same_replies`). The write side of `nussl_socket.c` sends all or says that it does not, and so
frames go from one end to the other (`nussl_transfer`).
-/

namespace Nufw

open NusslSocket

/-- A read of a line or of a block. -/
inductive StreamRead where
  | line (buflen : ℕ)
  | block (buflen : ℕ)
  deriving DecidableEq, Repr

namespace StreamRead

def call : StreamRead → SockCall
  | .line buflen => .readline buflen
  | .block buflen => .fullread buflen

/-- What a read gets from a stream of which no more will come. -/
def serve : StreamRead → List UInt8 → Reply × List UInt8
  | .line buflen, s =>
    match firstNewline (s.take rdbufsiz) with
    | some k =>
      if buflen < k + 2 then (.failed .error, s)
      else (⟨k + 1, s.take (k + 1) ++ [0]⟩, s.drop (k + 1))
    | none => (.failed (if s.length < rdbufsiz then .timeout else .error), s)
  | .block buflen, s =>
    if buflen ≤ s.length then (⟨0, s.take buflen⟩, s.drop buflen)
    else (⟨SslSockError.timeout.code, s⟩, [])

def serveAll : List StreamRead → List UInt8 → List Reply × List UInt8
  | [], s => ([], s)
  | r :: rs, s =>
    let rest := serveAll rs (r.serve s).2
    ((r.serve s).1 :: rest.1, rest.2)

variable {line rest : List UInt8} {n : ℕ}

/-- The newline of the first line of a stream. -/
theorem firstNewline_take (hline : newline ∉ line) (hlt : line.length < rdbufsiz) :
    firstNewline ((line ++ newline :: rest).take rdbufsiz) = some line.length := by
  refine firstNewline_eq_some_iff.2 ⟨line, rest.take (rdbufsiz - line.length - 1), ?_, hline, rfl⟩
  obtain ⟨k, hk⟩ := Nat.exists_eq_add_of_lt hlt
  rw [List.take_append, List.take_of_length_le hlt.le, hk,
    show line.length + k + 1 - line.length = k + 1 by omega, List.take_succ_cons,
    Nat.add_sub_cancel]

theorem serve_line (hline : newline ∉ line) (hle : line.length + 2 ≤ n)
    (hlt : line.length < rdbufsiz) : (StreamRead.line n).serve (line ++ newline :: rest) =
      (⟨line.length + 1, line ++ [newline, 0]⟩, rest) := by
  have hcons : line ++ newline :: rest = (line ++ [newline]) ++ rest := by simp
  rw [serve, firstNewline_take hline hlt]
  dsimp only
  rw [if_neg (by omega), hcons, List.take_left' (by simp), List.drop_left' (by simp)]
  simp

/-- **Without faults a read gets what the stream alone says.** -/
theorem apply_eq_serve {sock : NusslSocket} (hcalm : Calm sock.fd) (r : StreamRead) :
    (r.call.apply sock).1 = (r.serve sock.unread).1 ∧
      (r.call.apply sock).2.unread = (r.serve sock.unread).2 ∧
      Calm (r.call.apply sock).2.fd := by
  cases r with
  | line n =>
    show (nusslSockReadline sock n).1 = _ ∧ (nusslSockReadline sock n).2.unread = _ ∧
      Calm (nusslSockReadline sock n).2.fd
    obtain ⟨line, hr, hs, hline, hle, hlt, hfd⟩ | ⟨e, hr, hunread, hfailed⟩ :=
      nusslSockReadline_spec sock n
    · have hserve : (StreamRead.line n).serve sock.unread =
          (⟨line.length + 1, line ++ [newline, 0]⟩, (nusslSockReadline sock n).2.unread) := by
        nth_rewrite 1 [hs]
        exact serve_line hline hle hlt
      rw [hserve]
      exact ⟨hr, rfl, hfd hcalm⟩
    · obtain ⟨hfd, hwhy⟩ := hfailed hcalm
      have hserve : (StreamRead.line n).serve sock.unread = (.failed e, sock.unread) := by
        obtain ⟨rfl, hnone, hlt⟩ | ⟨rfl, ⟨hnone, hle⟩ | ⟨line, rest, hs, hline, hlt, hn⟩⟩ := hwhy
        · rw [serve, List.take_of_length_le hlt.le, firstNewline_eq_none_iff.2 hnone]
          exact congrArg (Prod.mk · sock.unread) (congrArg Reply.failed (if_pos hlt))
        · rw [serve, firstNewline_eq_none_iff.2 hnone]
          exact congrArg (Prod.mk · sock.unread) (congrArg Reply.failed (if_neg (by omega)))
        · rw [serve, hs, firstNewline_take hline hlt]
          exact if_pos hn
      rw [hserve]
      exact ⟨hr, hunread, hfd⟩
  | block n =>
    show (nusslSockFullread sock n).1 = _ ∧ (nusslSockFullread sock n).2.unread = _ ∧
      Calm (nusslSockFullread sock n).2.fd
    obtain ⟨bs, hs, ⟨hr, rfl, hfd⟩ | ⟨e, hr, hlt, hfailed⟩⟩ := nusslSockFullread_spec sock n
    · have hserve : (StreamRead.block bs.length).serve sock.unread =
          (⟨0, bs⟩, (nusslSockFullread sock bs.length).2.unread) := by
        nth_rewrite 1 [hs]
        rw [serve, if_pos (by simp), List.take_left, List.drop_left]
      rw [hserve]
      exact ⟨hr, rfl, hfd hcalm⟩
    · obtain ⟨rfl, hnil, hunread⟩ := hfailed hcalm
      rw [hunread, List.append_nil] at hs
      rw [serve, if_neg (by rw [hs]; omega), hs]
      exact ⟨hr, hunread, hnil ▸ calm_nil⟩

theorem serves_eq_serveAll {sock : NusslSocket} (hcalm : Calm sock.fd) (rs : List StreamRead) :
    (sock.serves (rs.map call)).1 = (serveAll rs sock.unread).1 ∧
      (sock.serves (rs.map call)).2.unread = (serveAll rs sock.unread).2 := by
  induction rs generalizing sock with
  | nil => exact ⟨rfl, rfl⟩
  | cons r rs ih =>
    obtain ⟨hreply, hunread, hfd⟩ := apply_eq_serve hcalm r
    obtain ⟨hreplies, hrest⟩ := ih hfd
    rw [hunread] at hreplies hrest
    rw [List.map_cons, serveAll, NusslSocket.serves]
    exact ⟨congrArg₂ List.cons hreply hreplies, hrest⟩

end StreamRead

/-- **The pieces do not matter.** Two sockets with the same stream, in whatever pieces it arrives
and however much of it is in the buffer, give the same lines and blocks to the same reads. -/
theorem same_replies {sock sock' : NusslSocket} (hcalm : Calm sock.fd) (hcalm' : Calm sock'.fd)
    (h : sock.unread = sock'.unread) (rs : List StreamRead) :
    (sock.serves (rs.map StreamRead.call)).1 = (sock'.serves (rs.map StreamRead.call)).1 ∧
      (sock.serves (rs.map StreamRead.call)).2.unread =
        (sock'.serves (rs.map StreamRead.call)).2.unread := by
  obtain ⟨hreplies, hunread⟩ := StreamRead.serves_eq_serveAll hcalm rs
  obtain ⟨hreplies', hunread'⟩ := StreamRead.serves_eq_serveAll hcalm' rs
  exact ⟨by rw [hreplies, hreplies', h], by rw [hunread, hunread', h]⟩

/-- The same line, in one piece and in two. -/
theorem same_replies_hi :
    ((create [.data 104 [105, newline]]).serves ([.line 80].map StreamRead.call)).1 =
        ((create [.data 104 [], .data 105 [newline]]).serves ([.line 80].map StreamRead.call)).1 ∧
      ((create [.data 104 [105, newline]]).serves ([.line 80].map StreamRead.call)).2.unread =
        ((create [.data 104 [], .data 105 [newline]]).serves
          ([.line 80].map StreamRead.call)).2.unread :=
  @same_replies (create [.data 104 [105, newline]]) (create [.data 104 [], .data 105 [newline]])
    (calm_data.2 calm_nil) (calm_data.2 (calm_data.2 calm_nil)) rfl [.line 80]

/-! ### From one end to the other -/

/-- What a call of `ops->swrite` does: it takes some bytes at least, or fails. -/
inductive Sent where
  | accept (more : ℕ)
  | fault (e : SslSockError)
  deriving DecidableEq, Repr

/-- `sock->ops->swrite`: what it returns, and what the next calls will do. -/
def swrite : List Sent → ℕ → ℤ × List Sent
  | [], len => (len, [])
  | .accept more :: sends, len => (↑(min (more + 1) len), sends)
  | .fault e :: sends, _ => (e.code, sends)

/-- `nussl_sock_fullwrite`: what it returns, what is sent, and what the next writes will do. -/
def nusslSockFullwrite (sends : List Sent) (data : List UInt8) : ℤ × List UInt8 × List Sent :=
  let r := swrite sends data.length
  if 0 < r.1 ∧ r.1.toNat < data.length then
    let rest := nusslSockFullwrite r.2 (data.drop r.1.toNat)
    (rest.1, data.take r.1.toNat ++ rest.2.1, rest.2.2)
  else (if r.1 < 0 then r.1 else 0, data.take r.1.toNat, r.2)
termination_by data.length
decreasing_by
  next h =>
  have hsome : 0 < (swrite sends data.length).1 := h.1
  rw [List.length_drop]
  omega

theorem swrite_spec (sends : List Sent) (len : ℕ) :
    (∃ e : SslSockError, (swrite sends len).1 = e.code) ∨
      ∃ n : ℕ, (swrite sends len).1 = n ∧ n ≤ len ∧ (0 < len → 0 < n) := by
  cases sends with
  | nil => exact .inr ⟨len, rfl, Nat.le_refl _, id⟩
  | cons sent sends =>
    cases sent with
    | accept more => exact .inr ⟨min (more + 1) len, rfl, Nat.min_le_right _ _, by omega⟩
    | fault e => exact .inl ⟨e, rfl⟩

/-- **All is sent, or the write fails after the first bytes.** -/
theorem nusslSockFullwrite_spec (sends : List Sent) (data : List UInt8) :
    ((nusslSockFullwrite sends data).1 = 0 ∧ (nusslSockFullwrite sends data).2.1 = data) ∨
      (∃ e : SslSockError, (nusslSockFullwrite sends data).1 = e.code) ∧
        (nusslSockFullwrite sends data).2.1 <+: data := by
  fun_induction nusslSockFullwrite sends data with
  | case1 sends data r h rest ih =>
    obtain ⟨hret, hall⟩ | ⟨hret, hprefix⟩ := ih
    · exact .inl ⟨hret, by rw [show rest.2.1 = _ from hall, List.take_append_drop]⟩
    · refine .inr ⟨hret, ?_⟩
      have hdrop := (List.prefix_append_right_inj (data.take r.1.toNat)).2 hprefix
      rwa [List.take_append_drop] at hdrop
  | case2 sends data r h =>
    obtain ⟨e, hr⟩ | ⟨n, hr, hle, hpos⟩ := swrite_spec sends data.length
    · have hneg : r.1 < 0 := hr ▸ e.code_neg
      exact .inr ⟨⟨e, (if_pos hneg).trans hr⟩, List.take_prefix _ _⟩
    · have hnonneg : ¬r.1 < 0 := by
        rw [show r.1 = n from hr]
        omega
      refine .inl ⟨if_neg hnonneg, List.take_of_length_le ?_⟩
      rw [show r.1 = n from hr] at h ⊢
      omega

/-- The messages that are written, one after the other: what the writes return, and what is
sent. -/
def fullwrites : List Sent → List (List UInt8) → List ℤ × List UInt8
  | _, [] => ([], [])
  | sends, data :: messages =>
    let w := nusslSockFullwrite sends data
    let rest := fullwrites w.2.2 messages
    (w.1 :: rest.1, w.2.1 ++ rest.2)

theorem fullwrites_eq_flatten {sends : List Sent} {messages : List (List UInt8)}
    (h : ∀ r ∈ (fullwrites sends messages).1, r = 0) :
    (fullwrites sends messages).2 = messages.flatten := by
  induction messages generalizing sends with
  | nil => rfl
  | cons data messages ih =>
    rw [fullwrites, List.forall_mem_cons] at h
    obtain ⟨hzero, hrest⟩ := h
    obtain ⟨-, hall⟩ | ⟨⟨e, he⟩, -⟩ := nusslSockFullwrite_spec sends data
    · rw [fullwrites, List.flatten_cons, hall, ih hrest]
    · have hneg := e.code_neg
      omega

/-- What one end writes and the other one reads: a line that the reader has room for, or a block
of a length that both know. -/
inductive Frame where
  | line (text : List UInt8) (buflen : ℕ) (plain : newline ∉ text)
      (fits : text.length + 2 ≤ buflen) (short : text.length < rdbufsiz)
  | block (bs : List UInt8)

namespace Frame

def bytes : Frame → List UInt8
  | .line text _ _ _ _ => text ++ [newline]
  | .block bs => bs

def read : Frame → StreamRead
  | .line _ buflen _ _ _ => .line buflen
  | .block bs => .block bs.length

def reply : Frame → Reply
  | .line text _ _ _ _ => ⟨text.length + 1, text ++ [newline, 0]⟩
  | .block bs => ⟨0, bs⟩

theorem serve_read (f : Frame) (rest : List UInt8) :
    f.read.serve (f.bytes ++ rest) = (f.reply, rest) := by
  cases f with
  | line text buflen plain fits short =>
    show (StreamRead.line buflen).serve (text ++ [newline] ++ rest) = _
    rw [List.append_assoc]
    exact StreamRead.serve_line plain fits short
  | block bs =>
    show (StreamRead.block bs.length).serve (bs ++ rest) = _
    rw [StreamRead.serve, if_pos (by simp), List.take_left, List.drop_left]
    rfl

theorem serveAll_read (frames : List Frame) :
    StreamRead.serveAll (frames.map read) (frames.map bytes).flatten =
      (frames.map reply, []) := by
  induction frames with
  | nil => rfl
  | cons f frames ih =>
    rw [List.map_cons, List.map_cons, List.flatten_cons, StreamRead.serveAll, serve_read, ih]
    rfl

end Frame

/-- **From one end to the other.** When every write has returned 0, what arrives is read back frame
by frame, in whatever parts it was sent and in whatever pieces it arrives. -/
theorem nussl_transfer {sends : List Sent} {frames : List Frame} {fd : List Arrival}
    (hwrites : ∀ r ∈ (fullwrites sends (frames.map Frame.bytes)).1, r = 0)
    (harrives : carried fd = (fullwrites sends (frames.map Frame.bytes)).2) (hcalm : Calm fd) :
    ((create fd).serves ((frames.map Frame.read).map StreamRead.call)).1 =
        frames.map Frame.reply ∧
      ((create fd).serves ((frames.map Frame.read).map StreamRead.call)).2.unread =
        [] := by
  have hcreate : Calm (create fd).fd := hcalm
  obtain ⟨hreplies, hunread⟩ := StreamRead.serves_eq_serveAll hcreate (frames.map Frame.read)
  have hstream : (create fd).unread = (frames.map Frame.bytes).flatten := by
    rw [← fullwrites_eq_flatten hwrites, ← harrives]
    rfl
  rw [hstream, Frame.serveAll_read] at hreplies hunread
  exact ⟨hreplies, hunread⟩

/-- A line and a block, sent byte by byte at first, which arrive in two pieces. -/
theorem nussl_transfer_hi :
    ((create [.data 104 [105], .data newline [1, 2]]).serves
        (([Frame.line [104, 105] 80 (by decide) (by decide) (by decide), .block [1, 2]].map
          Frame.read).map StreamRead.call)).1 =
        [Frame.line [104, 105] 80 (by decide) (by decide) (by decide), .block [1, 2]].map
          Frame.reply ∧
      ((create [.data 104 [105], .data newline [1, 2]]).serves
        (([Frame.line [104, 105] 80 (by decide) (by decide) (by decide), .block [1, 2]].map
          Frame.read).map StreamRead.call)).2.unread = [] := by
  refine @nussl_transfer [.accept 0, .accept 0] _ _ ?_ ?_ (calm_data.2 (calm_data.2 calm_nil))
  · simp [fullwrites, nusslSockFullwrite, swrite, Frame.bytes]
  · simp [fullwrites, nusslSockFullwrite, swrite, Frame.bytes, carried]

end Nufw
