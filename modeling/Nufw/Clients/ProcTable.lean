import Nufw.Clients.TcpTable
import Nufw.Lib.Substrings
import Nufw.Nubase.Scanf

/-!
# The connections of a user

`parse_tcptable_file` of `tcptable.c` reads `/proc/net/tcp`, `tcp6` or `udp` into a buffer and looks
for the lines of connections that wait for an answer and belong to the user of the session. It finds
the state and the user by their columns, which it takes from the header, and compares the user as a
text: the number of the session, filled up to 5 columns, must be what the column starts with. All
other fields are scanned. Behind the last line the loop is entered once more, with what happens to
stand in the buffer there.

All lines of the user are found, and only these exactly if no other line has a number that continues
the one of the session, and the buffer behind the content is not taken for a line
(`parseTcptableFile_iff`).
-/

namespace Nufw

/-- `conn_t`, as it is given to `tcptable_add`. -/
structure UserConn extends ConnT where
  retransmit : UInt32
  uid : UInt64

/-- The four bytes of a number in memory. -/
def hostWord (order : ByteOrder) (x : UInt32) : Vector UInt8 4 :=
  ⟨(order.bytes32 x).toArray, by rw [List.size_toArray, ByteOrder.length_bytes32]⟩

/-- An address whose words are stored one by one. -/
def in6OfWords (order : ByteOrder) (w₀ w₁ w₂ w₃ : UInt32) : In6Addr :=
  hostWord order w₀ ++ hostWord order w₁ ++ hostWord order w₂ ++ hostWord order w₃

/-- `READ` of `hex2ipv6`; there are never more than 8 characters left to read. -/
def readHexWord (text : Bytes) : Option UInt32 :=
  match sscanf [.hex true] text with
  | [.number n] => some (UInt32.ofNat n)
  | _ => none

/-- `hex2ipv6`. -/
def hex2ipv6 (order : ByteOrder) (text : Bytes) : Option In6Addr :=
  if text.length ≠ 32 then none
  else
    match readHexWord (text.drop 24), readHexWord ((text.drop 16).take 8),
      readHexWord ((text.drop 8).take 8), readHexWord (text.take 8) with
    | some w₃, some w₂, some w₁, some w₀ => some (in6OfWords order w₀ w₁ w₂ w₃)
    | _, _, _, _ => none

/-! ### Parsing -/

/-- The conversion of an address. -/
def addrDirective (useIpv6 : Bool) : Directive := if useIpv6 then .str 32 else .hex true

/-- What an address is made of: a number, or a text. -/
def scannedAddr (order : ByteOrder) : ScanValue → Option In6Addr
  | .number n => some (uint32ToIpv6 (hostWord order (UInt32.ofNat n)))
  | .text word => hex2ipv6 order word

/-- The format of `sscanf`: ``%*d: <addr>:%hx <addr>:%hx %*x %*x:%*x %*x:%*x %x %lu %*d %lu``. -/
def connFormat (useIpv6 : Bool) : List Directive :=
  [.dec false, .char 58, .blank,
    addrDirective useIpv6, .char 58, .hex true, .blank,
    addrDirective useIpv6, .char 58, .hex true, .blank,
    .hex false, .blank, .hex false, .char 58, .hex false, .blank,
    .hex false, .char 58, .hex false, .blank, .hex true, .blank,
    .dec true, .blank, .dec false, .blank, .dec true]

/-- The fields of a line, if all of them are there. -/
def scanConn (order : ByteOrder) (protocol : UInt32) (useIpv6 : Bool) (text : Bytes) :
    Option UserConn :=
  match sscanf (connFormat useIpv6) text with
  | [src, .number portSrc, dst, .number portDst, .number retransmit, .number uid, .number inode] =>
    match scannedAddr order src, scannedAddr order dst with
    | some ipSrc, some ipDst =>
      some
        { protocol, ipSrc, ipDst,
          portSrc := UInt16.ofNat portSrc, portDst := UInt16.ofNat portDst,
          retransmit := UInt32.ofNat retransmit, uid := UInt64.ofNat uid,
          inode := UInt64.ofNat inode }
    | _, _ => none
  | _ => none

/-- The number of the session, as `%5lu` prints it. -/
def sessionUid (userid : UInt32) : Bytes := rightAligned 5 userid.toNat

/-- The body of the loop, at the beginning of a line: the connection that is added. Memory that is
not listed is zero. -/
def lineConn (order : ByteOrder) (userid protocol : UInt32) (useIpv6 : Bool) (statePos uidPos : ℕ)
    (buf : Bytes) : Option UserConn :=
  if buf.getD statePos 0 ≠ 50 then none
  else if ¬sessionUid userid <+: buf.drop uidPos then none
  else
    match scanConn order protocol useIpv6 (cString buf) with
    | none => none
    | some c => if c.inode = 0 then none else some c

/-- The loop over the lines: `left` is what of the content there is from `buf` on. It fails if no
line ends behind `buf`. -/
def lineLoop (conn : Bytes → Option UserConn) (uidPos : ℕ) :
    ℕ → Int → Bytes → Option (List UserConn)
  | 0, _, _ => none
  | fuel + 1, left, buf =>
    if uidPos < left then
      match strchr (cString buf) 10 with
      | none => none
      | some (line, _) =>
        let buf := buf.drop (line.length + 1)
        (lineLoop conn uidPos fuel (left - (line.length + 1)) buf).map ((conn buf).toList ++ ·)
    else some []

/-- The size of the buffer. -/
def fullbufSize : ℕ := 1024 * 256

/-- `parse_tcptable_file`: the connections that are added. `behind` is the memory behind what has
been read. -/
def parseTcptableFile (order : ByteOrder) (userid protocol : UInt32) (useIpv6 : Bool)
    (content behind : Bytes) : Option (List UserConn) :=
  let fullbuf := content.take fullbufSize ++ behind
  let readlen := min content.length fullbufSize
  match strstr (cString fullbuf) (ascii " st "), strstr (cString fullbuf) (ascii " retrnsmt ") with
  | some (beforeSt, _), some (beforeUid, _) =>
    let statePos := beforeSt.length + 2
    let uidPos := beforeUid.length + 10
    lineLoop (lineConn order userid protocol useIpv6 statePos uidPos) uidPos (fullbuf.length + 1)
      readlen fullbuf
  | _, _ => none

/-! ### The files -/

/-- An address as the kernel prints it, word by word. -/
inductive ProcAddr
  | v4 (addr : UInt32)
  | v6 (w₀ w₁ w₂ w₃ : UInt32)

namespace ProcAddr

def isV6 : ProcAddr → Bool
  | v4 _ => false
  | v6 .. => true

def text : ProcAddr → Bytes
  | v4 addr => hexPadded 8 addr.toNat
  | v6 w₀ w₁ w₂ w₃ =>
    hexPadded 8 w₀.toNat ++ hexPadded 8 w₁.toNat ++ hexPadded 8 w₂.toNat ++ hexPadded 8 w₃.toNat

/-- The address that is meant. -/
def addr (order : ByteOrder) : ProcAddr → In6Addr
  | v4 addr => uint32ToIpv6 (hostWord order addr)
  | v6 w₀ w₁ w₂ w₃ => in6OfWords order w₀ w₁ w₂ w₃

/-- How many columns an address takes. -/
def width (isV6 : Bool) : ℕ := if isV6 then 32 else 8

end ProcAddr

/-- A socket, as it is listed. -/
structure ProcSock where
  slot : ℕ
  src : ProcAddr
  portSrc : UInt16
  dst : ProcAddr
  portDst : UInt16
  state : UInt8
  txQueue : UInt32
  rxQueue : UInt32
  timer : UInt8
  timerWhen : UInt32
  retransmit : UInt32
  uid : UInt32
  timeout : UInt32
  inode : UInt64
  /-- What follows the inode. -/
  others : Bytes

/-- `TCP_SYN_SENT`. -/
def tcpSynSent : UInt8 := 2

namespace ProcSock

/-- The columns before the user. -/
def columns (slotWidth : ℕ) (e : ProcSock) : Bytes :=
  rightAligned slotWidth e.slot ++ 58 :: 32 ::
    (e.src.text ++ 58 :: (hexPadded 4 e.portSrc.toNat ++ 32 ::
    (e.dst.text ++ 58 :: (hexPadded 4 e.portDst.toNat ++ 32 ::
    (hexPadded 2 e.state.toNat ++ 32 ::
    (hexPadded 8 e.txQueue.toNat ++ 58 :: (hexPadded 8 e.rxQueue.toNat ++ 32 ::
    (hexPadded 2 e.timer.toNat ++ 58 :: (hexPadded 8 e.timerWhen.toNat ++ 32 ::
    (hexPadded 8 e.retransmit.toNat ++ [32]))))))))))

/-- The user, and what follows. -/
def userColumns (e : ProcSock) : Bytes :=
  rightAligned 5 e.uid.toNat ++ 32 :: (rightAligned 8 e.timeout.toNat ++ 32 ::
    (decimal e.inode.toNat ++ 32 :: e.others))

/-- The line of a socket, without its end. -/
def line (slotWidth : ℕ) (e : ProcSock) : Bytes := e.columns slotWidth ++ e.userColumns

/-- The connection of a socket. -/
def conn (order : ByteOrder) (protocol : UInt32) (e : ProcSock) : UserConn where
  protocol := protocol
  ipSrc := e.src.addr order
  portSrc := e.portSrc
  ipDst := e.dst.addr order
  portDst := e.portDst
  inode := e.inode
  retransmit := e.retransmit
  uid := e.uid.toUInt64

end ProcSock

/-- The column of the second digit of the state. -/
def stateColumn (slotWidth : ℕ) (ipv6 : Bool) : ℕ := slotWidth + 2 * ProcAddr.width ipv6 + 15

/-- The column where the user starts. -/
def uidColumn (slotWidth : ℕ) (ipv6 : Bool) : ℕ := stateColumn slotWidth ipv6 + 41

/-- A kind of file: its header stands over the columns of the lines. -/
structure ProcFormat where
  header : Bytes
  /-- The columns of the slot. -/
  slotWidth : ℕ
  ipv6 : Bool
  slotWidth_pos : 0 < slotWidth
  noBreak : 10 ∉ header
  noNul : 0 ∉ header
  st : (strstr header (ascii " st ")).map (fun place ↦ place.1.length + 2) =
    some (stateColumn slotWidth ipv6)
  retrnsmt : (strstr header (ascii " retrnsmt ")).map (fun place ↦ place.1.length + 10) =
    some (uidColumn slotWidth ipv6)

namespace ProcFormat

/-- The socket fits into the columns. -/
structure Fits (f : ProcFormat) (e : ProcSock) : Prop where
  slot : e.slot < 10 ^ f.slotWidth
  src : e.src.isV6 = f.ipv6
  dst : e.dst.isV6 = f.ipv6
  noBreak : 10 ∉ e.others
  noNul : 0 ∉ e.others

/-- The lines of the sockets. -/
def lines (f : ProcFormat) (socks : List ProcSock) : Bytes :=
  (socks.map fun e ↦ e.line f.slotWidth ++ [10]).flatten

/-- A file. -/
def content (f : ProcFormat) (socks : List ProcSock) : Bytes :=
  f.header ++ 10 :: f.lines socks

end ProcFormat

/-- The number of another user continues that of the session. -/
def Continues (userid uid : UInt32) : Prop :=
  10000 ≤ userid.toNat ∧ uid ≠ userid ∧ decimal userid.toNat <+: decimal uid.toNat

/-- What happens to stand in memory looks like a line of the user, but is one of another user. -/
def StrayLine (f : ProcFormat) (order : ByteOrder) (userid protocol : UInt32) (behind : Bytes) :
    Prop :=
  behind.getD (stateColumn f.slotWidth f.ipv6) 0 = 50 ∧
    sessionUid userid <+: behind.drop (uidColumn f.slotWidth f.ipv6) ∧
    ∃ c, scanConn order protocol f.ipv6 (cString behind) = some c ∧ c.inode ≠ 0 ∧
      c.uid ≠ userid.toUInt64

/-- The connections that are added are those of the user, and all of the user's that wait for an
answer are among them. -/
structure OwnConns (order : ByteOrder) (userid protocol : UInt32) (socks : List ProcSock)
    (added : List UserConn) : Prop where
  own : ∀ c ∈ added, c.uid = userid.toUInt64
  all : ∀ e ∈ socks, e.state = tcpSynSent → e.uid = userid → e.inode ≠ 0 →
    e.conn order protocol ∈ added

/-! ### The loop -/

/-- No line ends in the text. -/
def NoEnd (text : Bytes) : Prop := 10 ∉ text ∧ 0 ∉ text

theorem cString_line {text : Bytes} (h : NoEnd text) (rest : Bytes) :
    cString (text ++ 10 :: rest) = text ++ 10 :: cString rest := by
  have hnul : ∀ c ∈ text, decide (c ≠ 0) = true := fun c hc ↦
    decide_eq_true fun h0 : c = 0 ↦ h.2 (h0 ▸ hc)
  rw [cString, List.takeWhile_append_of_pos hnul, List.takeWhile_cons_of_pos (by decide)]
  rfl

theorem strchr_line {text : Bytes} (h : NoEnd text) (rest : Bytes) :
    strchr (cString (text ++ 10 :: rest)) 10 = some (text, cString rest) := by
  rw [cString_line h]
  exact strchr_append h.1 _

/-- **One turn** goes to the next line. -/
theorem lineLoop_succ {conn : Bytes → Option UserConn} {uidPos : ℕ} {left : Int}
    (hlt : uidPos < left) (fuel : ℕ) {first : Bytes} (hfirst : NoEnd first) (rest : Bytes) :
    lineLoop conn uidPos (fuel + 1) left (first ++ 10 :: rest) =
      (lineLoop conn uidPos fuel (left - (first.length + 1)) rest).map
        ((conn rest).toList ++ ·) := by
  have hdrop : (first ++ 10 :: rest).drop (first.length + 1) = rest := by
    rw [List.drop_append, List.drop_of_length_le (Nat.le_succ _), Nat.add_sub_cancel_left]
    rfl
  rw [lineLoop, if_pos hlt, strchr_line hfirst]
  dsimp only
  rw [hdrop]

/-- **The loop goes over all lines**, and over what follows the last one. -/
theorem lineLoop_eq {ι : Type} {conn : Bytes → Option UserConn} {uidPos : ℕ} {line : ι → Bytes}
    {g : ι → Option UserConn} {items : List ι}
    (hline : ∀ item ∈ items, NoEnd (line item) ∧ uidPos ≤ (line item).length)
    (hconn : ∀ item ∈ items, ∀ rest, conn (line item ++ 10 :: rest) = g item) {fuel : ℕ}
    (hfuel : items.length + 1 < fuel) (behind : Bytes) {first : Bytes} (hfirst : NoEnd first)
    {left : Int}
    (hleft : left = (first ++ 10 :: (items.map fun item ↦ line item ++ [10]).flatten).length)
    (hlt : uidPos < left) :
    lineLoop conn uidPos fuel left
        (first ++ 10 :: ((items.map fun item ↦ line item ++ [10]).flatten ++ behind)) =
      some (items.filterMap g ++ (conn behind).toList) := by
  induction items generalizing first fuel left with
  | nil =>
    obtain ⟨fuel, rfl⟩ : ∃ n, fuel = n + 2 := Nat.exists_eq_add_of_le' hfuel
    have hend : left - (first.length + 1) = 0 := by
      rw [hleft, List.length_append]
      simp
    rw [lineLoop_succ hlt (fuel + 1) hfirst, hend]
    have hstop : ¬(uidPos : Int) < 0 := Int.not_lt.2 (Int.natCast_nonneg uidPos)
    rw [List.map_nil, List.flatten_nil, List.nil_append, lineLoop, if_neg hstop,
      Option.map_some, List.append_nil, List.filterMap_nil, List.nil_append]
  | cons item items ih =>
    obtain ⟨fuel, rfl⟩ : ∃ n, fuel = n + 1 :=
      Nat.exists_eq_add_of_le' (Nat.lt_of_lt_of_le (Nat.succ_pos _) hfuel.le)
    obtain ⟨⟨hend, hlong⟩, hline⟩ := List.forall_mem_cons.1 hline
    obtain ⟨hconn, hconns⟩ := List.forall_mem_cons.1 hconn
    have hnext : ((item :: items).map fun item ↦ line item ++ [10]).flatten ++ behind =
        line item ++ 10 :: ((items.map fun item ↦ line item ++ [10]).flatten ++ behind) := by
      simp
    have hleft' : left - (first.length + 1) =
        (line item ++ 10 :: (items.map fun item ↦ line item ++ [10]).flatten).length := by
      rw [hleft, List.length_append]
      simp
    have hlt' : (uidPos : Int) < left - (first.length + 1) := by
      rw [hleft', List.length_append, List.length_cons]
      omega
    rw [lineLoop_succ hlt fuel hfirst, hnext, ih hline hconns (by simpa using hfuel) hend hleft'
      hlt', hconn, Option.map_some]
    cases hg : g item with
    | none => simp [hg]
    | some c => simp [hg]

theorem lineConn_eq_some_iff {order : ByteOrder} {userid protocol : UInt32} {useIpv6 : Bool}
    {statePos uidPos : ℕ} {buf : Bytes} {c : UserConn} :
    lineConn order userid protocol useIpv6 statePos uidPos buf = some c ↔
      buf.getD statePos 0 = 50 ∧ sessionUid userid <+: buf.drop uidPos ∧
        scanConn order protocol useIpv6 (cString buf) = some c ∧ c.inode ≠ 0 := by
  rw [lineConn]
  by_cases h₁ : buf.getD statePos 0 = 50
  · rw [if_neg (not_not.2 h₁)]
    by_cases h₂ : sessionUid userid <+: buf.drop uidPos
    · rw [if_neg (not_not.2 h₂)]
      cases hscan : scanConn order protocol useIpv6 (cString buf) with
      | none => simp
      | some d =>
        dsimp only
        split_ifs with h₃
        · refine ⟨nofun, ?_⟩
          rintro ⟨-, -, hd, hinode⟩
          exact absurd h₃ (Option.some.inj hd ▸ hinode)
        · refine ⟨fun hd ↦ ⟨h₁, h₂, hd, Option.some.inj hd ▸ h₃⟩, fun h ↦ h.2.2.1⟩
    · rw [if_pos h₂]
      exact ⟨nofun, fun h ↦ absurd h.2.1 h₂⟩
  · rw [if_pos h₁]
    exact ⟨nofun, fun h ↦ absurd h.1 h₁⟩

/-! ### The columns -/

@[simp]
theorem noEnd_nil : NoEnd [] := ⟨List.not_mem_nil, List.not_mem_nil⟩

@[simp]
theorem noEnd_cons {c : UInt8} {text : Bytes} :
    NoEnd (c :: text) ↔ (c ≠ 10 ∧ c ≠ 0) ∧ NoEnd text := by
  simp only [NoEnd, List.mem_cons, not_or]
  tauto

@[simp]
theorem noEnd_append {text text' : Bytes} :
    NoEnd (text ++ text') ↔ NoEnd text ∧ NoEnd text' := by
  simp only [NoEnd, List.mem_append, not_or]
  tauto

@[simp]
theorem noEnd_hexPadded (width n : ℕ) : NoEnd (hexPadded width n) :=
  ⟨fun h ↦ absurd (isxdigit_of_mem_hexPadded h) (by decide),
    fun h ↦ absurd (isxdigit_of_mem_hexPadded h) (by decide)⟩

@[simp]
theorem noEnd_decimal (n : ℕ) : NoEnd (decimal n) :=
  ⟨fun h ↦ absurd (isdigit_of_mem_decimal h) (by decide),
    fun h ↦ absurd (isdigit_of_mem_decimal h) (by decide)⟩

@[simp]
theorem noEnd_rightAligned (width n : ℕ) : NoEnd (rightAligned width n) := by
  rw [rightAligned, noEnd_append]
  exact ⟨⟨fun h ↦ absurd (List.eq_of_mem_replicate h) (by decide),
    fun h ↦ absurd (List.eq_of_mem_replicate h) (by decide)⟩, noEnd_decimal n⟩

namespace ProcAddr

@[simp]
theorem noEnd_text (a : ProcAddr) : NoEnd a.text := by
  cases a <;> simp [text]

@[simp]
theorem length_text (a : ProcAddr) : a.text.length = width a.isV6 := by
  cases a <;> simp [text, width, isV6]

/-- What is scanned of an address. -/
def value : ProcAddr → ScanValue
  | v4 addr => .number addr.toNat
  | a => .text a.text

theorem readHexWord_hexPadded (w : UInt32) : readHexWord (hexPadded 8 w.toNat) = some w := by
  have hlt : w.toNat < 16 ^ 8 := w.toNat_lt
  have hscan : sscanf [.hex true] (hexPadded 8 w.toNat ++ []) = [.number w.toNat] :=
    sscanf_hexPadded (by decide) (by decide) hlt endsHex_nil
  rw [List.append_nil] at hscan
  rw [readHexWord, hscan]
  exact congrArg some (UInt32.ofNat_toNat)

theorem hex2ipv6_text (order : ByteOrder) (w₀ w₁ w₂ w₃ : UInt32) :
    hex2ipv6 order (v6 w₀ w₁ w₂ w₃).text = some (in6OfWords order w₀ w₁ w₂ w₃) := by
  have hlength : (v6 w₀ w₁ w₂ w₃).text.length = 32 := length_text _
  have h₃ : (v6 w₀ w₁ w₂ w₃).text.drop 24 = hexPadded 8 w₃.toNat := List.drop_left' (by simp)
  have h₂ : ((v6 w₀ w₁ w₂ w₃).text.drop 16).take 8 = hexPadded 8 w₂.toNat := by
    rw [text, List.append_assoc, List.drop_left' (by simp), List.take_left' (by simp)]
  have h₁ : ((v6 w₀ w₁ w₂ w₃).text.drop 8).take 8 = hexPadded 8 w₁.toNat := by
    rw [text, List.append_assoc, List.append_assoc, List.drop_left' (by simp),
      List.take_left' (by simp)]
  have h₀ : (v6 w₀ w₁ w₂ w₃).text.take 8 = hexPadded 8 w₀.toNat := by
    rw [text, List.append_assoc, List.append_assoc, List.take_left' (by simp)]
  rw [hex2ipv6, if_neg (not_not.2 hlength), h₃, h₂, h₁, h₀]
  simp only [readHexWord_hexPadded]

/-- **An address is read back.** -/
theorem scannedAddr_value (order : ByteOrder) (a : ProcAddr) :
    scannedAddr order a.value = some (a.addr order) := by
  cases a with
  | v4 addr =>
    rw [value, scannedAddr, UInt32.ofNat_toNat]
    rfl
  | v6 w₀ w₁ w₂ w₃ => exact hex2ipv6_text order w₀ w₁ w₂ w₃

@[simp]
theorem sscanf_text {format : List Directive} {a : ProcAddr} {isV6 : Bool} (h : a.isV6 = isV6)
    (rest : Bytes) :
    sscanf (addrDirective isV6 :: format) (a.text ++ 58 :: rest) =
      a.value :: sscanf format (58 :: rest) := by
  subst h
  cases a with
  | v4 addr => exact sscanf_hex (by decide) (by decide) addr.toNat_lt rfl (by decide) (by decide)
  | v6 w₀ w₁ w₂ w₃ =>
    have hlength : (v6 w₀ w₁ w₂ w₃).text.length = 32 := length_text _
    have hne : (v6 w₀ w₁ w₂ w₃).text ≠ [] := List.ne_nil_of_length_pos (by omega)
    have hspace : ∀ c ∈ (v6 w₀ w₁ w₂ w₃).text, isspace c = false := by
      intro c hc
      simp only [text, List.mem_append, or_assoc] at hc
      rcases hc with hc | hc | hc | hc <;>
        exact isspace_eq_false_of_isxdigit (isxdigit_of_mem_hexPadded hc)
    have hscan : sscanf (.str (v6 w₀ w₁ w₂ w₃).text.length :: format)
        ((v6 w₀ w₁ w₂ w₃).text ++ 58 :: rest) = _ := sscanf_str hne hspace
    rw [hlength] at hscan
    exact hscan

theorem addrDirective_ne_char (isV6 : Bool) (c : UInt8) : addrDirective isV6 ≠ .char c := by
  cases isV6 <;> exact nofun

@[simp]
theorem sscanf_blank_addr {format : List Directive} {isV6 : Bool} {input : Bytes} :
    sscanf (.blank :: addrDirective isV6 :: format) input =
      sscanf (addrDirective isV6 :: format) input :=
  sscanf_blank (addrDirective_ne_char isV6)

@[simp]
theorem sscanf_addr_space {format : List Directive} {isV6 : Bool} {input : Bytes} :
    sscanf (addrDirective isV6 :: format) (32 :: input) =
      sscanf (addrDirective isV6 :: format) input :=
  sscanf_skip (addrDirective_ne_char isV6) [32] (by simp [isspace])

end ProcAddr

namespace ProcFormat

variable {f : ProcFormat} {e : ProcSock}

theorem Fits.noEnd_line (h : f.Fits e) : NoEnd (e.line f.slotWidth) := by
  have hothers : NoEnd e.others := ⟨h.noBreak, h.noNul⟩
  simp [ProcSock.line, ProcSock.columns, ProcSock.userColumns, hothers]

theorem Fits.length_slot (h : f.Fits e) :
    (rightAligned f.slotWidth e.slot).length = f.slotWidth :=
  length_rightAligned f.slotWidth_pos h.slot

/-- The user stands in its column. -/
theorem Fits.length_columns (h : f.Fits e) :
    (e.columns f.slotWidth).length = uidColumn f.slotWidth f.ipv6 := by
  simp only [ProcSock.columns, List.length_append, List.length_cons, List.length_nil,
    length_hexPadded, ProcAddr.length_text, h.length_slot, h.src, h.dst, uidColumn, stateColumn]
  omega

/-- The second digit of the state stands in its column. -/
theorem Fits.getD_stateColumn (h : f.Fits e) (rest : Bytes) :
    (e.line f.slotWidth ++ rest).getD (stateColumn f.slotWidth f.ipv6) 0 =
      xdigitByte (e.state.toNat % 16) := by
  obtain ⟨before, behind, hsplit, hlength⟩ : ∃ before behind,
      e.columns f.slotWidth = before ++ xdigitByte (e.state.toNat % 16) :: behind ∧
        before.length = stateColumn f.slotWidth f.ipv6 := by
    refine ⟨rightAligned f.slotWidth e.slot ++ 58 :: 32 ::
      (e.src.text ++ 58 :: (hexPadded 4 e.portSrc.toNat ++ 32 ::
      (e.dst.text ++ 58 :: (hexPadded 4 e.portDst.toNat ++
      [32, xdigitByte (e.state.toNat / 16 % 16)])))),
      32 :: (hexPadded 8 e.txQueue.toNat ++ 58 :: (hexPadded 8 e.rxQueue.toNat ++ 32 ::
      (hexPadded 2 e.timer.toNat ++ 58 :: (hexPadded 8 e.timerWhen.toNat ++ 32 ::
      (hexPadded 8 e.retransmit.toNat ++ [32]))))), ?_, ?_⟩
    · have hstate : hexPadded 2 e.state.toNat =
        [xdigitByte (e.state.toNat / 16 % 16), xdigitByte (e.state.toNat % 16)] := rfl
      simp [ProcSock.columns, hstate]
    · simp only [List.length_append, List.length_cons, List.length_nil, length_hexPadded,
        ProcAddr.length_text, h.length_slot, h.src, h.dst, stateColumn]
      omega
  rw [ProcSock.line, hsplit, ← hlength, List.append_assoc, List.append_assoc,
    List.getD_eq_getElem?_getD, List.getElem?_append_right (Nat.le_refl _), Nat.sub_self]
  rfl

/-- **A line is read back.** -/
theorem Fits.scanConn_line (h : f.Fits e) (order : ByteOrder) (protocol : UInt32)
    (rest : Bytes) :
    scanConn order protocol f.ipv6 (e.line f.slotWidth ++ 10 :: rest) =
      some (e.conn order protocol) := by
  have h8 : ∀ x : UInt8, x.toNat < 256 := UInt8.toNat_lt
  have h16 : ∀ x : UInt16, x.toNat < 65536 := UInt16.toNat_lt
  have h32 : ∀ x : UInt32, x.toNat < 4294967296 := UInt32.toNat_lt
  have h32' : ∀ x : UInt32, x.toNat < 18446744073709551616 := fun x ↦
    (h32 x).trans (by decide)
  have h64 : ∀ x : UInt64, x.toNat < 18446744073709551616 := UInt64.toNat_lt
  have hdigit : isdigit 58 = false ∧ isdigit 32 = false ∧ isxdigit 58 = false ∧
    isxdigit 32 = false := by decide
  have hscan : sscanf (connFormat f.ipv6) (e.line f.slotWidth ++ 10 :: rest) =
      [e.src.value, .number e.portSrc.toNat, e.dst.value, .number e.portDst.toNat,
        .number e.retransmit.toNat, .number e.uid.toNat, .number e.inode.toNat] := by
    simp [connFormat, ProcSock.line, ProcSock.columns, ProcSock.userColumns, h.src, h.dst, hdigit,
      h8, h16, h32, h32', h64]
  rw [scanConn, hscan]
  simp [ProcAddr.scannedAddr_value, ProcSock.conn]

end ProcFormat

/-! ### The user -/

theorem decimal_injective {n m : ℕ} (h : decimal n = decimal m) : n = m := by
  rw [← ofDigits_decimal n, h, ofDigits_decimal]

theorem length_decimal_gt {n : ℕ} (h : 10000 ≤ n) : 4 < (decimal n).length := by
  by_contra hle
  rw [decimal, List.length_map, Nat.not_lt,
    Nat.length_toDigits_le_iff (by decide) (by decide)] at hle
  exact absurd hle (Nat.not_lt.2 h)

/-- **What the comparison of texts accepts**: the number of the session, or one that continues
it. -/
theorem sessionUid_prefix_iff {userid uid : UInt32} (rest : Bytes) :
    sessionUid userid <+: rightAligned 5 uid.toNat ++ 32 :: rest ↔
      uid = userid ∨ Continues userid uid := by
  constructor
  · rintro ⟨tail, htail⟩
    obtain ⟨hblanks, hdigits⟩ := rightAligned_append 5 uid.toNat (32 :: rest)
    obtain ⟨hblanks', hdigits'⟩ := rightAligned_append 5 userid.toNat tail
    rw [← htail, sessionUid] at hblanks hdigits
    rw [hblanks] at hblanks'
    rw [hdigits] at hdigits'
    -- The digits of the session end where those of the line do, or before.
    have hstarts : decimal userid.toNat <+: decimal uid.toNat := by
      rcases List.prefix_or_prefix_of_prefix (List.prefix_append (decimal userid.toNat) tail)
        (hdigits' ▸ List.prefix_append (decimal uid.toNat) (32 :: rest)) with h | h
      · exact h
      · obtain ⟨more, hmore⟩ := h
        rw [← hmore, List.append_assoc, List.append_cancel_left_eq] at hdigits'
        rcases more with _ | ⟨c, more⟩
        · have hsame : decimal uid.toNat = decimal userid.toNat :=
            (List.append_nil _).symm.trans hmore
          exact ⟨[], (List.append_nil _).trans hsame.symm⟩
        · have hc : c ∈ decimal userid.toNat := by
            rw [← hmore]
            exact List.mem_append_right _ List.mem_cons_self
          rw [← (List.cons.inj hdigits').1] at hc
          exact absurd (isdigit_of_mem_decimal hc) (by decide)
    by_cases huid : uid = userid
    · exact Or.inl huid
    · refine Or.inr ⟨?_, huid, hstarts⟩
      by_contra hsmall
      have hlength : (decimal userid.toNat).length ≤ 4 :=
        length_decimal_le (by decide) (by omega)
      have hcount := congrArg List.length hblanks'
      rw [List.length_replicate, List.length_replicate] at hcount
      have heq := hstarts.eq_of_length (by omega)
      exact huid (UInt32.toNat_inj.1 (decimal_injective heq).symm)
  · rintro (rfl | ⟨hlarge, -, hstarts⟩)
    · exact List.prefix_append _ _
    · have hlength := length_decimal_gt hlarge
      have hlength' := hstarts.length_le
      rw [sessionUid, rightAligned, rightAligned, Nat.sub_eq_zero_of_le hlength,
        Nat.sub_eq_zero_of_le (hlength.trans_le hlength')]
      exact hstarts.trans (List.prefix_append _ _)

/-- The connection of a socket is added. -/
def Selected (userid : UInt32) (e : ProcSock) : Prop :=
  e.state.toNat % 16 = 2 ∧ (e.uid = userid ∨ Continues userid e.uid) ∧ e.inode ≠ 0

instance (userid : UInt32) (e : ProcSock) : Decidable (Selected userid e) := by
  unfold Selected Continues
  infer_instance

namespace ProcFormat

variable {f : ProcFormat} {e : ProcSock}

/-- **What becomes of a line.** -/
theorem Fits.lineConn_line (h : f.Fits e) (order : ByteOrder)
    (userid protocol : UInt32) (rest : Bytes) :
    lineConn order userid protocol f.ipv6 (stateColumn f.slotWidth f.ipv6)
        (uidColumn f.slotWidth f.ipv6) (e.line f.slotWidth ++ 10 :: rest) =
      if Selected userid e then some (e.conn order protocol) else none := by
  have hstate : xdigitByte (e.state.toNat % 16) = 50 ↔ e.state.toNat % 16 = 2 := by
    have hall : ∀ d < 16, xdigitByte d = 50 ↔ d = 2 := by decide
    exact hall _ (Nat.mod_lt _ (by decide))
  have hdrop : (e.line f.slotWidth ++ 10 :: rest).drop (uidColumn f.slotWidth f.ipv6) =
      e.userColumns ++ 10 :: rest := by
    rw [ProcSock.line, List.append_assoc, List.drop_left' h.length_columns]
  have huser : sessionUid userid <+: e.userColumns ++ 10 :: rest ↔
      e.uid = userid ∨ Continues userid e.uid := by
    rw [ProcSock.userColumns, List.append_assoc, List.cons_append]
    exact sessionUid_prefix_iff _
  rw [lineConn, h.getD_stateColumn, hdrop, cString_line h.noEnd_line, h.scanConn_line]
  dsimp only
  by_cases h₁ : e.state.toNat % 16 = 2
  · rw [if_neg (not_not.2 (hstate.2 h₁))]
    by_cases h₂ : e.uid = userid ∨ Continues userid e.uid
    · rw [if_neg (not_not.2 (huser.2 h₂))]
      by_cases h₃ : e.inode = 0
      · rw [if_neg fun hacc : Selected userid e ↦ hacc.2.2 h₃]
        exact if_pos h₃
      · have hacc : Selected userid e := ⟨h₁, h₂, h₃⟩
        rw [if_pos hacc]
        exact if_neg h₃
    · rw [if_pos (mt huser.1 h₂), if_neg fun hacc : Selected userid e ↦ h₂ hacc.2.1]
  · rw [if_pos (mt hstate.1 h₁), if_neg fun hacc : Selected userid e ↦ h₁ hacc.1]

/-- The column that is found in the header. -/
theorem exists_column {needle : Bytes} {gap column : ℕ}
    (h : (strstr f.header needle).map (fun place ↦ place.1.length + gap) = some column)
    (rest : Bytes) :
    ∃ before start, strstr (f.header ++ rest) needle = some (before, start) ∧
      before.length + gap = column := by
  obtain ⟨⟨before, start⟩, hplace, hcolumn⟩ := Option.map_eq_some_iff.1 h
  exact ⟨before, start ++ rest, strstr_append hplace rest, hcolumn⟩

theorem Fits.uidColumn_le (h : f.Fits e) :
    uidColumn f.slotWidth f.ipv6 ≤ (e.line f.slotWidth).length := by
  rw [ProcSock.line, List.length_append, h.length_columns]
  exact Nat.le_add_right _ _

/-- The user stands behind the beginning of the name of its column. -/
theorem uidColumn_le_header : uidColumn f.slotWidth f.ipv6 ≤ f.header.length := by
  obtain ⟨⟨before, start⟩, hplace, hcolumn⟩ := Option.map_eq_some_iff.1 f.retrnsmt
  obtain ⟨happ, hneedle, -⟩ := strstr_eq_some_iff.1 hplace
  have hlength := hneedle.length_le
  have hneedle : (ascii " retrnsmt ").length = 10 := by decide
  rw [← hcolumn, happ, List.length_append]
  dsimp only
  omega

theorem length_lines_ge (socks : List ProcSock) : socks.length ≤ (f.lines socks).length := by
  induction socks with
  | nil => exact Nat.le_refl 0
  | cons e socks ih =>
    rw [lines, List.map_cons, List.flatten_cons, ← lines, List.length_append, List.length_append,
      List.length_cons, List.length_singleton]
    omega

/-- **The connections that are added**: those of the selected lines, and what follows. -/
theorem parseTcptableFile_eq {socks : List ProcSock} (hsocks : ∀ e ∈ socks, f.Fits e)
    (hsize : (f.content socks).length ≤ fullbufSize) (order : ByteOrder)
    (userid protocol : UInt32) (behind : Bytes) :
    parseTcptableFile order userid protocol f.ipv6 (f.content socks) behind =
      some ((socks.filterMap fun e ↦
          if Selected userid e then some (e.conn order protocol) else none) ++
        (lineConn order userid protocol f.ipv6 (stateColumn f.slotWidth f.ipv6)
          (uidColumn f.slotWidth f.ipv6) behind).toList) := by
  have hheader : NoEnd f.header := ⟨f.noBreak, f.noNul⟩
  have hstring : cString (f.content socks ++ behind) =
      f.header ++ 10 :: cString (f.lines socks ++ behind) := by
    rw [content, List.append_assoc, List.cons_append, cString_line hheader]
  obtain ⟨beforeSt, _, hst, hstColumn⟩ := exists_column f.st (10 :: cString _)
  obtain ⟨beforeUid, _, huid, huidColumn⟩ := exists_column f.retrnsmt (10 :: cString _)
  rw [parseTcptableFile, List.take_of_length_le hsize, hstring, hst, huid, min_eq_left hsize]
  dsimp only
  rw [hstColumn, huidColumn]
  have hline : ∀ e ∈ socks, NoEnd (e.line f.slotWidth) ∧
      uidColumn f.slotWidth f.ipv6 ≤ (e.line f.slotWidth).length := fun e he ↦
    ⟨(hsocks e he).noEnd_line, (hsocks e he).uidColumn_le⟩
  have hconn : ∀ e ∈ socks, ∀ rest, lineConn order userid protocol f.ipv6
      (stateColumn f.slotWidth f.ipv6) (uidColumn f.slotWidth f.ipv6)
      (e.line f.slotWidth ++ 10 :: rest) =
        if Selected userid e then some (e.conn order protocol) else none := fun e he rest ↦
    (hsocks e he).lineConn_line order userid protocol rest
  have hlength : (f.content socks).length = f.header.length + 1 + (f.lines socks).length := by
    rw [content, List.length_append, List.length_cons]
    omega
  have hfuel : socks.length + 1 < (f.content socks ++ behind).length + 1 := by
    have hge := length_lines_ge (f := f) socks
    rw [List.length_append, hlength]
    omega
  have hlt : (uidColumn f.slotWidth f.ipv6 : Int) < (f.content socks).length := by
    have hle := uidColumn_le_header (f := f)
    omega
  rw [content, List.append_assoc, List.cons_append] at hfuel ⊢
  exact lineLoop_eq hline hconn hfuel behind hheader rfl hlt

/-- **The connections of the user are added, and no others, exactly if** no line that looks like one
of the user belongs to somebody else. -/
theorem parseTcptableFile_iff {socks : List ProcSock} (hsocks : ∀ e ∈ socks, f.Fits e)
    (hsize : (f.content socks).length ≤ fullbufSize) (order : ByteOrder)
    (userid protocol : UInt32) (behind : Bytes) :
    (∃ added, parseTcptableFile order userid protocol f.ipv6 (f.content socks) behind =
        some added ∧ OwnConns order userid protocol socks added) ↔
      (∀ e ∈ socks, e.state.toNat % 16 = 2 → e.inode ≠ 0 → ¬Continues userid e.uid) ∧
        ¬StrayLine f order userid protocol behind := by
  rw [parseTcptableFile_eq hsocks hsize]
  simp only [Option.some.injEq, exists_eq_left']
  have hmem : ∀ c, c ∈ (socks.filterMap fun e ↦
        if Selected userid e then some (e.conn order protocol) else none) ++
      (lineConn order userid protocol f.ipv6 (stateColumn f.slotWidth f.ipv6)
        (uidColumn f.slotWidth f.ipv6) behind).toList ↔
      (∃ e ∈ socks, Selected userid e ∧ e.conn order protocol = c) ∨
        lineConn order userid protocol f.ipv6 (stateColumn f.slotWidth f.ipv6)
          (uidColumn f.slotWidth f.ipv6) behind = some c := by
    intro c
    simp [List.mem_filterMap, Option.mem_toList]
  constructor
  · rintro ⟨hown, -⟩
    constructor
    · intro e he hstate hinode hcontinues
      have huid := hown _ ((hmem _).2 (Or.inl ⟨e, he, ⟨hstate, Or.inr hcontinues, hinode⟩, rfl⟩))
      exact hcontinues.2.1 (UInt32.toUInt64_inj.1 huid)
    · rintro ⟨hstate, huser, c, hscan, hinode, huid⟩
      exact huid (hown c ((hmem c).2 (Or.inr
        (lineConn_eq_some_iff.2 ⟨hstate, huser, hscan, hinode⟩))))
  · rintro ⟨hothers, hstray⟩
    refine ⟨fun c hc ↦ ?_, fun e he hstate huid hinode ↦ (hmem _).2 (Or.inl ⟨e, he, ?_, rfl⟩)⟩
    · rcases (hmem c).1 hc with ⟨e, he, ⟨hstate, huser, hinode⟩, rfl⟩ | hline
      · rcases huser with huser | huser
        · exact congrArg UInt32.toUInt64 huser
        · exact absurd huser (hothers e he hstate hinode)
      · obtain ⟨hstate, huser, hscan, hinode⟩ := lineConn_eq_some_iff.1 hline
        by_contra huid
        exact hstray ⟨hstate, huser, c, hscan, hinode, huid⟩
    · refine ⟨?_, Or.inl huid, hinode⟩
      rw [hstate]
      rfl

end ProcFormat

/-! ### Two files -/

/-- The end of all headers. -/
def headerTail : Bytes :=
  ascii " st tx_queue rx_queue" ++ ascii " tr tm->when retrnsmt" ++ ascii "   uid  timeout inode"

/-- The header of `/proc/net/tcp`, and of `/proc/net/udp`. -/
def tcpHeader : Bytes := ascii "  sl  local_address" ++ ascii " rem_address  " ++ headerTail

/-- The header of `/proc/net/tcp6`. -/
def tcp6Header : Bytes :=
  ascii "  sl  local_address" ++ List.replicate 25 32 ++ ascii "remote_address" ++
    List.replicate 23 32 ++ headerTail

theorem tcpHeader_columns : NoEnd tcpHeader ∧
    (strstr tcpHeader (ascii " st ")).map (fun place ↦ place.1.length + 2) =
      some (stateColumn 4 false) ∧
    (strstr tcpHeader (ascii " retrnsmt ")).map (fun place ↦ place.1.length + 10) =
      some (uidColumn 4 false) := by
  unfold NoEnd
  decide +kernel

theorem tcp6Header_columns : NoEnd tcp6Header ∧
    (strstr tcp6Header (ascii " st ")).map (fun place ↦ place.1.length + 2) =
      some (stateColumn 4 true) ∧
    (strstr tcp6Header (ascii " retrnsmt ")).map (fun place ↦ place.1.length + 10) =
      some (uidColumn 4 true) := by
  unfold NoEnd
  decide +kernel

/-- `/proc/net/tcp`. -/
def ProcFormat.tcp : ProcFormat where
  header := tcpHeader
  slotWidth := 4
  ipv6 := false
  slotWidth_pos := by decide
  noBreak := tcpHeader_columns.1.1
  noNul := tcpHeader_columns.1.2
  st := tcpHeader_columns.2.1
  retrnsmt := tcpHeader_columns.2.2

/-- `/proc/net/tcp6`. -/
def ProcFormat.tcp6 : ProcFormat where
  header := tcp6Header
  slotWidth := 4
  ipv6 := true
  slotWidth_pos := by decide
  noBreak := tcp6Header_columns.1.1
  noNul := tcp6Header_columns.1.2
  st := tcp6Header_columns.2.1
  retrnsmt := tcp6Header_columns.2.2

/-- What follows an inode. -/
def synOthers : Bytes := ascii "2 0000000000000000 100 0 0 10 -1"

/-- A connection to port 80 that waits for an answer. -/
def ProcSock.synSent (src dst : ProcAddr) (uid : UInt32) (inode : UInt64) : ProcSock where
  slot := 0
  src := src
  portSrc := 40000
  dst := dst
  portDst := 80
  state := tcpSynSent
  txQueue := 0
  rxQueue := 0
  timer := 1
  timerWhen := 100
  retransmit := 0
  uid := uid
  timeout := 0
  inode := inode
  others := synOthers

/-- A connection of user 1000 and one of user 10001. -/
def twoUsers : List ProcSock :=
  [.synSent (.v6 0 0 0 1) (.v6 0 0 0 2) 1000 4711, .synSent (.v6 0 0 0 1) (.v6 0 0 0 2) 10001 4712]

/-- A connection of user 100000. -/
def longUser : List ProcSock := [.synSent (.v4 0x0200a8c0) (.v4 0x0300a8c0) 100000 4711]

/-- User 1000 gets the first connection, when the rest of the buffer is empty. -/
theorem twoUsers_own : ∃ added,
    parseTcptableFile .little 1000 6 true (ProcFormat.tcp6.content twoUsers) [] = some added ∧
      OwnConns .little 1000 6 twoUsers added := by
  refine (ProcFormat.parseTcptableFile_iff (f := .tcp6) ?_ ?_ .little 1000 6 []).2 ⟨?_, ?_⟩
  · have hslot : 0 < 10 ^ ProcFormat.tcp6.slotWidth := by decide
    have hothers : NoEnd synOthers := ⟨by decide +kernel, by decide +kernel⟩
    have hfits : ∀ uid inode,
        ProcFormat.tcp6.Fits (.synSent (.v6 0 0 0 1) (.v6 0 0 0 2) uid inode) := fun uid inode ↦
      ⟨hslot, rfl, rfl, hothers.1, hothers.2⟩
    exact List.forall_mem_cons.2 ⟨hfits _ _, List.forall_mem_singleton.2 (hfits _ _)⟩
  · decide +kernel
  · rintro e - - - ⟨hlarge, -⟩
    exact absurd hlarge (by decide)
  · rintro ⟨hstate, -⟩
    exact absurd hstate (by decide)

/-- **User 10000 gets a connection of user 100000.** -/
theorem longUser_not_own : (∀ e ∈ longUser, ProcFormat.tcp.Fits e) ∧
    (ProcFormat.tcp.content longUser).length ≤ fullbufSize ∧
    ¬∃ added,
      parseTcptableFile .little 10000 6 false (ProcFormat.tcp.content longUser) [] = some added ∧
        OwnConns .little 10000 6 longUser added := by
  refine ⟨?_, by decide +kernel, ?_⟩
  · exact List.forall_mem_singleton.2
      ⟨by decide, rfl, rfl, by decide +kernel, by decide +kernel⟩
  · rintro ⟨added, hparse, hown, -⟩
    have huid : (parseTcptableFile .little 10000 6 false (ProcFormat.tcp.content longUser) []).map
        (·.map (·.uid)) = some [100000] := by decide +kernel
    rw [hparse] at huid
    have huids : added.map (·.uid) = [100000] := Option.some.inj huid
    obtain ⟨c, hc, hcuid⟩ : ∃ c ∈ added, c.uid = 100000 :=
      List.mem_map.1 (huids ▸ List.mem_singleton_self _)
    exact absurd ((hown c hc).symm.trans hcuid) (by decide)

end Nufw
