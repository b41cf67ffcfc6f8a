import Nufw.Lib.InternetChecksum
import Nufw.Nufw.Common
import Mathlib.Data.List.GetD

/-!
# The checksum of a rejection

`icmp_cksum` adds the words of a message in 32 bits and takes the carries around at the end, which
is exact for a buffer of this size. But the last byte of an odd number is read as a word, with the
byte behind it. The message of `send_icmp_ipv4_unreach` is as long as the packet it rejects says,
and behind it stands what was on the stack before (`icmp_checksum_iff`).
-/

namespace Nufw

/-- `sizeof (buffer)` in `send_icmp_ipv4_unreach`. -/
def icmpBufferSize : ℕ := 256

/-! ### The sum -/

/-- The words that the loop reads. -/
def loopWords (order : ByteOrder) (buf : Memory) (n : ℕ) : List ℕ :=
  (List.range n).map fun i ↦ (buf.host16 order (2 * i)).toNat

theorem toNat_host16 (order : ByteOrder) (buf : Memory) (o : ℕ) :
    (buf.host16 order o).toNat = order.word (buf o) (buf (o + 1)) := by
  have h₀ := (buf o).toNat_lt
  have h₁ := (buf (o + 1)).toNat_lt
  cases order with
  | big =>
    simp [Memory.host16, Memory.be16, ByteOrder.word]
    omega
  | little =>
    simp [Memory.host16, ByteOrder.word]
    omega

theorem loopWords_le (order : ByteOrder) (buf : Memory) (n : ℕ) :
    ∀ w ∈ loopWords order buf n, w ≤ 65535 := by
  intro w hw
  obtain ⟨i, -, rfl⟩ := List.mem_map.1 hw
  exact Nat.le_of_lt_succ (UInt16.toNat_lt _)

theorem sum_loopWords_succ (order : ByteOrder) (buf : Memory) (n : ℕ) :
    (loopWords order buf (n + 1)).sum =
      (loopWords order buf n).sum + order.word (buf (2 * n)) (buf (2 * n + 1)) := by
  rw [loopWords, List.range_succ, List.map_append, List.sum_append, ← loopWords]
  simp [toNat_host16]

theorem sum_loopWords_le (order : ByteOrder) (buf : Memory) (n : ℕ) :
    (loopWords order buf n).sum ≤ 65535 * n := by
  induction n with
  | zero => exact Nat.le_refl _
  | succ n ih =>
    have := order.word_le (buf (2 * n)) (buf (2 * n + 1))
    rw [sum_loopWords_succ]
    omega

/-- **The accumulator does not overflow.** -/
theorem toNat_sumWords (order : ByteOrder) (buf : Memory) {n : ℕ} (hn : n ≤ 65536) :
    (sumWords order buf n).toNat = (loopWords order buf n).sum := by
  induction n with
  | zero => rfl
  | succ n ih =>
    have hle := sum_loopWords_le order buf (n + 1)
    rw [sum_loopWords_succ] at hle ⊢
    rw [sumWords, UInt32.toNat_add, ih (by omega), UInt16.toNat_toUInt32, toNat_host16]
    exact Nat.mod_eq_of_lt (by omega)

/-- The last lines of `icmp_cksum`. -/
theorem toNat_foldCarries (sum : UInt32) :
    let sum₁ := (sum >>> 16) + (sum &&& 0xffff)
    let sum₂ := sum₁ + (sum₁ >>> 16)
    let folded := sum.toNat / 65536 + sum.toNat % 65536
    (~~~sum₂).toUInt16.toNat = 65535 - (folded + folded / 65536) % 65536 := by
  have hlt := sum.toNat_lt
  have hhigh : (sum >>> 16).toNat = sum.toNat / 65536 := by
    rw [UInt32.toNat_shiftRight, Nat.shiftRight_eq_div_pow]
    rfl
  have hlow : (sum &&& 0xffff).toNat = sum.toNat % 65536 :=
    (UInt32.toNat_and _ _).trans (Nat.and_two_pow_sub_one_eq_mod _ 16)
  have hfolded : ((sum >>> 16) + (sum &&& 0xffff)).toNat =
      sum.toNat / 65536 + sum.toNat % 65536 := by
    rw [UInt32.toNat_add, hhigh, hlow]
    omega
  dsimp only
  generalize (sum >>> 16) + (sum &&& 0xffff) = sum₁ at hfolded ⊢
  have hcarry : (sum₁ >>> 16).toNat = sum₁.toNat / 65536 := by
    rw [UInt32.toNat_shiftRight, Nat.shiftRight_eq_div_pow]
    rfl
  rw [UInt32.toNat_toUInt16, UInt32.toNat_not, UInt32.toNat_add, hcarry, ← hfolded]
  have hsize : UInt32.size = 4294967296 := rfl
  omega

/-- Both folds, as numbers. -/
theorem foldCarries_spec {sum : ℕ} (hsum : sum ≤ 65535 * 65536) :
    let folded := sum / 65536 + sum % 65536
    let s := (folded + folded / 65536) % 65536
    s ≤ 65535 ∧ s % 65535 = sum % 65535 ∧ (s = 0 ↔ sum = 0) := by
  dsimp only
  obtain ⟨folded, hfolded⟩ : ∃ folded, sum / 65536 + sum % 65536 = folded := ⟨_, rfl⟩
  have hle : folded ≤ 131070 := by omega
  have hmod : folded % 65535 = sum % 65535 := by omega
  have hzero : folded = 0 ↔ sum = 0 := by omega
  rw [hfolded, ← hmod, ← hzero]
  rcases Nat.lt_or_ge folded 65536 with hlt | hge
  · rw [Nat.div_eq_of_lt hlt, Nat.add_zero, Nat.mod_eq_of_lt hlt]
    exact ⟨by omega, rfl, Iff.rfl⟩
  · have hcarry : (folded + folded / 65536) % 65536 = folded - 65535 := by omega
    rw [hcarry]
    omega

/-- Folding the carries at the end is one's complement addition. -/
theorem toNat_icmpCksum (order : ByteOrder) (buf : Memory) {nbytes : ℕ} (hn : nbytes ≤ 131071) :
    (icmpCksum order buf nbytes).toNat =
      65535 - onesSum (loopWords order buf ((nbytes + 1) / 2)) := by
  have hsum := toNat_sumWords order buf (show (nbytes + 1) / 2 ≤ 65536 by omega)
  have hle := sum_loopWords_le order buf ((nbytes + 1) / 2)
  have honce : (let folded := (loopWords order buf ((nbytes + 1) / 2)).sum / 65536 +
        (loopWords order buf ((nbytes + 1) / 2)).sum % 65536
      (folded + folded / 65536) % 65536) = onesSum (loopWords order buf ((nbytes + 1) / 2)) := by
    refine (eq_onesSum_iff (loopWords_le order buf _)).2 (foldCarries_spec ?_)
    omega
  rw [icmpCksum, ← honce, ← hsum]
  exact toNat_foldCarries _

/-! ### The bytes -/

theorem toList_bytes_append (m : Memory) (n k : ℕ) :
    (m.bytes 0 (n + k)).toList = (m.bytes 0 n).toList ++ (m.bytes n k).toList := by
  refine List.ext_getElem (by simp) fun i hi hi' ↦ ?_
  rw [List.getElem_append]
  split
  · simp [Memory.bytes]
  · next h =>
    rw [Vector.length_toList] at h
    simp [Memory.bytes, show n + (i - n) = i by omega]

/-- An even number of bytes is read as its words. -/
theorem wordsOf_bytes_even (order : ByteOrder) (buf : Memory) (n : ℕ) :
    wordsOf order (buf.bytes 0 (2 * n)).toList = loopWords order buf n := by
  induction n with
  | zero => rfl
  | succ n ih =>
    rw [Nat.mul_succ, toList_bytes_append, wordsOf_append _ _ (by simp), ih, loopWords, loopWords,
      List.range_succ, List.map_append, List.map_singleton, toNat_host16]
    rfl

/-- An odd one, with a zero behind it. -/
theorem wordsOf_bytes_odd (order : ByteOrder) (buf : Memory) (n : ℕ) :
    wordsOf order (buf.bytes 0 (2 * n + 1)).toList =
      loopWords order buf n ++ [order.word (buf (2 * n)) 0] := by
  rw [toList_bytes_append, wordsOf_append _ _ (by simp), wordsOf_bytes_even]
  rfl

/-- **The words that are read** are those of the bytes, if the length is even or a zero follows;
otherwise their sum is another one, even modulo 65535. -/
theorem loopWords_eq_iff (order : ByteOrder) (buf : Memory) (nbytes : ℕ) :
    (nbytes % 2 = 0 ∨ buf nbytes = 0 →
      loopWords order buf ((nbytes + 1) / 2) = wordsOf order (buf.bytes 0 nbytes).toList) ∧
    ((wordsOf order (buf.bytes 0 nbytes).toList).sum % 65535 =
        (loopWords order buf ((nbytes + 1) / 2)).sum % 65535 →
      nbytes % 2 = 0 ∨ buf nbytes = 0) := by
  rcases Nat.even_or_odd' nbytes with ⟨n, rfl | rfl⟩
  · rw [show (2 * n + 1) / 2 = n by omega, wordsOf_bytes_even]
    exact ⟨fun _ ↦ rfl, fun _ ↦ Or.inl (by omega)⟩
  · have hloop : loopWords order buf (n + 1) =
        loopWords order buf n ++ [order.word (buf (2 * n)) (buf (2 * n + 1))] := by
      rw [loopWords, List.range_succ, List.map_append, List.map_singleton, toNat_host16]
      rfl
    rw [show (2 * n + 1 + 1) / 2 = n + 1 by omega, wordsOf_bytes_odd, hloop]
    constructor
    · rintro (heven | hzero)
      · omega
      · rw [hzero]
    · intro hmod
      refine Or.inr (UInt8.toNat_inj.1 ?_)
      have hb := (buf (2 * n + 1)).toNat_lt
      have hzero : (0 : UInt8).toNat = 0 := rfl
      rw [List.sum_append, List.sum_append, List.sum_singleton, List.sum_singleton] at hmod
      cases order with
      | big =>
        simp only [ByteOrder.word, hzero] at hmod
        omega
      | little =>
        simp only [ByteOrder.word, hzero] at hmod
        omega

/-- **The checksum is that of the bytes exactly if** their number is even or a zero follows. -/
theorem icmpCksum_eq_iff (order : ByteOrder) (buf : Memory) {nbytes : ℕ} (hn : nbytes ≤ 131071) :
    (icmpCksum order buf nbytes).toNat = internetChecksum order (buf.bytes 0 nbytes).toList ↔
      nbytes % 2 = 0 ∨ buf nbytes = 0 := by
  obtain ⟨hsame, hmod⟩ := loopWords_eq_iff order buf nbytes
  obtain ⟨hle, hloop, -⟩ := (eq_onesSum_iff (loopWords_le order buf ((nbytes + 1) / 2))).1 rfl
  obtain ⟨hle', hwords, -⟩ :=
    (eq_onesSum_iff (wordsOf_le order (buf.bytes 0 nbytes).toList)).1 rfl
  rw [toNat_icmpCksum order buf hn, internetChecksum]
  constructor
  · intro h
    refine hmod ?_
    omega
  · intro h
    rw [hsame h]

/-! ### The message -/

theorem word_hostBytes16 (order : ByteOrder) (x : UInt16) (rest : Bytes) :
    wordsOf order (hostBytes16 order x ++ rest) = x.toNat :: wordsOf order rest := by
  have hx := x.toNat_lt
  cases order with
  | little =>
    show ByteOrder.word _ _ _ :: _ = _
    rw [ByteOrder.word]
    congr 1
    simp
    omega
  | big =>
    show ByteOrder.word _ _ _ :: _ = _
    rw [ByteOrder.word]
    congr 1
    simp
    omega

/-- What is sent, with the checksum or with zeros in its place. -/
def unreachMessage (checksum quoted : Bytes) : Bytes := [3, 3] ++ checksum ++ [0, 0, 0, 0] ++ quoted

theorem sum_wordsOf_unreachMessage (order : ByteOrder) (x : UInt16) (quoted : Bytes) :
    (wordsOf order (unreachMessage (hostBytes16 order x) quoted)).sum =
      x.toNat + (wordsOf order (unreachMessage [0, 0] quoted)).sum := by
  have hzero : order.word 0 0 = 0 := by cases order <;> rfl
  have hchecksum : wordsOf order (unreachMessage (hostBytes16 order x) quoted) =
      order.word 3 3 :: x.toNat :: wordsOf order ([0, 0, 0, 0] ++ quoted) := by
    rw [← word_hostBytes16, unreachMessage, List.append_assoc, List.append_assoc]
    rfl
  have hzeros : wordsOf order (unreachMessage [0, 0] quoted) =
      order.word 3 3 :: order.word 0 0 :: wordsOf order ([0, 0, 0, 0] ++ quoted) := rfl
  rw [hchecksum, hzeros, List.sum_cons, List.sum_cons, List.sum_cons, List.sum_cons, hzero]
  omega

/-- **The message is sent with the checksum of the buffer.** -/
theorem sendIcmpIpv4Unreach_eq_sent {order : ByteOrder} {stack payload : Memory}
    {payloadLen : ℕ} {dest : Vector UInt8 4} {message : Bytes}
    (h : sendIcmpIpv4Unreach order stack payload payloadLen = .sent (.ipv4 dest message)) :
    20 ≤ payloadLen ∧ payloadLen ≤ 248 ∧ ∃ quoted : Bytes, quoted.length = payloadLen - 20 ∧
      message = unreachMessage (hostBytes16 order (icmpCksum order
        (stack.write 0 (unreachMessage [0, 0] quoted)) (payloadLen - 12))) quoted := by
  have hsize : icmphdrSize = 8 := rfl
  rw [sendIcmpIpv4Unreach] at h
  split_ifs at h with hlong hshort
  refine ⟨by omega, by omega, (payload.bytes 20 (payloadLen - 20)).toList,
    Vector.length_toList, ?_⟩
  obtain ⟨-, hmessage⟩ := IcmpPacket.ipv4.inj (IcmpOutcome.sent.inj h)
  rw [← hmessage, hsize, show 8 + payloadLen - 20 = payloadLen - 12 by omega]
  rfl

/-- **The message verifies exactly if** its length is even or a zero stands behind it. -/
theorem verifies_sent_iff {order : ByteOrder} {stack payload : Memory} {payloadLen : ℕ}
    {dest : Vector UInt8 4} {message : Bytes}
    (h : sendIcmpIpv4Unreach order stack payload payloadLen = .sent (.ipv4 dest message))
    (order' : ByteOrder) :
    SumVerifies order' message ↔ payloadLen % 2 = 0 ∨ stack (payloadLen - 12) = 0 := by
  obtain ⟨hge, hle, quoted, hlength, rfl⟩ := sendIcmpIpv4Unreach_eq_sent h
  have hbody : (unreachMessage [0, 0] quoted).length = payloadLen - 12 := by
    rw [unreachMessage, List.length_append, hlength]
    show 8 + (payloadLen - 20) = payloadLen - 12
    omega
  obtain ⟨buffer, hbuffer⟩ : ∃ buffer, stack.write 0 (unreachMessage [0, 0] quoted) = buffer :=
    ⟨_, rfl⟩
  have hholds : buffer.Holds 0 (unreachMessage [0, 0] quoted) := by
    rw [← hbuffer]
    exact @Memory.Holds.write_append stack [] _ Memory.holds_nil
  have hbytes : (buffer.bytes 0 (payloadLen - 12)).toList = unreachMessage [0, 0] quoted :=
    hholds.toList_bytes hbody
  have hbehind : buffer (payloadLen - 12) = stack (payloadLen - 12) := by
    rw [← hbuffer, Memory.write, if_pos (Nat.zero_le _), Nat.sub_zero, List.getD_eq_default
      _ _ hbody.le]
  have hpos : (wordsOf order (unreachMessage [0, 0] quoted)).sum ≠ 0 := by
    have hword : order.word 3 3 ≠ 0 := by cases order <;> decide
    have hzeros : wordsOf order (unreachMessage [0, 0] quoted) =
      order.word 3 3 :: order.word 0 0 :: wordsOf order ([0, 0, 0, 0] ++ quoted) := rfl
    rw [hzeros, List.sum_cons]
    omega
  obtain ⟨hsame, hmod⟩ := loopWords_eq_iff order buffer (payloadLen - 12)
  rw [verifies_order order' order, hbuffer, verifies_complement_iff
    (loopWords_le order buffer ((payloadLen - 12 + 1) / 2)) hpos
    (by rw [sum_wordsOf_unreachMessage, toNat_icmpCksum order buffer (by omega)]), ← hbehind,
    show payloadLen % 2 = (payloadLen - 12) % 2 by omega]
  rw [hbytes] at hsame hmod
  exact ⟨hmod, fun hzero ↦ by rw [hsame hzero]⟩

/-- **Reject checksums are correct exactly if** the number of bytes is even or a zero follows; the
accumulator never overflows. So a message verifies, in either byte order, just if the packet it
rejects has an even length, or a zero stood on the stack behind the message. -/
theorem icmp_checksum_iff (order : ByteOrder) :
    (∀ buf nbytes, nbytes ≤ icmpBufferSize →
      (∀ n ≤ (nbytes + 1) / 2,
        (sumWords order buf n).toNat = (loopWords order buf n).sum) ∧
      ((icmpCksum order buf nbytes).toNat = internetChecksum order (buf.bytes 0 nbytes).toList ↔
        nbytes % 2 = 0 ∨ buf nbytes = 0)) ∧
    ∀ stack payload payloadLen dest message,
      sendIcmpIpv4Unreach order stack payload payloadLen = .sent (.ipv4 dest message) →
        ∀ order', SumVerifies order' message ↔
          payloadLen % 2 = 0 ∨ stack (payloadLen - 12) = 0 := by
  have hsize : icmpBufferSize = 256 := rfl
  refine ⟨fun buf nbytes hn ↦ ⟨fun n hle ↦ toNat_sumWords order buf (by omega),
    icmpCksum_eq_iff order buf (by omega)⟩, ?_⟩
  intro stack payload payloadLen dest message hsent order'
  exact verifies_sent_iff hsent order'

/-- A rejected packet: a header of 20 bytes, and what is quoted. -/
def rejectedPacket (quoted : Bytes) : Memory :=
  Memory.ofBytes (List.replicate 12 0 ++ [192, 168, 0, 2, 192, 168, 0, 3] ++ quoted)

/-- Two bytes are quoted. -/
theorem icmp_checksum_even : ∃ message,
    sendIcmpIpv4Unreach .little (fun _ ↦ 255) (rejectedPacket [17, 34]) 22 =
      .sent (.ipv4 #v[192, 168, 0, 2] message) ∧ SumVerifies .big message ∧
    (icmpCksum .little (rejectedPacket [17, 34]) 22).toNat =
      internetChecksum .little ((rejectedPacket [17, 34]).bytes 0 22).toList := by
  refine ⟨[3, 3, 235, 218, 0, 0, 0, 0, 17, 34], by decide +kernel,
    ((icmp_checksum_iff .little).2 (fun _ ↦ 255) (rejectedPacket [17, 34]) 22 #v[192, 168, 0, 2] _
      (by decide +kernel) .big).2 (Or.inl rfl),
    (((icmp_checksum_iff .little).1 (rejectedPacket [17, 34]) 22 (by decide)).2).2 (Or.inl rfl)⟩

/-- **One byte is quoted**, and there is something on the stack behind it. -/
theorem icmp_checksum_odd : ∃ message,
    sendIcmpIpv4Unreach .little (fun _ ↦ 255) (rejectedPacket [17]) 21 =
      .sent (.ipv4 #v[192, 168, 0, 2] message) ∧ ¬SumVerifies .big message ∧
    (icmpCksum .little (Memory.ofBytes [17, 255]) 1).toNat ≠ internetChecksum .little [17] := by
  have hsent : sendIcmpIpv4Unreach .little (fun _ ↦ 255) (rejectedPacket [17]) 21 =
      .sent (.ipv4 #v[192, 168, 0, 2] [3, 3, 234, 253, 0, 0, 0, 0, 17]) := by decide +kernel
  refine ⟨_, hsent, fun h ↦ ?_, by decide⟩
  rcases (verifies_sent_iff hsent .big).1 h with h | h
  · cases h
  · cases h

end Nufw
