import Mathlib.Data.List.Nodup
import Nufw.Lib.Buckets
import Nufw.Clients.Sending
import Nufw.Nuauth.AuthHash

/-!
# What a client announces

`tcptable.c` has the connections of the host in a table of buckets, and `compare` of `internal.c`
compares a new table with the old one: a connection is announced if it is new, if it has been
retransmitted more often, or if it is over UDP and has been known for so long that the firewall may
have forgotten it. The announcements are collected in an array of `CONN_MAX` pointers, which is sent
when it is full and at the end.

The three reasons are tested one after the other, so that a connection over UDP which has the last
two is announced twice; all others are announced once or not at all (`announces_iff`).
-/

namespace Nufw

/-- `conn_t`, as far as the tables are concerned. -/
structure ConnEntry extends ConnT where
  retransmit : UInt32
  createtime : Int

/-- What tells connections apart. -/
structure FiveTuple where
  protocol : UInt32
  ipSrc : In6Addr
  portSrc : UInt16
  ipDst : In6Addr
  portDst : UInt16
  deriving DecidableEq

/-- The 5-tuple of a connection. -/
def ConnT.tuple (c : ConnT) : FiveTuple :=
  ⟨c.protocol, c.ipSrc, c.portSrc, c.ipDst, c.portDst⟩

/-! ### The table -/

/-- `CONNTABLE_BUCKETS`. -/
def conntableBuckets : ℕ := 5003

/-- `conntable_t`. -/
abbrev ConnTable := Buckets ConnEntry

/-- `jhash_3words`. -/
def jhash3words (a b c initval : UInt32) : UInt32 :=
  (jhashMix (a + jhashGoldenRatio) (b + jhashGoldenRatio) (c + initval)).2.2

/-- `tcptable_hash`: of the last word of both addresses, and the ports. -/
def tcptableHash (order : ByteOrder) (c : ConnT) : ℕ :=
  (jhash3words ((Memory.ofBytes c.ipSrc.toList).host32 order 12)
    ((Memory.ofBytes c.ipDst.toList).host32 order 12)
    (c.portDst.toUInt32 ||| c.portSrc.toUInt32 <<< 16) 32).toNat % conntableBuckets

/-- `tcptable_add`, at some time. -/
def tcptableAdd (order : ByteOrder) (ct : ConnTable) (time : Int) (c : ConnEntry) : ConnTable :=
  ct.add (fun c ↦ tcptableHash order c.toConnT) { c with createtime := time }

/-- The test of `tcptable_find`. -/
def tcptableSame (c bucket : ConnT) : Bool :=
  c.protocol = bucket.protocol ∧ ipv6Equal c.ipDst bucket.ipDst ∧ c.portDst = bucket.portDst ∧
    ipv6Equal c.ipSrc bucket.ipSrc ∧ c.portSrc = bucket.portSrc

/-- `tcptable_find`. -/
def tcptableFind (order : ByteOrder) (ct : ConnTable) (c : ConnT) : Option ConnEntry :=
  (ct (tcptableHash order c)).find? fun bucket ↦ tcptableSame c bucket.toConnT

/-! ### The array -/

/-- The array of `compare`, and what has been sent. -/
structure Sender where
  /-- `auth`; at first nobody has written to it. -/
  auth : ℕ → Option ConnT
  count : ℕ
  /-- The connections of each message. -/
  sent : List (List ConnT)
  nbPackets : ℕ

/-- The loop of `send_user_pckt`: the connections from an item on, up to the first `NULL`. -/
def itemsFrom (auth : ℕ → Option ConnT) : ℕ → ℕ → List ConnT
  | 0, _ => []
  | n + 1, item =>
    match auth item with
    | none => []
    | some c => c :: itemsFrom auth n (item + 1)

namespace Sender

/-- `send_user_pckt`; `ok` tells whether a message can be sent. -/
def send (ok : ℕ → Bool) (s : Sender) : Option Sender :=
  if ok s.sent.length then some { s with sent := s.sent ++ [itemsFrom s.auth connMax 0] }
  else none

/-- `add_packet_to_send`. -/
def addPacketToSend (ok : ℕ → Bool) (bucket : ConnT) (s : Sender) : Option Sender :=
  let s' := { s with auth := Function.update s.auth s.count (some bucket) }
  if s.count < connMax - 1 then some { s' with count := s.count + 1 }
  else
    (s'.send ok).map fun s ↦
      { s with auth := fun i ↦ if i < connMax then none else s.auth i, count := 0 }

/-- A connection is announced, and counted. -/
def push (ok : ℕ → Bool) (bucket : ConnT) (s : Sender) : Option Sender :=
  (s.addPacketToSend ok bucket).map fun s ↦ { s with nbPackets := s.nbPackets + 1 }

/-- The last message of `compare`. -/
def flush (ok : ℕ → Bool) (s : Sender) : Option Sender :=
  if 0 < s.count then
    send ok
      { s with auth := if s.count < connMax then Function.update s.auth s.count none else s.auth }
  else some s

end Sender

/-! ### Comparing -/

/-- `UDP_TIMEOUT`. -/
def udpTimeout : Int := 30

section

variable (order : ByteOrder) (old : ConnTable) (now : ConnEntry → Int) (ok : ℕ → Bool)

/-- One connection of the new table, and what becomes of its creation time. The clock is read for
connections over UDP, and `now` is what it tells then. -/
def compareBucket (bucket : ConnEntry) (s : Sender) : Option (ConnEntry × Sender) :=
  match tcptableFind order old bucket.toConnT with
  | none => (s.push ok bucket.toConnT).map fun s ↦ (bucket, s)
  | some same =>
    (if bucket.retransmit > same.retransmit then s.push ok bucket.toConnT else some s).bind fun s ↦
      if bucket.protocol = 17 then
        if same.createtime < now bucket - udpTimeout then
          (s.push ok bucket.toConnT).map fun s ↦ (bucket, s)
        else some ({ bucket with createtime := same.createtime }, s)
      else some (bucket, s)

/-- The loop over a bucket. -/
def compareBuckets : List ConnEntry → Sender → Option (List ConnEntry × Sender)
  | [], s => some ([], s)
  | bucket :: buckets, s =>
    (compareBucket order old now ok bucket s).bind fun r ↦
      (compareBuckets buckets r.2).map fun r' ↦ (r.1 :: r'.1, r'.2)

/-- The loop over the buckets. -/
def compareTable : List ℕ → ConnTable → Sender → Option (ConnTable × Sender)
  | [], new, s => some (new, s)
  | i :: is, new, s =>
    (compareBuckets order old now ok (new i) s).bind fun r ↦
      compareTable is (Function.update new i r.1) r.2

/-- `compare`: the new table, the messages and the number of announcements; none is `-1`. -/
def compareConntables (new : ConnTable) (auth : ℕ → Option ConnT) : Option (ConnTable × Sender) :=
  (compareTable order old now ok (List.range conntableBuckets) new ⟨auth, 0, [], 0⟩).bind fun r ↦
    (r.2.flush ok).map fun s ↦ (r.1, s)

end

/-! ### Searching the table -/

theorem tcptableSame_iff {c bucket : ConnT} :
    tcptableSame c bucket = true ↔ bucket.tuple = c.tuple := by
  rw [tcptableSame, decide_eq_true_iff, ipv6Equal_iff, ipv6Equal_iff, ConnT.tuple, ConnT.tuple,
    FiveTuple.mk.injEq]
  constructor
  · rintro ⟨h₁, h₂, h₃, h₄, h₅⟩
    exact ⟨h₁.symm, h₄.symm, h₅.symm, h₂.symm, h₃.symm⟩
  · rintro ⟨h₁, h₂, h₃, h₄, h₅⟩
    exact ⟨h₁.symm, h₄.symm, h₅.symm, h₂.symm, h₃.symm⟩

/-- The hash is one of the 5-tuple. -/
theorem tcptableHash_eq_of_tuple (order : ByteOrder) {c d : ConnT} (h : c.tuple = d.tuple) :
    tcptableHash order c = tcptableHash order d := by
  obtain ⟨-, hsrc, hport, hdst, hport'⟩ := FiveTuple.mk.inj h
  rw [tcptableHash, tcptableHash, hsrc, hport, hdst, hport']

theorem tcptableHash_lt (order : ByteOrder) (c : ConnT) :
    tcptableHash order c < conntableBuckets := Nat.mod_lt _ (by decide)

/-- Connections as they are in a table, each with the time at which it was added. -/
def added (calls : List (Int × ConnEntry)) : List ConnEntry :=
  calls.map fun call ↦ { call.2 with createtime := call.1 }

/-- A table that is built by `tcptable_add`. -/
def builtTable (order : ByteOrder) (calls : List (Int × ConnEntry)) : ConnTable :=
  calls.foldl (fun ct call ↦ tcptableAdd order ct call.1 call.2) Buckets.empty

theorem builtTable_eq (order : ByteOrder) (calls : List (Int × ConnEntry)) :
    builtTable order calls =
      Buckets.ofList (fun c ↦ tcptableHash order c.toConnT) (added calls) := by
  rw [builtTable, Buckets.ofList, added, List.foldl_map]
  rfl

/-- **`tcptable_find` finds an entry if and only if one with the same 5-tuple was added.** -/
theorem isSome_tcptableFind (order : ByteOrder) (calls : List (Int × ConnEntry)) (c : ConnT) :
    (tcptableFind order (builtTable order calls) c).isSome = true ↔
      ∃ d ∈ added calls, d.tuple = c.tuple := by
  rw [tcptableFind, builtTable_eq, Buckets.isSome_find?_ofList fun d hd ↦
    tcptableHash_eq_of_tuple order (tcptableSame_iff.1 hd)]
  simp only [tcptableSame_iff]

theorem of_tcptableFind {order : ByteOrder} {calls : List (Int × ConnEntry)} {c : ConnT}
    {same : ConnEntry} (h : tcptableFind order (builtTable order calls) c = some same) :
    same ∈ added calls ∧ same.tuple = c.tuple := by
  rw [tcptableFind, builtTable_eq] at h
  obtain ⟨hmem, hsame⟩ := Buckets.of_find?_ofList h
  exact ⟨hmem, tcptableSame_iff.1 hsame⟩

/-! ### Collecting -/

/-- Every message can be sent. -/
def allSent : ℕ → Bool := fun _ ↦ true

theorem itemsFrom_eq {auth : ℕ → Option ConnT} {n item : ℕ} {l : List ConnT}
    (hauth : ∀ i, i < l.length → auth (item + i) = l[i]?)
    (hend : l.length = n ∨ l.length < n ∧ auth (item + l.length) = none) :
    itemsFrom auth n item = l := by
  induction l generalizing n item with
  | nil =>
    obtain rfl | ⟨hlt, hnone⟩ := hend
    · rfl
    · obtain ⟨n, rfl⟩ := Nat.exists_eq_succ_of_ne_zero (Nat.ne_zero_of_lt hlt)
      rw [List.length_nil, Nat.add_zero] at hnone
      rw [itemsFrom, hnone]
  | cons c l ih =>
    have hpos : n ≠ 0 := by
      rw [List.length_cons] at hend
      omega
    obtain ⟨n, rfl⟩ := Nat.exists_eq_succ_of_ne_zero hpos
    have hfirst : auth item = some c := hauth 0 (Nat.succ_pos _)
    have hrest : itemsFrom auth n (item + 1) = l := by
      refine ih (fun i hi ↦ ?_) ?_
      · rw [Nat.add_assoc, Nat.add_comm 1 i]
        exact hauth (i + 1) (Nat.succ_lt_succ hi)
      · rcases hend with hend | ⟨hlt, hnone⟩
        · exact Or.inl (Nat.succ.inj hend)
        · refine Or.inr ⟨Nat.lt_of_succ_lt_succ hlt, ?_⟩
          rw [Nat.add_assoc, Nat.add_comm 1]
          exact hnone
    rw [itemsFrom, hfirst]
    dsimp only
    rw [hrest]

namespace Sender

/-- The connections that wait in the array, and with those that have been sent make up `l`. -/
structure Waiting (s : Sender) (l pending : List ConnT) : Prop where
  count : s.count = pending.length
  lt : s.count < connMax
  auth : ∀ i, i < pending.length → s.auth i = pending[i]?
  all : s.sent.flatten ++ pending = l
  full : ∀ packet ∈ s.sent, packet.length = connMax
  nbPackets : s.nbPackets = l.length

/-- What has been announced so far. -/
def Announced (s : Sender) (l : List ConnT) : Prop := ∃ pending, s.Waiting l pending

theorem announced_start (auth : ℕ → Option ConnT) : Announced ⟨auth, 0, [], 0⟩ [] :=
  ⟨[], rfl, Nat.succ_pos 6, fun _ hi ↦ absurd hi (Nat.not_lt_zero _), rfl,
    fun _ h ↦ absurd h List.not_mem_nil, rfl⟩

theorem send_allSent (s : Sender) :
    s.send allSent = some { s with sent := s.sent ++ [itemsFrom s.auth connMax 0] } := if_pos rfl

/-- **One announcement.** -/
theorem Announced.push {s : Sender} {l : List ConnT} (h : s.Announced l) (bucket : ConnT) :
    ∃ s', s.push allSent bucket = some s' ∧ s'.Announced (l ++ [bucket]) := by
  obtain ⟨pending, h⟩ := h
  have hauth : ∀ i, i < (pending ++ [bucket]).length →
      Function.update s.auth s.count (some bucket) i = (pending ++ [bucket])[i]? := by
    intro i hi
    rw [h.count]
    rw [List.length_append, List.length_singleton] at hi
    by_cases hlast : i = pending.length
    · rw [hlast, Function.update_self]
      simp
    · rw [Function.update_of_ne hlast, List.getElem?_append_left (by omega)]
      exact h.auth i (by omega)
  have hall : s.sent.flatten ++ (pending ++ [bucket]) = l ++ [bucket] := by
    rw [← List.append_assoc, h.all]
  have hlength : (pending ++ [bucket]).length = s.count + 1 := by
    rw [List.length_append, List.length_singleton, h.count]
  have hnb : s.nbPackets + 1 = (l ++ [bucket]).length := by
    rw [List.length_append, List.length_singleton, h.nbPackets]
  rw [Sender.push, addPacketToSend]
  dsimp only
  by_cases hroom : s.count < connMax - 1
  · rw [if_pos hroom]
    refine ⟨_, rfl, pending ++ [bucket], hlength.symm, ?_, hauth, hall, h.full, hnb⟩
    dsimp only
    omega
  · have hfull : (pending ++ [bucket]).length = connMax := by
      have hlt := h.lt
      omega
    have hitems : itemsFrom (Function.update s.auth s.count (some bucket)) connMax 0 =
        pending ++ [bucket] :=
      itemsFrom_eq (fun i hi ↦ by rw [Nat.zero_add]; exact hauth i hi) (Or.inl hfull)
    rw [if_neg hroom, send_allSent, Option.map_some, hitems]
    refine ⟨_, rfl, [], rfl, Nat.succ_pos 6, fun _ hi ↦ absurd hi (Nat.not_lt_zero _), ?_, ?_, hnb⟩
    · dsimp only
      rw [List.append_nil, List.flatten_append, List.flatten_singleton]
      exact hall
    · intro packet hpacket
      rcases List.mem_append.1 hpacket with hpacket | hpacket
      · exact h.full packet hpacket
      · rw [List.mem_singleton.1 hpacket]
        exact hfull

/-- The last message. -/
theorem Announced.flush {s : Sender} {l : List ConnT} (h : s.Announced l) :
    ∃ s', s.flush allSent = some s' ∧ s'.sent.flatten = l ∧ s'.nbPackets = l.length ∧
      ∀ packet ∈ s'.sent, 0 < packet.length ∧ packet.length ≤ connMax := by
  obtain ⟨pending, h⟩ := h
  have hfull : ∀ packet ∈ s.sent, 0 < packet.length ∧ packet.length ≤ connMax := by
    intro packet hpacket
    rw [h.full packet hpacket]
    decide
  rw [Sender.flush]
  by_cases hpos : 0 < s.count
  · have hitems : itemsFrom (Function.update s.auth s.count none) connMax 0 = pending := by
      refine itemsFrom_eq (fun i hi ↦ ?_) (Or.inr ⟨h.count ▸ h.lt, ?_⟩)
      · rw [Nat.zero_add, Function.update_of_ne (by rw [h.count]; omega)]
        exact h.auth i hi
      · rw [Nat.zero_add, ← h.count, Function.update_self]
    rw [if_pos hpos, if_pos h.lt, send_allSent, hitems]
    refine ⟨_, rfl, ?_, h.nbPackets, ?_⟩
    · dsimp only
      rw [List.flatten_append, List.flatten_singleton]
      exact h.all
    · intro packet hpacket
      rcases List.mem_append.1 hpacket with hpacket | hpacket
      · exact hfull packet hpacket
      · rw [List.mem_singleton.1 hpacket, ← h.count]
        exact ⟨hpos, h.lt.le⟩
  · have hempty : pending = [] := List.length_eq_zero_iff.1 (by rw [← h.count]; omega)
    have hall := h.all
    rw [hempty, List.append_nil] at hall
    rw [if_neg hpos]
    exact ⟨s, rfl, hall, h.nbPackets, hfull⟩

end Sender

/-! ### Who is announced -/

/-- The connection has been retransmitted since. -/
def Retransmitted (same bucket : ConnEntry) : Prop := same.retransmit < bucket.retransmit

instance (same bucket : ConnEntry) : Decidable (Retransmitted same bucket) :=
  inferInstanceAs (Decidable (_ < _))

/-- The connection is over UDP, and was created too long ago. -/
def TimedOut (now : ConnEntry → Int) (same bucket : ConnEntry) : Prop :=
  bucket.protocol = 17 ∧ same.createtime < now bucket - udpTimeout

instance (now : ConnEntry → Int) (same bucket : ConnEntry) :
    Decidable (TimedOut now same bucket) := inferInstanceAs (Decidable (_ ∧ _))

/-- How often a connection is announced. -/
def timesSent (order : ByteOrder) (old : ConnTable) (now : ConnEntry → Int) (bucket : ConnEntry) :
    ℕ :=
  match tcptableFind order old bucket.toConnT with
  | none => 1
  | some same =>
    (if Retransmitted same bucket then 1 else 0) + if TimedOut now same bucket then 1 else 0

section

variable {order : ByteOrder} {old : ConnTable} {now : ConnEntry → Int} {s : Sender}
  {l : List ConnT}

theorem announced_compareBucket (h : s.Announced l) (bucket : ConnEntry) :
    ∃ r, compareBucket order old now allSent bucket s = some r ∧
      r.2.Announced (l ++ List.replicate (timesSent order old now bucket) bucket.toConnT) := by
  rw [compareBucket, timesSent]
  cases hfind : tcptableFind order old bucket.toConnT with
  | none =>
    obtain ⟨s', hpush, h'⟩ := h.push bucket.toConnT
    dsimp only
    rw [hpush]
    exact ⟨_, rfl, h'⟩
  | some same =>
    dsimp only
    have hfirst : ∃ s', (if bucket.retransmit > same.retransmit then
          s.push allSent bucket.toConnT else some s) = some s' ∧
        s'.Announced (l ++ List.replicate (if Retransmitted same bucket then 1 else 0)
          bucket.toConnT) := by
      by_cases hmore : Retransmitted same bucket
      · have hgt : bucket.retransmit > same.retransmit := hmore
        rw [if_pos hgt, if_pos hmore]
        exact h.push bucket.toConnT
      · have hgt : ¬bucket.retransmit > same.retransmit := hmore
        rw [if_neg hgt, if_neg hmore, List.replicate_zero, List.append_nil]
        exact ⟨s, rfl, h⟩
    obtain ⟨s', hstep, h'⟩ := hfirst
    rw [hstep, Option.bind_some, List.replicate_add, ← List.append_assoc]
    by_cases hudp : bucket.protocol = 17
    · rw [if_pos hudp]
      by_cases hlong : same.createtime < now bucket - udpTimeout
      · obtain ⟨s'', hpush, h''⟩ := h'.push bucket.toConnT
        rw [if_pos hlong, hpush, if_pos (show TimedOut now same bucket from ⟨hudp, hlong⟩)]
        exact ⟨_, rfl, h''⟩
      · rw [if_neg hlong, if_neg fun h : TimedOut now same bucket ↦ hlong h.2,
          List.replicate_zero, List.append_nil]
        exact ⟨_, rfl, h'⟩
    · rw [if_neg hudp, if_neg fun h : TimedOut now same bucket ↦ hudp h.1, List.replicate_zero,
        List.append_nil]
      exact ⟨_, rfl, h'⟩

/-- The announcements of some connections, one after the other. -/
def announcements (order : ByteOrder) (old : ConnTable) (now : ConnEntry → Int)
    (buckets : List ConnEntry) : List ConnT :=
  buckets.flatMap fun bucket ↦
    List.replicate (timesSent order old now bucket) bucket.toConnT

theorem announced_compareBuckets (h : s.Announced l) (buckets : List ConnEntry) :
    ∃ r, compareBuckets order old now allSent buckets s = some r ∧
      r.2.Announced (l ++ announcements order old now buckets) := by
  induction buckets generalizing s l with
  | nil =>
    refine ⟨_, rfl, ?_⟩
    rw [announcements, List.flatMap_nil, List.append_nil]
    exact h
  | cons bucket buckets ih =>
    obtain ⟨r, hstep, h'⟩ := @announced_compareBucket order old now s l h bucket
    obtain ⟨r', hrest, h''⟩ := ih h'
    rw [compareBuckets, hstep, Option.bind_some, hrest]
    refine ⟨_, rfl, ?_⟩
    rw [announcements, List.flatMap_cons, ← announcements, ← List.append_assoc]
    exact h''

theorem announced_compareTable (h : s.Announced l) {is : List ℕ} (his : is.Nodup)
    (new : ConnTable) :
    ∃ r, compareTable order old now allSent is new s = some r ∧
      r.2.Announced (l ++ announcements order old now (is.flatMap new)) := by
  induction is generalizing s l new with
  | nil =>
    refine ⟨_, rfl, ?_⟩
    rw [announcements, List.flatMap_nil, List.flatMap_nil, List.append_nil]
    exact h
  | cons i is ih =>
    obtain ⟨hi, his⟩ := List.nodup_cons.1 his
    obtain ⟨r, hstep, h'⟩ := @announced_compareBuckets order old now s l h (new i)
    obtain ⟨r', hrest, h''⟩ := ih h' his (Function.update new i r.1)
    have hsame : is.flatMap (Function.update new i r.1) = is.flatMap new :=
      List.flatMap_congr fun j hj ↦ Function.update_of_ne (fun hji : j = i ↦ hi (hji ▸ hj)) _ _
    rw [compareTable, hstep, Option.bind_some, hrest]
    refine ⟨_, rfl, ?_⟩
    rw [hsame] at h''
    rw [List.flatMap_cons, announcements, List.flatMap_append, ← announcements, ← announcements,
      ← List.append_assoc]
    exact h''

/-- **What is sent**: the announcements of all connections, in messages of at most `CONN_MAX`. -/
theorem compareConntables_eq (order : ByteOrder) (old new : ConnTable) (now : ConnEntry → Int)
    (auth : ℕ → Option ConnT) :
    ∃ r, compareConntables order old now allSent new auth = some r ∧
      r.2.sent.flatten = announcements order old now (new.entries conntableBuckets) ∧
      r.2.nbPackets = r.2.sent.flatten.length ∧
      ∀ packet ∈ r.2.sent, 0 < packet.length ∧ packet.length ≤ connMax := by
  obtain ⟨r, hloop, h⟩ := @announced_compareTable order old now _ _
    (Sender.announced_start auth) _ (List.nodup_range (n := conntableBuckets)) new
  obtain ⟨s', hflush, hsent, hnb, hpackets⟩ := h.flush
  rw [List.nil_append] at hsent hnb
  rw [compareConntables, hloop, Option.bind_some, hflush]
  exact ⟨_, rfl, hsent, hnb.trans (congrArg List.length hsent.symm), hpackets⟩

end

/-! ### Exactly once -/

/-- **The connection has to be announced**: it is not in the old table, or there it has been
retransmitted less often, or has timed out. -/
def Needs (old : List ConnEntry) (now : ConnEntry → Int) (bucket : ConnEntry) : Prop :=
  (∀ same ∈ old, same.tuple ≠ bucket.tuple) ∨
    ∃ same ∈ old, same.tuple = bucket.tuple ∧
      (Retransmitted same bucket ∨ TimedOut now same bucket)

/-- The last two reasons come together. -/
def NeedsTwice (old : List ConnEntry) (now : ConnEntry → Int) (bucket : ConnEntry) : Prop :=
  ∃ same ∈ old, same.tuple = bucket.tuple ∧ Retransmitted same bucket ∧ TimedOut now same bucket

/-- What a search finds is the only connection with the 5-tuple. -/
theorem eq_of_tcptableFind {order : ByteOrder} {calls : List (Int × ConnEntry)}
    (hcalls : ((added calls).map fun c ↦ c.tuple).Nodup) {c : ConnT} {same d : ConnEntry}
    (hfind : tcptableFind order (builtTable order calls) c = some same) (hd : d ∈ added calls)
    (htuple : d.tuple = c.tuple) : d = same := by
  obtain ⟨hsame, htuple'⟩ := of_tcptableFind hfind
  exact List.inj_on_of_nodup_map hcalls hd hsame (htuple.trans htuple'.symm)

section

variable {order : ByteOrder} {oldCalls : List (Int × ConnEntry)} {now : ConnEntry → Int}
  {bucket : ConnEntry}

/-- The three cases of a connection that is in the old table. -/
theorem timesSent_of_find {same : ConnEntry}
    (hfind : tcptableFind order (builtTable order oldCalls) bucket.toConnT = some same) :
    timesSent order (builtTable order oldCalls) now bucket =
      (if Retransmitted same bucket then 1 else 0) + if TimedOut now same bucket then 1 else 0 := by
  rw [timesSent, hfind]

/-- A connection of the old table has to be announced for one of the last two reasons. -/
theorem needs_iff_of_find (hold : ((added oldCalls).map fun c ↦ c.tuple).Nodup) {same : ConnEntry}
    (hfind : tcptableFind order (builtTable order oldCalls) bucket.toConnT = some same) :
    (Needs (added oldCalls) now bucket ↔ Retransmitted same bucket ∨ TimedOut now same bucket) ∧
      (NeedsTwice (added oldCalls) now bucket ↔
        Retransmitted same bucket ∧ TimedOut now same bucket) := by
  obtain ⟨hsame, htuple⟩ := of_tcptableFind hfind
  refine ⟨⟨?_, fun h ↦ Or.inr ⟨same, hsame, htuple, h⟩⟩, ?_, fun h ↦ ⟨same, hsame, htuple, h⟩⟩
  · rintro (habsent | ⟨d, hd, hdtuple, h⟩)
    · exact absurd htuple (habsent same hsame)
    · rwa [eq_of_tcptableFind hold hfind hd hdtuple] at h
  · rintro ⟨d, hd, hdtuple, h⟩
    rwa [eq_of_tcptableFind hold hfind hd hdtuple] at h

/-- A new connection has to be announced for the first one only. -/
theorem needs_of_not_find
    (hfind : tcptableFind order (builtTable order oldCalls) bucket.toConnT = none) :
    Needs (added oldCalls) now bucket ∧ ¬NeedsTwice (added oldCalls) now bucket := by
  have habsent : ¬∃ d ∈ added oldCalls, d.tuple = bucket.tuple := by
    rw [← isSome_tcptableFind order, hfind]
    exact Bool.false_ne_true
  refine ⟨Or.inl fun d hd hdtuple ↦ habsent ⟨d, hd, hdtuple⟩, ?_⟩
  rintro ⟨d, hd, hdtuple, -⟩
  exact habsent ⟨d, hd, hdtuple⟩

theorem timesSent_eq_one (hold : ((added oldCalls).map fun c ↦ c.tuple).Nodup)
    (hneeds : Needs (added oldCalls) now bucket) (hnot : ¬NeedsTwice (added oldCalls) now bucket) :
    timesSent order (builtTable order oldCalls) now bucket = 1 := by
  cases hfind : tcptableFind order (builtTable order oldCalls) bucket.toConnT with
  | none => rw [timesSent, hfind]
  | some same =>
    obtain ⟨hiff, htwice⟩ := @needs_iff_of_find order oldCalls now bucket hold same hfind
    rw [hiff] at hneeds
    rw [htwice] at hnot
    rw [timesSent_of_find hfind]
    by_cases hmore : Retransmitted same bucket
    · rw [if_pos hmore, if_neg fun h ↦ hnot ⟨hmore, h⟩]
    · rw [if_neg hmore, if_pos (hneeds.resolve_left hmore)]

theorem timesSent_eq_zero (hold : ((added oldCalls).map fun c ↦ c.tuple).Nodup)
    (hneeds : ¬Needs (added oldCalls) now bucket) :
    timesSent order (builtTable order oldCalls) now bucket = 0 := by
  cases hfind : tcptableFind order (builtTable order oldCalls) bucket.toConnT with
  | none => exact absurd (needs_of_not_find hfind).1 hneeds
  | some same =>
    rw [(needs_iff_of_find hold hfind).1, not_or] at hneeds
    rw [timesSent_of_find hfind, if_neg hneeds.1, if_neg hneeds.2]

theorem timesSent_eq_two (hold : ((added oldCalls).map fun c ↦ c.tuple).Nodup)
    (htwice : NeedsTwice (added oldCalls) now bucket) :
    timesSent order (builtTable order oldCalls) now bucket = 2 := by
  cases hfind : tcptableFind order (builtTable order oldCalls) bucket.toConnT with
  | none => exact absurd htwice (needs_of_not_find hfind).2
  | some same =>
    rw [(needs_iff_of_find hold hfind).2] at htwice
    rw [timesSent_of_find hfind, if_pos htwice.1, if_pos htwice.2]

end

/-- A key that occurs once, in a list in which every element is repeated. -/
theorem count_flatMap_replicate {α β : Type} [DecidableEq β] (n : α → ℕ) (key : α → β) {l : List α}
    (hl : (l.map key).Nodup) {a : α} (ha : a ∈ l) :
    (l.flatMap fun a ↦ List.replicate (n a) (key a)).count (key a) = n a := by
  induction l with
  | nil => cases ha
  | cons b l ih =>
    obtain ⟨hnot, hl⟩ := List.nodup_cons.1 hl
    rw [List.flatMap_cons, List.count_append]
    rcases List.mem_cons.1 ha with rfl | ha
    · have hrest : (l.flatMap fun a ↦ List.replicate (n a) (key a)).count (key a) = 0 := by
        refine List.count_eq_zero.2 fun hmem ↦ ?_
        obtain ⟨b, hb, hkey⟩ := List.mem_flatMap.1 hmem
        exact hnot ((List.eq_of_mem_replicate hkey) ▸ List.mem_map_of_mem hb)
      rw [hrest, List.count_replicate_self, Nat.add_zero]
    · have hne : key b ≠ key a := fun h ↦ hnot (h ▸ List.mem_map_of_mem ha)
      rw [ih hl ha, List.count_replicate, if_neg (by simpa using hne), Nat.zero_add]

/-- **The announcements of a check**: each connection of the new table that has to be announced is
sent once, and no other, in messages of at most `CONN_MAX`; and the old table is searched by
5-tuples. -/
def AnnouncesOnce (order : ByteOrder) (oldCalls newCalls : List (Int × ConnEntry))
    (now : ConnEntry → Int) (auth : ℕ → Option ConnT) : Prop :=
  ∃ r, compareConntables order (builtTable order oldCalls) now allSent (builtTable order newCalls)
      auth = some r ∧
    (∀ bucket ∈ added newCalls,
      (Needs (added oldCalls) now bucket →
        (r.2.sent.flatten.map ConnT.tuple).count bucket.tuple = 1) ∧
      (¬Needs (added oldCalls) now bucket →
        (r.2.sent.flatten.map ConnT.tuple).count bucket.tuple = 0)) ∧
    (∀ c ∈ r.2.sent.flatten, ∃ bucket ∈ added newCalls, bucket.toConnT = c) ∧
    (∀ packet ∈ r.2.sent, 0 < packet.length ∧ packet.length ≤ connMax) ∧
    ∀ c, (tcptableFind order (builtTable order oldCalls) c).isSome = true ↔
      ∃ d ∈ added oldCalls, d.tuple = c.tuple

/-- The 5-tuples of the announcements. -/
theorem map_tuple_announcements (order : ByteOrder) (old : ConnTable) (now : ConnEntry → Int)
    (buckets : List ConnEntry) :
    (announcements order old now buckets).map ConnT.tuple =
      buckets.flatMap fun bucket ↦
        List.replicate (timesSent order old now bucket) bucket.tuple := by
  rw [announcements, List.map_flatMap]
  exact List.flatMap_congr fun _ _ ↦ List.map_replicate

/-- A connection is announced as often as said, when no other one has its 5-tuple. -/
theorem count_announcements (order : ByteOrder) (old : ConnTable) (now : ConnEntry → Int)
    {buckets : List ConnEntry} (hnodup : (buckets.map fun c ↦ c.tuple).Nodup) {bucket : ConnEntry}
    (hbucket : bucket ∈ buckets) :
    ((announcements order old now buckets).map ConnT.tuple).count bucket.tuple =
      timesSent order old now bucket := by
  rw [map_tuple_announcements]
  exact count_flatMap_replicate _ (fun c : ConnEntry ↦ c.tuple) hnodup hbucket

theorem of_mem_announcements {order : ByteOrder} {old : ConnTable} {now : ConnEntry → Int}
    {buckets : List ConnEntry} {c : ConnT} (h : c ∈ announcements order old now buckets) :
    ∃ bucket ∈ buckets, bucket.toConnT = c := by
  obtain ⟨bucket, hbucket, hmem⟩ := List.mem_flatMap.1 h
  exact ⟨bucket, hbucket, (List.eq_of_mem_replicate hmem).symm⟩

/-- A table that is built by adding has what was added. -/
theorem perm_entries_builtTable (order : ByteOrder) (calls : List (Int × ConnEntry)) :
    ((builtTable order calls).entries conntableBuckets).Perm (added calls) := by
  have hlt : ∀ c : ConnEntry, tcptableHash order c.toConnT < conntableBuckets :=
    fun c ↦ tcptableHash_lt order c.toConnT
  rw [builtTable_eq]
  exact Buckets.perm_entries_ofList hlt (added calls)

/-- What a check sends, counted. -/
theorem exists_announcements (order : ByteOrder) (oldCalls : List (Int × ConnEntry))
    {newCalls : List (Int × ConnEntry)}
    (hnew : ((added newCalls).map fun c ↦ c.tuple).Nodup) (now : ConnEntry → Int)
    (auth : ℕ → Option ConnT) :
    ∃ r, compareConntables order (builtTable order oldCalls) now allSent
        (builtTable order newCalls) auth = some r ∧
      (∀ bucket ∈ added newCalls, (r.2.sent.flatten.map ConnT.tuple).count bucket.tuple =
        timesSent order (builtTable order oldCalls) now bucket) ∧
      (∀ c ∈ r.2.sent.flatten, ∃ bucket ∈ added newCalls, bucket.toConnT = c) ∧
      ∀ packet ∈ r.2.sent, 0 < packet.length ∧ packet.length ≤ connMax := by
  obtain ⟨r, hrun, hsent, -, hpackets⟩ := compareConntables_eq order (builtTable order oldCalls)
    (builtTable order newCalls) now auth
  have hperm := perm_entries_builtTable order newCalls
  have hnodup := (hperm.map fun c ↦ c.tuple).nodup_iff.2 hnew
  generalize (builtTable order newCalls).entries conntableBuckets = buckets at hsent hperm hnodup
  refine ⟨r, hrun, fun bucket hbucket ↦ ?_, fun c hc ↦ ?_, hpackets⟩
  · rw [hsent]
    exact count_announcements order _ now hnodup (hperm.mem_iff.2 hbucket)
  · rw [hsent] at hc
    obtain ⟨bucket, hbucket, hsame⟩ := of_mem_announcements hc
    exact ⟨bucket, hperm.mem_iff.1 hbucket, hsame⟩

/-- **A check announces each connection once exactly if none has both been retransmitted and timed
out.** -/
theorem announces_iff (order : ByteOrder) {oldCalls newCalls : List (Int × ConnEntry)}
    (hold : ((added oldCalls).map fun c ↦ c.tuple).Nodup)
    (hnew : ((added newCalls).map fun c ↦ c.tuple).Nodup) (now : ConnEntry → Int)
    (auth : ℕ → Option ConnT) :
    AnnouncesOnce order oldCalls newCalls now auth ↔
      ∀ bucket ∈ added newCalls, ¬NeedsTwice (added oldCalls) now bucket := by
  obtain ⟨r, hrun, hcount, hsent, hpackets⟩ :=
    exists_announcements order oldCalls hnew now auth
  constructor
  · rintro ⟨r', hrun', honce, -⟩ bucket hbucket htwice
    obtain rfl : r = r' := Option.some.inj (hrun.symm.trans hrun')
    have hneeds : Needs (added oldCalls) now bucket := by
      obtain ⟨same, hsame, htuple, hmore, -⟩ := htwice
      exact Or.inr ⟨same, hsame, htuple, Or.inl hmore⟩
    have hone := (honce bucket hbucket).1 hneeds
    rw [hcount bucket hbucket, timesSent_eq_two hold htwice] at hone
    cases hone
  · intro h
    refine ⟨r, hrun, fun bucket hbucket ↦ ⟨fun hneeds ↦ ?_, fun hneeds ↦ ?_⟩, hsent, hpackets,
      isSome_tcptableFind order oldCalls⟩
    · rw [hcount bucket hbucket]
      exact timesSent_eq_one hold hneeds (h bucket hbucket)
    · rw [hcount bucket hbucket]
      exact timesSent_eq_zero hold hneeds

/-- A name query, sent for some time. -/
def nameQuery (retransmit : UInt32) : ConnEntry where
  protocol := 17
  ipSrc := clientAddr
  portSrc := 5353
  ipDst := serverAddr
  portDst := 53
  inode := 7
  retransmit := retransmit
  createtime := 0

/-- A single connection has its 5-tuple for itself. -/
theorem nodup_added_singleton (call : Int × ConnEntry) :
    ((added [call]).map fun c ↦ c.tuple).Nodup := List.nodup_singleton _

/-- After ten seconds it is announced because it has been sent again. -/
theorem nameQuery_announced_once :
    AnnouncesOnce .little [(0, nameQuery 1)] [(10, nameQuery 2)] (fun _ ↦ 10) fun _ ↦ none := by
  refine (announces_iff .little (nodup_added_singleton _) (nodup_added_singleton _) _
    _).2 fun bucket _ ↦ ?_
  rintro ⟨same, hsame, -, -, -, hlong⟩
  obtain rfl : same = { nameQuery 1 with createtime := 0 } := List.mem_singleton.1 hsame
  have hshort : ¬(0 : Int) < 10 - udpTimeout := by decide
  exact hshort hlong

/-- After a minute it is announced twice in one message. -/
theorem nameQuery_announced_twice :
    ((added [(0, nameQuery 1)]).map fun c ↦ c.tuple).Nodup ∧
      ((added [(60, nameQuery 2)]).map fun c ↦ c.tuple).Nodup ∧
      ¬AnnouncesOnce .little [(0, nameQuery 1)] [(60, nameQuery 2)] (fun _ ↦ 60) fun _ ↦ none := by
  have hold := nodup_added_singleton (0, nameQuery 1)
  have hnew := nodup_added_singleton (60, nameQuery 2)
  refine ⟨hold, hnew, ?_⟩
  rintro ⟨r, hrun, honce, -⟩
  obtain ⟨r', hrun', hcount, -⟩ := exists_announcements .little [(0, nameQuery 1)] hnew
    (fun _ ↦ 60) fun _ ↦ none
  obtain rfl : r = r' := Option.some.inj (hrun.symm.trans hrun')
  have htwice : NeedsTwice (added [(0, nameQuery 1)]) (fun _ ↦ 60)
      { nameQuery 2 with createtime := 60 } :=
    ⟨{ nameQuery 1 with createtime := 0 }, List.mem_cons_self, rfl, by decide, rfl, by decide⟩
  have hneeds : Needs (added [(0, nameQuery 1)]) (fun _ ↦ 60)
      { nameQuery 2 with createtime := 60 } :=
    Or.inr ⟨{ nameQuery 1 with createtime := 0 }, List.mem_cons_self, rfl, Or.inl (by decide)⟩
  have hone := (honce _ List.mem_cons_self).1 hneeds
  rw [hcount _ List.mem_cons_self, timesSent_eq_two hold htwice] at hone
  cases hone

end Nufw
