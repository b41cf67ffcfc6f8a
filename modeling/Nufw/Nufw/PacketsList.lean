import Nufw.Lib.LinkedList
import Nufw.Nufw.Packetsrv
import Nufw.Nufw.Authsrv

/-!
# The list of waiting packets in memory

`packets_list` as `nufw/common.c` keeps it: a singly linked list with a pointer to its end and a
number of nodes. `psuppress`, `padd`, `psearch_and_destroy` and `clean_old_packets` work on the
pointers; here they are, with the two functions that call them. A function fails (`none`) when it
reads through a pointer to a node that is not there, and the loops when they have not ended within
`fuel` turns.

`PacketsList.Holds` says that the pointers are those of a list of packets. The functions keep it, do
not fail, and do to the list of packets what the functions of `Common` do.
-/

namespace Nufw

open NodeHeap

/-! ### The functions on pointers -/

/-- `struct packets_list_t`, with the memory its nodes are in. -/
structure PacketsList where
  heap : NodeHeap PacketIdl
  start : Option ℕ
  /-- `end`. -/
  last : Option ℕ
  length : Int

namespace PacketsList

/-- An empty list, and nothing allocated. -/
def empty : PacketsList := ⟨fun _ ↦ none, none, none, 0⟩

/-- `psuppress`. -/
def psuppress (previous : Option ℕ) (current : ℕ) (l : PacketsList) : Option PacketsList :=
  match l.heap current with
  | none => none
  | some node =>
    (l.heap.setNextOf previous node.next).map fun heap ↦
      { heap := heap.free current
        start := if previous = none then node.next else l.start
        last := if node.next = none then previous else l.last
        length := l.length - 1 }

/-- `padd`, for a node at the address `a`. -/
def padd (params : GatewayParams) (now : Int) (a : ℕ) (current : PacketIdl) (l : PacketsList) :
    Option (Bool × PacketsList × List NfqCall) :=
  if params.trackSize ≤ l.length then
    -- the node is not freed
    some (false, { l with heap := l.heap.store a ⟨current, none⟩ }, [.setVerdict current.id .drop])
  else
    let timestamp := if current.timestamp = 0 then now else current.timestamp
    let heap := l.heap.store a ⟨{ current with timestamp := timestamp }, none⟩
    (heap.setNextOf l.last (some a)).map fun heap ↦
      (true,
        { heap := heap
          start := if l.start = none then some a else l.start
          last := some a
          length := l.length + 1 }, [])

/-- The loop of `psearch_and_destroy`. -/
def psearchLoop (params : GatewayParams) (now : Int) (packetId : UInt32) :
    ℕ → Option ℕ → Option ℕ → PacketsList → List NfqCall →
      Option (Option UInt32 × PacketsList × List NfqCall)
  | 0, _, _, _, _ => none
  | _ + 1, _, none, l, calls => some (none, l, calls)
  | fuel + 1, previous, some current, l, calls =>
    match l.heap current with
    | none => none
    | some node =>
      if node.data.id = packetId then
        (l.psuppress previous current).map fun l ↦ (some node.data.nfmark, l, calls)
      else if params.packetTimeout < now - node.data.timestamp then
        match l.psuppress previous current with
        | none => none
        | some l => psearchLoop params now packetId fuel none l.start l
            (calls ++ [.setVerdict node.data.id .drop])
      else psearchLoop params now packetId fuel (some current) node.next l calls

/-- `psearch_and_destroy`. -/
def psearchAndDestroy (params : GatewayParams) (now : Int) (packetId : UInt32) (fuel : ℕ)
    (l : PacketsList) : Option (Option UInt32 × PacketsList × List NfqCall) :=
  psearchLoop params now packetId fuel none l.start l []

/-- The loop of `clean_old_packets`. -/
def cleanLoop (params : GatewayParams) (now : Int) :
    ℕ → Option ℕ → PacketsList → List NfqCall → Option (PacketsList × List NfqCall)
  | 0, _, _, _ => none
  | _ + 1, none, l, calls => some (l, calls)
  | fuel + 1, some current, l, calls =>
    match l.heap current with
    | none => none
    | some node =>
      if params.packetTimeout < now - node.data.timestamp then
        match l.psuppress none current with
        | none => none
        | some l => cleanLoop params now fuel l.start l (calls ++ [.setVerdict node.data.id .drop])
      else some (l, calls)

/-- `clean_old_packets`. -/
def cleanOldPackets (params : GatewayParams) (now : Int) (fuel : ℕ) (l : PacketsList) :
    Option (PacketsList × List NfqCall) :=
  cleanLoop params now fuel l.start l []

/-- The readings of the clock in `treat_packet`: for a packet that has no timestamp, in `padd` and
in `psearch_and_destroy`. -/
structure TreatClock where
  queued : Int
  added : Int
  searched : Int

/-- The end of `treat_packet`, for a packet that has to wait. The node is at the address `a`. -/
def askAuthentication (order : ByteOrder) (params : GatewayParams) (clock : TreatClock)
    (writable : Bool) (a fuel : ℕ) (l : PacketsList) (pckt : QueuedPckt) :
    Option (PacketsList × List Bytes × List NfqCall) :=
  match l.padd params clock.added a ⟨pckt.packetId, pckt.timestamp, pckt.mark⟩ with
  | none => none
  | some (false, l, calls) => some (l, [], calls)
  | some (true, l, calls) =>
    match authRequestSend order writable authRequest pckt with
    | (true, written) => some (l, written, calls)
    | (false, written) =>
      (l.psearchAndDestroy params clock.searched pckt.packetId fuel).map fun r ↦
        (r.2.1, written, calls ++ [.setVerdict pckt.packetId .drop] ++ r.2.2)

/-- `treat_packet`, and whether it returns `1`. -/
def treatPacket (order : ByteOrder) (params : GatewayParams) (clock : TreatClock)
    (writable : Bool) (a fuel : ℕ) (l : PacketsList) (nfa : NfqData) :
    Option (Bool × PacketsList × List Bytes × List NfqCall) :=
  match nfa.payload, nfa.ifaces, nfa.packetId with
  | some (payload, payloadLen), some (indev, physindev, outdev, physoutdev), some packetId =>
    let pckt : QueuedPckt :=
      { packetId, indev, physindev, outdev, physoutdev, mark := nfa.mark,
        timestamp := nfa.timestamp.getD clock.queued, payload, payloadLen }
    if lookForTcpFlags payload payloadLen then
      some (true, l, (authRequestSend order writable authControl pckt).2,
        [.setVerdict packetId .accept])
    else (l.askAuthentication order params clock writable a fuel pckt).map (true, ·)
  | _, _, _ => some (false, l, [], [])

/-- `auth_process_answer`: the length of the message, none for `-1`, and what is done. -/
def authProcessAnswer (env : GatewayEnv) (now : Int) (fuel : ℕ) (l : PacketsList) (dgram : Memory)
    (dgramSize : ℕ) : Option (Option ℕ × PacketsList × List NfqCall × List IcmpOutcome) :=
  if dgramSize < nuv4DecisionResponseSize then some (none, l, [], [])
  else
    let payloadLen := (dgram.be16 16).toNat
    let msgLen := payloadLen + nuv5DecisionResponseSize
    if dgramSize < msgLen then some (none, l, [], [])
    else
      let packetId := dgram.be32 4
      match l.psearchAndDestroy env.params now packetId fuel with
      | none => none
      | some (none, l, dropped) => some (none, l, dropped, [])
      | some (some _, l, dropped) =>
        if dgram 2 = Decision.accept.toByte then
          some (some msgLen, l, dropped ++ [acceptCall env packetId dgram], [])
        else if dgram 2 = Decision.reject.toByte then
          some (some msgLen, l, dropped ++ [.setVerdict packetId .drop],
            [sendIcmpUnreach env.host.order env.params.rawSock6 env.host.stack
              (dgram.drop nuv5DecisionResponseSize) payloadLen])
        else some (some msgLen, l, dropped ++ [.setVerdict packetId .drop], [])

/-! ### What they do to the packets -/

/-- **The pointers are those of a list of packets**, each at its address. -/
structure Holds (l : PacketsList) (nodes : List (ℕ × PacketIdl)) : Prop where
  nodup : (nodes.map Prod.fst).Nodup
  linked : Linked l.heap nodes none
  start : l.start = first nodes none
  last : l.last = NodeHeap.last nodes
  length : l.length = nodes.length

theorem holds_empty : empty.Holds [] := ⟨List.nodup_nil, trivial, rfl, rfl, rfl⟩

section

variable {l : PacketsList} {nodes pre cur : List (ℕ × PacketIdl)} {a : ℕ} {e : PacketIdl}

/-- **One node is suppressed.** -/
theorem Holds.psuppress (h : l.Holds (pre ++ (a, e) :: cur)) :
    ∃ l', l.psuppress (NodeHeap.last pre) a = some l' ∧ l'.Holds (pre ++ cur) := by
  have hnode : l.heap a = some ⟨e, first cur none⟩ := (linked_append.1 h.linked).2.1
  obtain ⟨heap, hset, hlinked⟩ := h.linked.remove h.nodup
  have hsub : (pre ++ cur).Sublist (pre ++ (a, e) :: cur) :=
    (List.sublist_cons_self _ _).append_left _
  refine ⟨_, by rw [PacketsList.psuppress, hnode]; dsimp only; rw [hset]; rfl,
    h.nodup.sublist (hsub.map _), hlinked, ?_, ?_, ?_⟩
  · show (if NodeHeap.last pre = none then first cur none else l.start) = _
    rw [h.start, first_append, first_append]
    cases pre with
    | nil => rfl
    | cons n pre =>
      rw [if_neg (by rw [last_eq_none_iff]; exact List.cons_ne_nil _ _)]
      rfl
  · show (if first cur none = none then NodeHeap.last pre else l.last) = _
    rw [h.last]
    cases cur with
    | nil => rw [first, if_pos rfl, List.append_nil]
    | cons n cur =>
      rw [if_neg (by rw [first_eq_none_iff]; exact List.cons_ne_nil _ _), last_append_cons,
        last_append_cons]
      exact last_append_cons [(a, e)] n cur
  · show l.length - 1 = _
    rw [h.length]
    simp only [List.length_append, List.length_cons]
    omega

/-- **A node is added**, or the list is full. -/
theorem Holds.padd (h : l.Holds nodes) (params : GatewayParams) (now : Int) (ha : l.heap a = none)
    (current : PacketIdl) :
    ∃ l' nodes', l.padd params now a current = some ((Nufw.padd params now (nodes.map Prod.snd)
        current).1, l', (Nufw.padd params now (nodes.map Prod.snd) current).2.2) ∧
      l'.Holds nodes' ∧
      nodes'.map Prod.snd = (Nufw.padd params now (nodes.map Prod.snd) current).2.1 := by
  have hout := h.linked.notMem ha
  have hlength : ((nodes.map Prod.snd).length : Int) = l.length := by
    rw [h.length, List.length_map]
  rw [PacketsList.padd, Nufw.padd, hlength]
  by_cases hfull : params.trackSize ≤ l.length
  · rw [if_pos hfull, if_pos hfull]
    exact ⟨_, nodes, rfl, ⟨h.nodup, (linked_update hout).2 h.linked, h.start, h.last, h.length⟩,
      rfl⟩
  · rw [if_neg hfull, if_neg hfull]
    dsimp only
    generalize (if current.timestamp = 0 then now else current.timestamp) = timestamp
    obtain ⟨heap, hset, hlinked⟩ :=
      h.linked.concat h.nodup ha { current with timestamp := timestamp }
    refine ⟨⟨heap, if l.start = none then some a else l.start, some a, l.length + 1⟩,
      nodes ++ [(a, { current with timestamp := timestamp })], ?_, ⟨?_, hlinked, ?_, ?_, ?_⟩, ?_⟩
    · rw [h.last, hset]
      rfl
    · rw [List.map_append, List.nodup_append]
      refine ⟨h.nodup, List.nodup_singleton _, fun b hb c hc heq ↦ hout ?_⟩
      rw [heq, List.mem_singleton.1 hc] at hb
      exact hb
    · show (if l.start = none then some a else l.start) = _
      rw [h.start]
      cases nodes with
      | nil => rfl
      | cons n nodes => rfl
    · rw [last_concat]
    · show l.length + 1 = _
      rw [h.length, List.length_append, List.length_singleton, Int.natCast_add, Int.natCast_one]
    · rw [List.map_append]
      rfl

theorem Holds.heap (h : l.Holds (pre ++ (a, e) :: cur)) : l.heap a = some ⟨e, first cur none⟩ :=
  (linked_append.1 h.linked).2.1

/-- **The loop of the search** ends, and does to the packets what it does to a list. -/
theorem Holds.psearchLoop (params : GatewayParams) (now : Int) (packetId : UInt32)
    {previous current : List PacketIdl} (calls : List NfqCall) (h : l.Holds (pre ++ cur))
    (hpre : pre.map Prod.snd = previous) (hcur : cur.map Prod.snd = current) :
    let r := Nufw.psearchLoop params now packetId previous current calls
    ∃ n l' nodes', (∀ fuel, PacketsList.psearchLoop params now packetId fuel
        (NodeHeap.last pre) (first cur none) l calls =
          if n ≤ fuel then some (r.1, l', r.2.2) else none) ∧
      l'.Holds nodes' ∧ nodes'.map Prod.snd = r.2.1 := by
  induction previous, current, calls using Nufw.psearchLoop.induct params now packetId
    generalizing l pre cur with
  | case1 previous calls =>
    obtain rfl := List.map_eq_nil_iff.1 hcur
    rw [Nufw.psearchLoop]
    rw [List.append_nil] at h
    refine ⟨1, l, pre, fun fuel ↦ ?_, h, hpre⟩
    cases fuel with
    | zero => rfl
    | succ fuel =>
      rw [if_pos (Nat.le_add_left 1 fuel)]
      rfl
  | case2 previous calls e next hid =>
    obtain ⟨⟨a, e⟩, cur, rfl, rfl, rfl⟩ := List.map_eq_cons_iff.1 hcur
    rw [Nufw.psearchLoop, if_pos hid]
    obtain ⟨l', hsuppress, h'⟩ := h.psuppress
    refine ⟨1, l', pre ++ cur, fun fuel ↦ ?_, h', ?_⟩
    · cases fuel with
      | zero => rfl
      | succ fuel =>
        rw [first, PacketsList.psearchLoop, h.heap]
        dsimp only
        rw [if_pos hid, hsuppress, if_pos (Nat.le_add_left 1 fuel)]
        rfl
    · rw [List.map_append, hpre]
  | case3 previous calls e next hid hold ih =>
    obtain ⟨⟨a, e⟩, cur, rfl, rfl, rfl⟩ := List.map_eq_cons_iff.1 hcur
    rw [Nufw.psearchLoop, if_neg hid, if_pos hold]
    obtain ⟨l', hsuppress, h'⟩ := h.psuppress
    -- it starts again from the head
    obtain ⟨n, l'', nodes, hloop, hholds, hnodes⟩ :=
      ih (show l'.Holds ([] ++ (pre ++ cur)) from h') rfl (by rw [List.map_append, hpre])
    refine ⟨n + 1, l'', nodes, fun fuel ↦ ?_, hholds, hnodes⟩
    cases fuel with
    | zero => rfl
    | succ fuel =>
      rw [first, PacketsList.psearchLoop, h.heap]
      dsimp only
      rw [if_neg hid, if_pos hold, hsuppress]
      dsimp only
      rw [last_nil] at hloop
      rw [h'.start, hloop fuel]
      simp only [Nat.add_le_add_iff_right]
  | case4 previous calls e next hid hold ih =>
    obtain ⟨⟨a, e⟩, cur, rfl, rfl, rfl⟩ := List.map_eq_cons_iff.1 hcur
    rw [Nufw.psearchLoop, if_neg hid, if_neg hold]
    have h' : l.Holds (pre ++ [(a, e)] ++ cur) := by
      rw [List.append_assoc]
      exact h
    obtain ⟨n, l', nodes, hloop, hholds, hnodes⟩ := ih h' (by rw [List.map_append, hpre]; rfl) rfl
    refine ⟨n + 1, l', nodes, fun fuel ↦ ?_, hholds, hnodes⟩
    cases fuel with
    | zero => rfl
    | succ fuel =>
      rw [last_concat] at hloop
      rw [first, PacketsList.psearchLoop, h.heap]
      dsimp only
      rw [if_neg hid, if_neg hold, hloop fuel]
      simp only [Nat.add_le_add_iff_right]

/-- **A search** ends, and does to the packets what it does to a list. -/
theorem Holds.psearchAndDestroy (h : l.Holds nodes) (params : GatewayParams) (now : Int)
    (packetId : UInt32) :
    let r := Nufw.psearchAndDestroy params now packetId (nodes.map Prod.snd)
    ∃ n l' nodes', (∀ fuel, l.psearchAndDestroy params now packetId fuel =
        if n ≤ fuel then some (r.1, l', r.2.2) else none) ∧
      l'.Holds nodes' ∧ nodes'.map Prod.snd = r.2.1 := by
  obtain ⟨n, l', nodes', hloop, h'⟩ :=
    Holds.psearchLoop params now packetId [] (show l.Holds ([] ++ nodes) from h) rfl rfl
  refine ⟨n, l', nodes', fun fuel ↦ ?_, h'⟩
  rw [PacketsList.psearchAndDestroy, h.start]
  exact hloop fuel

/-- **Cleaning** ends, and does to the packets what it does to a list. -/
theorem Holds.cleanLoop (h : l.Holds nodes) (params : GatewayParams) (now : Int)
    (calls : List NfqCall) :
    let r := Nufw.cleanOldPackets params now (nodes.map Prod.snd)
    ∃ n l' nodes', (∀ fuel, PacketsList.cleanLoop params now fuel l.start l calls =
        if n ≤ fuel then some (l', calls ++ r.2) else none) ∧
      l'.Holds nodes' ∧ nodes'.map Prod.snd = r.1 := by
  induction nodes generalizing l calls with
  | nil =>
    refine ⟨1, l, [], fun fuel ↦ ?_, h, rfl⟩
    cases fuel with
    | zero => rfl
    | succ fuel =>
      rw [h.start, first, PacketsList.cleanLoop, if_pos (Nat.le_add_left 1 fuel), List.map_nil,
        Nufw.cleanOldPackets, List.append_nil]
  | cons node nodes ih =>
    obtain ⟨a, e⟩ := node
    have hheap : l.heap a = some ⟨e, first nodes none⟩ := h.linked.1
    rw [List.map_cons, Nufw.cleanOldPackets]
    by_cases hold : params.packetTimeout < now - e.timestamp
    · rw [if_pos hold]
      obtain ⟨l', hsuppress, h'⟩ := Holds.psuppress (show l.Holds ([] ++ (a, e) :: nodes) from h)
      obtain ⟨n, l'', nodes', hloop, hholds, hnodes⟩ := ih h' (calls ++ [.setVerdict e.id .drop])
      refine ⟨n + 1, l'', nodes', fun fuel ↦ ?_, hholds, hnodes⟩
      cases fuel with
      | zero => rfl
      | succ fuel =>
        rw [h.start, first, PacketsList.cleanLoop, hheap]
        dsimp only
        rw [last_nil] at hsuppress
        rw [if_pos hold, hsuppress]
        dsimp only
        rw [hloop fuel, List.append_assoc, List.singleton_append]
        simp only [Nat.add_le_add_iff_right]
    · rw [if_neg hold]
      refine ⟨1, l, (a, e) :: nodes, fun fuel ↦ ?_, h, rfl⟩
      cases fuel with
      | zero => rfl
      | succ fuel =>
        rw [h.start, first, PacketsList.cleanLoop, hheap]
        dsimp only
        rw [if_neg hold, if_pos (Nat.le_add_left 1 fuel), List.append_nil]

/-- **An answer** does to the packets what it does to a list. -/
theorem Holds.authProcessAnswer (h : l.Holds nodes) (env : GatewayEnv) (now : Int)
    (dgram : Memory) (dgramSize : ℕ) :
    let r := Nufw.authProcessAnswer env now ⟨nodes.map Prod.snd, [], []⟩ dgram dgramSize
    ∃ n l' nodes', (∀ fuel, l.authProcessAnswer env now fuel dgram dgramSize =
        if n ≤ fuel then some (r.1, l', r.2.calls, r.2.icmp) else none) ∧
      l'.Holds nodes' ∧ nodes'.map Prod.snd = r.2.packetsList := by
  dsimp only
  by_cases hsize : dgramSize < nuv4DecisionResponseSize
  · refine ⟨0, l, nodes, fun fuel ↦ ?_, h, ?_⟩
    · rw [PacketsList.authProcessAnswer, Nufw.authProcessAnswer, if_pos hsize, if_pos hsize,
        if_pos (Nat.zero_le fuel)]
    · rw [Nufw.authProcessAnswer, if_pos hsize]
  by_cases hlen : dgramSize < (dgram.be16 16).toNat + nuv5DecisionResponseSize
  · refine ⟨0, l, nodes, fun fuel ↦ ?_, h, ?_⟩
    · rw [PacketsList.authProcessAnswer, Nufw.authProcessAnswer, if_neg hsize, if_neg hsize,
        if_pos hlen, if_pos hlen, if_pos (Nat.zero_le fuel)]
    · rw [Nufw.authProcessAnswer, if_neg hsize, if_pos hlen]
  obtain ⟨n, l', nodes', hsearch, hholds, hnodes⟩ :=
    h.psearchAndDestroy env.params now (dgram.be32 4)
  refine ⟨n, l', nodes', fun fuel ↦ ?_, hholds, ?_⟩
  · rw [PacketsList.authProcessAnswer, Nufw.authProcessAnswer, if_neg hsize, if_neg hsize,
      if_neg hlen, if_neg hlen]
    dsimp only
    rw [hsearch fuel]
    obtain ⟨found, packetsList, dropped⟩ :=
      Nufw.psearchAndDestroy env.params now (dgram.be32 4) (nodes.map Prod.snd)
    by_cases hfuel : n ≤ fuel
    · rw [if_pos hfuel, if_pos hfuel]
      cases found with
      | none => rfl
      | some mark =>
        dsimp only
        split
        · rfl
        · split
          · rfl
          · rfl
    · rw [if_neg hfuel, if_neg hfuel]
  · rw [hnodes, Nufw.authProcessAnswer, if_neg hsize, if_neg hlen]
    dsimp only
    obtain ⟨found, packetsList, dropped⟩ :=
      Nufw.psearchAndDestroy env.params now (dgram.be32 4) (nodes.map Prod.snd)
    cases found with
    | none => rfl
    | some mark =>
      dsimp only
      split
      · rfl
      · split
        · rfl
        · rfl

end

end PacketsList

end Nufw
