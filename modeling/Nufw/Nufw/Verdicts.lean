import Nufw.Lib.Transition
import Nufw.Nufw.Decisions
import Nufw.Nufw.PacketsList

/-!
# One verdict for each packet

A gateway takes packets from the kernel, answers from the authentication server, and drops what has
waited for too long, in any order and with any clock. Every packet that `treat_packet` has handled
either waits in `packets_list`, and has got no verdict, or does not wait any more, and has got one.

A function *settles* some of the packets that wait: `Settles before after settled` says that those
of `before` are those of `settled`, which get their verdict, and those of `after`, which stay where
they were. A packet that arrives waits before anything is done with it. Settling composes, so that
over a run the packets that have been handled are those that have their verdict and those that wait.
The list in memory is followed through `PacketsList.Holds`.

`padd` compares the number of nodes with `track_size` before it adds one: there are at most
`track_size` nodes, and none when `track_size` is negative (`-T` takes any number).
-/

namespace Nufw

/-- The packet a call is about. -/
def NfqCall.packetId : NfqCall → UInt32
  | .setVerdict packetId _ => packetId
  | .setVerdictMark packetId _ _ => packetId
  | .setVerdictMarkExptime packetId _ _ _ => packetId

theorem packetId_acceptCall (env : GatewayEnv) (packetId : UInt32) (dgram : Memory) :
    (acceptCall env packetId dgram).packetId = packetId := by
  rw [acceptCall]
  split
  · split
    · rfl
    · rfl
  · rfl

/-! ### Settling packets -/

/-- Of the packets that wait `before`, those that are `settled` go and the others stay. -/
structure Settles (before after settled : List UInt32) : Prop where
  sublist : after.Sublist before
  perm : before.Perm (settled ++ after)

namespace Settles

variable {before between after settled settled' : List UInt32}

theorem refl (before : List UInt32) : Settles before before [] := ⟨List.Sublist.refl _, .refl _⟩

theorem trans (h : Settles before between settled) (h' : Settles between after settled') :
    Settles before after (settled ++ settled') := by
  refine ⟨h'.sublist.trans h.sublist, h.perm.trans ?_⟩
  rw [List.append_assoc]
  exact h'.perm.append_left settled

/-- Packets arrive. -/
theorem append (h : Settles before after settled) (new : List UInt32) :
    Settles (before ++ new) (after ++ new) settled := by
  refine ⟨h.sublist.append (List.Sublist.refl _), ?_⟩
  rw [← List.append_assoc]
  exact h.perm.append_right new

/-- One packet is settled. -/
theorem middle (pre post : List UInt32) (id : UInt32) :
    Settles (pre ++ id :: post) (pre ++ post) [id] :=
  ⟨(List.sublist_cons_self _ _).append_left _, List.perm_middle⟩

theorem of_perm (h : Settles before after settled) (hperm : settled.Perm settled') :
    Settles before after settled' :=
  ⟨h.sublist, h.perm.trans (hperm.append_right after)⟩

/-- **Each packet is settled once**, when it does not wait any more. -/
theorem count_eq (h : Settles before after settled) (hnodup : before.Nodup) (id : UInt32) :
    settled.count id = if id ∈ before ∧ id ∉ after then 1 else 0 := by
  have hcount : before.count id = settled.count id + after.count id := by
    rw [h.perm.count_eq, List.count_append]
  rw [hnodup.count, (hnodup.sublist h.sublist).count] at hcount
  have hmem : id ∈ after → id ∈ before := fun hid ↦ h.sublist.subset hid
  grind

end Settles

/-! ### What the functions settle -/

/-- The packets of a list. -/
def ids (packetsList : List PacketIdl) : List UInt32 := packetsList.map PacketIdl.id

@[simp] theorem ids_append (l₁ l₂ : List PacketIdl) : ids (l₁ ++ l₂) = ids l₁ ++ ids l₂ :=
  List.map_append

@[simp] theorem ids_cons (e : PacketIdl) (l : List PacketIdl) : ids (e :: l) = e.id :: ids l := rfl

/-- The packet that a search has found. -/
def foundId (packetId : UInt32) (found : Option UInt32) : List UInt32 :=
  if found.isSome then [packetId] else []

@[simp] theorem foundId_none (packetId : UInt32) : foundId packetId none = [] := rfl

@[simp] theorem foundId_some (packetId mark : UInt32) : foundId packetId (some mark) = [packetId] :=
  rfl

/-- **The search** settles the old packets that it drops. Who calls it settles the one it finds. -/
theorem settles_psearchLoop (params : GatewayParams) (now : Int) (packetId : UInt32)
    (previous current : List PacketIdl) (calls : List NfqCall) :
    let r := psearchLoop params now packetId previous current calls
    ∃ dropped, r.2.2 = calls ++ dropped ∧
      Settles (ids (previous ++ current)) (ids r.2.1)
        (dropped.map NfqCall.packetId ++ foundId packetId r.1) := by
  induction previous, current, calls using psearchLoop.induct params now packetId with
  | case1 previous calls =>
    rw [psearchLoop]
    refine ⟨[], (List.append_nil _).symm, ?_⟩
    rw [List.append_nil]
    exact Settles.refl _
  | case2 previous calls e next hid =>
    rw [psearchLoop, if_pos hid]
    refine ⟨[], (List.append_nil _).symm, ?_⟩
    rw [ids_append, ids_cons, ids_append, hid]
    exact Settles.middle _ _ _
  | case3 previous calls e next hid hold ih =>
    rw [psearchLoop, if_neg hid, if_pos hold]
    obtain ⟨dropped, hcalls, hsettles⟩ := ih
    refine ⟨.setVerdict e.id .drop :: dropped, ?_, ?_⟩
    · rw [hcalls, List.append_assoc, List.singleton_append]
    · have hhead : Settles (ids (previous ++ e :: next)) (ids (previous ++ next)) [e.id] := by
        rw [ids_append, ids_cons, ids_append]
        exact Settles.middle _ _ _
      exact hhead.trans hsettles
  | case4 previous calls e next hid hold ih =>
    rw [psearchLoop, if_neg hid, if_neg hold]
    obtain ⟨dropped, hcalls, hsettles⟩ := ih
    refine ⟨dropped, hcalls, ?_⟩
    rw [List.append_assoc] at hsettles
    exact hsettles

theorem settles_psearchAndDestroy (params : GatewayParams) (now : Int) (packetId : UInt32)
    (packetsList : List PacketIdl) :
    let r := psearchAndDestroy params now packetId packetsList
    Settles (ids packetsList) (ids r.2.1)
      (r.2.2.map NfqCall.packetId ++ foundId packetId r.1) := by
  obtain ⟨dropped, hcalls, hsettles⟩ := settles_psearchLoop params now packetId [] packetsList []
  rw [List.nil_append] at hcalls hsettles
  dsimp only
  rw [psearchAndDestroy, hcalls]
  exact hsettles

/-- **Cleaning** settles the packets that it drops. -/
theorem settles_cleanOldPackets (params : GatewayParams) (now : Int)
    (packetsList : List PacketIdl) :
    Settles (ids packetsList) (ids (cleanOldPackets params now packetsList).1)
      ((cleanOldPackets params now packetsList).2.map NfqCall.packetId) := by
  induction packetsList with
  | nil => exact Settles.refl _
  | cons e next ih =>
    rw [cleanOldPackets]
    by_cases hold : params.packetTimeout < now - e.timestamp
    · rw [if_pos hold]
      exact (Settles.middle [] (ids next) e.id).trans ih
    · rw [if_neg hold]
      exact Settles.refl _

/-- **A packet is added**, or settled when the list is full. -/
theorem settles_padd (params : GatewayParams) (now : Int) (packetsList : List PacketIdl)
    (current : PacketIdl) :
    let r := padd params now packetsList current
    Settles (ids packetsList ++ [current.id]) (ids r.2.1) (r.2.2.map NfqCall.packetId) := by
  rw [padd]
  split
  · have h := Settles.middle (ids packetsList) [] current.id
    rw [List.append_nil] at h
    exact h
  · dsimp only
    rw [ids_append]
    exact Settles.refl _

theorem mem_ids_padd (params : GatewayParams) (now : Int) (packetsList : List PacketIdl)
    (current : PacketIdl) (h : (padd params now packetsList current).1 = true) :
    ∃ e ∈ (padd params now packetsList current).2.1, e.id = current.id := by
  rw [padd] at h ⊢
  split at h
  · exact absurd h Bool.false_ne_true
  · rename_i hfull
    rw [if_neg hfull]
    exact ⟨_, List.mem_append_right _ (List.mem_singleton_self _), rfl⟩

theorem length_padd_le (params : GatewayParams) (now : Int) (packetsList : List PacketIdl)
    (current : PacketIdl) :
    ((padd params now packetsList current).2.1.length : Int) ≤
      max (packetsList.length : Int) params.trackSize := by
  rw [padd]
  split
  · dsimp only
    omega
  · rw [List.length_append, List.length_singleton]
    omega

/-- **An answer** settles the old packets that are dropped, and its own packet if it waits. -/
theorem settles_authProcessAnswer (env : GatewayEnv) (now : Int) (packetsList : List PacketIdl)
    (dgram : Memory) (dgramSize : ℕ) :
    let r := authProcessAnswer env now ⟨packetsList, [], []⟩ dgram dgramSize
    Settles (ids packetsList) (ids r.2.packetsList) (r.2.calls.map NfqCall.packetId) := by
  dsimp only
  rw [authProcessAnswer]
  split
  · exact Settles.refl _
  · dsimp only
    split
    · exact Settles.refl _
    · have hsearch := settles_psearchAndDestroy env.params now (dgram.be32 4) packetsList
      generalize psearchAndDestroy env.params now (dgram.be32 4) packetsList = r at hsearch ⊢
      obtain ⟨found, packets, dropped⟩ := r
      cases found with
      | none =>
        simp only [foundId_none, List.append_nil] at hsearch
        exact hsearch
      | some mark =>
        simp only [foundId_some] at hsearch
        dsimp only
        split
        · rw [List.nil_append, List.map_append, List.map_singleton, packetId_acceptCall]
          exact hsearch
        · split
          · rw [List.nil_append, List.map_append]
            exact hsearch
          · rw [List.nil_append, List.map_append]
            exact hsearch

/-! ### Runs -/

/-- The list in memory, the calls to the kernel, the packets that the kernel has queued and those
that `treat_packet` has handled (it has returned `1`), in the order in which they came. -/
structure GatewayRun where
  packetsList : PacketsList
  calls : List NfqCall
  arrived : List UInt32
  handled : List UInt32

/-- What happens to a gateway. -/
inductive GatewayEvent where
  /-- The kernel queues a packet. `a` is the address that `calloc` returns. -/
  | treatPacket (clock : PacketsList.TreatClock) (writable : Bool) (a : ℕ) (nfa : NfqData)
  | authProcessAnswer (now : Int) (dgram : Memory) (dgramSize : ℕ)
  | cleanOldPackets (now : Int)

namespace GatewayRun

/-- What an event does, within `fuel` turns of its loops. -/
def exec (env : GatewayEnv) (fuel : ℕ) (s : GatewayRun) : GatewayEvent → Option GatewayRun
  | .treatPacket clock writable a nfa =>
    (s.packetsList.treatPacket env.host.order env.params clock writable a fuel nfa).map fun r ↦
      { packetsList := r.2.1
        calls := s.calls ++ r.2.2.2
        arrived := s.arrived ++ nfa.packetId.toList
        handled := if r.1 then s.handled ++ nfa.packetId.toList else s.handled }
  | .authProcessAnswer now dgram dgramSize =>
    (s.packetsList.authProcessAnswer env now fuel dgram dgramSize).map fun r ↦
      { s with packetsList := r.2.1, calls := s.calls ++ r.2.2.1 }
  | .cleanOldPackets now =>
    (s.packetsList.cleanOldPackets env.params now fuel).map fun r ↦
      { s with packetsList := r.1, calls := s.calls ++ r.2 }

/-- The kernel does not give an identifier twice, and `calloc` does not return what is in use. -/
def Admissible (s : GatewayRun) : GatewayEvent → Prop
  | .treatPacket _ _ a nfa => s.packetsList.heap a = none ∧ ∀ id ∈ nfa.packetId, id ∉ s.arrived
  | _ => True

end GatewayRun

/-- **A gateway**: it starts with an empty list, and an event happens when its loops end. -/
def gatewayMachine (env : GatewayEnv) : Machine GatewayRun (ℕ × GatewayEvent) where
  init s := s = ⟨.empty, [], [], []⟩
  enabled s e := s.Admissible e.2 ∧ (s.exec env e.1 e.2).isSome
  step s e := (s.exec env e.1 e.2).getD s

namespace GatewayRun

/-- **The packets that have been handled** have their verdict or wait, those that wait are those of
the list in memory, and they are not too many. -/
structure Sound (params : GatewayParams) (s : GatewayRun) (nodes : List (ℕ × PacketIdl)) :
    Prop where
  holds : s.packetsList.Holds nodes
  settles : Settles s.handled (ids (nodes.map Prod.snd)) (s.calls.map NfqCall.packetId)
  length : (nodes.length : Int) ≤ max params.trackSize 0
  handled : s.handled.Sublist s.arrived
  nodup : s.arrived.Nodup

variable {env : GatewayEnv} {s : GatewayRun} {nodes : List (ℕ × PacketIdl)}

theorem sound_init (params : GatewayParams) : Sound params ⟨.empty, [], [], []⟩ [] :=
  ⟨PacketsList.holds_empty, Settles.refl _, by rw [List.length_nil]; omega, List.Sublist.refl _,
    List.nodup_nil⟩

/-- Packets get their verdict. -/
theorem Sound.settle (h : s.Sound env.params nodes) {l : PacketsList}
    {nodes' : List (ℕ × PacketIdl)} {calls : List NfqCall} (hl : l.Holds nodes')
    (hsettles : Settles (ids (nodes.map Prod.snd)) (ids (nodes'.map Prod.snd))
      (calls.map NfqCall.packetId)) :
    Sound env.params { s with packetsList := l, calls := s.calls ++ calls } nodes' := by
  refine ⟨hl, ?_, ?_, h.handled, h.nodup⟩
  · rw [List.map_append]
    exact h.settles.trans hsettles
  · have hle := hsettles.sublist.length_le
    simp only [ids, List.length_map] at hle
    have := h.length
    omega

end GatewayRun

/-- **A packet that has to wait** is settled or waits. -/
theorem PacketsList.Holds.askAuthentication {l : PacketsList} {nodes : List (ℕ × PacketIdl)}
    (h : l.Holds nodes) (order : ByteOrder) (params : GatewayParams) (clock : TreatClock)
    (writable : Bool) {a : ℕ} (ha : l.heap a = none) (pckt : QueuedPckt) :
    ∃ n l' nodes' written calls,
      (∀ fuel, l.askAuthentication order params clock writable a fuel pckt =
        if n ≤ fuel then some (l', written, calls) else none) ∧
      l'.Holds nodes' ∧
      Settles (ids (nodes.map Prod.snd) ++ [pckt.packetId]) (ids (nodes'.map Prod.snd))
        (calls.map NfqCall.packetId) ∧
      (nodes'.length : Int) ≤ max (nodes.length : Int) params.trackSize := by
  obtain ⟨l', nodes', hpadd, hholds, hnodes⟩ :=
    h.padd params clock.added ha ⟨pckt.packetId, pckt.timestamp, pckt.mark⟩
  have hsettles := settles_padd params clock.added (nodes.map Prod.snd)
    ⟨pckt.packetId, pckt.timestamp, pckt.mark⟩
  have hlength := length_padd_le params clock.added (nodes.map Prod.snd)
    ⟨pckt.packetId, pckt.timestamp, pckt.mark⟩
  have hmem := mem_ids_padd params clock.added (nodes.map Prod.snd)
    ⟨pckt.packetId, pckt.timestamp, pckt.mark⟩
  generalize Nufw.padd params clock.added (nodes.map Prod.snd)
    ⟨pckt.packetId, pckt.timestamp, pckt.mark⟩ = r at *
  obtain ⟨added, packets, calls⟩ := r
  dsimp only at hpadd hnodes hsettles hlength hmem
  rw [← hnodes, List.length_map, List.length_map] at hlength
  rw [← hnodes] at hsettles hmem
  cases added with
  | false =>
    refine ⟨0, l', nodes', [], calls, fun fuel ↦ ?_, hholds, hsettles, hlength⟩
    rw [PacketsList.askAuthentication, hpadd, if_pos (Nat.zero_le fuel)]
  | true =>
    rcases hsend : authRequestSend order writable authRequest pckt with ⟨_ | _, written⟩
    · -- the request cannot be sent: the packet is dropped, and found in the list
      obtain ⟨n, l'', nodes'', hsearch, hholds', hnodes'⟩ :=
        hholds.psearchAndDestroy params clock.searched pckt.packetId
      have hfound := (isSome_psearchAndDestroy params clock.searched pckt.packetId
        (nodes'.map Prod.snd)).2 (hmem rfl)
      have hsettles' := settles_psearchAndDestroy params clock.searched pckt.packetId
        (nodes'.map Prod.snd)
      generalize Nufw.psearchAndDestroy params clock.searched pckt.packetId
        (nodes'.map Prod.snd) = found at *
      dsimp only at hsettles'
      rw [foundId, if_pos hfound, ← hnodes'] at hsettles'
      refine ⟨n, l'', nodes'', written,
        calls ++ [.setVerdict pckt.packetId .drop] ++ found.2.2, fun fuel ↦ ?_, hholds', ?_, ?_⟩
      · rw [PacketsList.askAuthentication, hpadd]
        dsimp only
        rw [hsend]
        dsimp only
        rw [hsearch fuel, apply_ite (Option.map _)]
        rfl
      · refine (hsettles.trans hsettles').of_perm ?_
        rw [List.map_append, List.map_append, List.append_assoc]
        exact List.perm_append_comm.append_left _
      · have hle := hsettles'.sublist.length_le
        simp only [ids, List.length_map] at hle
        omega
    · refine ⟨0, l', nodes', written, calls, fun fuel ↦ ?_, hholds, hsettles, hlength⟩
      rw [PacketsList.askAuthentication, hpadd]
      dsimp only
      rw [hsend, if_pos (Nat.zero_le fuel)]

/-- A packet that cannot be read is not handled. -/
theorem PacketsList.treatPacket_cases (nfa : NfqData) :
    (∃ payload ifaces packetId, nfa.payload = some payload ∧ nfa.ifaces = some ifaces ∧
      nfa.packetId = some packetId) ∨
    ∀ order params clock writable a fuel (l : PacketsList),
      l.treatPacket order params clock writable a fuel nfa = some (false, l, [], []) := by
  obtain ⟨payload, mark, ifaces, timestamp, packetId⟩ := nfa
  cases payload with
  | none => exact .inr fun _ _ _ _ _ _ _ ↦ rfl
  | some payload =>
    cases ifaces with
    | none => exact .inr fun _ _ _ _ _ _ _ ↦ rfl
    | some ifaces =>
      cases packetId with
      | none => exact .inr fun _ _ _ _ _ _ _ ↦ rfl
      | some packetId => exact .inl ⟨_, _, _, rfl, rfl, rfl⟩

/-- **A packet that is handled** is settled or waits. -/
theorem PacketsList.Holds.treatPacket {l : PacketsList} {nodes : List (ℕ × PacketIdl)}
    (h : l.Holds nodes) (order : ByteOrder) (params : GatewayParams) (clock : TreatClock)
    (writable : Bool) {a : ℕ} (ha : l.heap a = none) (nfa : NfqData) :
    ∃ n ret l' nodes' written calls,
      (∀ fuel, l.treatPacket order params clock writable a fuel nfa =
        if n ≤ fuel then some (ret, l', written, calls) else none) ∧
      l'.Holds nodes' ∧
      Settles (ids (nodes.map Prod.snd) ++ if ret then nfa.packetId.toList else [])
        (ids (nodes'.map Prod.snd)) (calls.map NfqCall.packetId) ∧
      (nodes'.length : Int) ≤ max (nodes.length : Int) params.trackSize := by
  obtain ⟨⟨payload, payloadLen⟩, ⟨indev, physindev, outdev, physoutdev⟩, packetId, hpayload,
    hifaces, hid⟩ | hunread := treatPacket_cases nfa
  · simp only [PacketsList.treatPacket, hpayload, hifaces, hid]
    generalize hpckt : (⟨packetId, indev, physindev, outdev, physoutdev, nfa.mark,
        nfa.timestamp.getD clock.queued, payload, payloadLen⟩ : QueuedPckt) = pckt
    by_cases hflags : lookForTcpFlags payload payloadLen = true
    · refine ⟨0, true, l, nodes, (authRequestSend order writable authControl pckt).2,
        [.setVerdict packetId .accept], fun fuel ↦ ?_, h, ?_, by omega⟩
      · rw [if_pos hflags, if_pos (Nat.zero_le fuel)]
      · have hsettles := Settles.middle (ids (nodes.map Prod.snd)) [] packetId
        rw [List.append_nil] at hsettles
        exact hsettles
    · obtain ⟨n, l', nodes', written, calls, hask, hrest⟩ :=
        h.askAuthentication order params clock writable ha pckt
      obtain rfl : pckt.packetId = packetId := by rw [← hpckt]
      refine ⟨n, true, l', nodes', written, calls, fun fuel ↦ ?_, hrest⟩
      rw [if_neg hflags, hask fuel, apply_ite (Option.map _)]
      rfl
  · refine ⟨0, false, l, nodes, [], [], fun fuel ↦ ?_, h, ?_, by omega⟩
    · rw [hunread, if_pos (Nat.zero_le fuel)]
    · rw [if_neg Bool.false_ne_true, List.append_nil]
      exact Settles.refl _

namespace GatewayRun

variable {env : GatewayEnv} {s : GatewayRun} {nodes : List (ℕ × PacketIdl)}

/-- A packet arrives, and may be handled. -/
theorem Sound.arrive (h : s.Sound env.params nodes) {l : PacketsList}
    {nodes' : List (ℕ × PacketIdl)} {calls : List NfqCall} {id : Option UInt32} {ret : Bool}
    (hid : ∀ i ∈ id, i ∉ s.arrived) (hl : l.Holds nodes')
    (hsettles : Settles (ids (nodes.map Prod.snd) ++ if ret then id.toList else [])
      (ids (nodes'.map Prod.snd)) (calls.map NfqCall.packetId))
    (hlength : (nodes'.length : Int) ≤ max (nodes.length : Int) env.params.trackSize) :
    Sound env.params ⟨l, s.calls ++ calls, s.arrived ++ id.toList,
      if ret then s.handled ++ id.toList else s.handled⟩ nodes' := by
  refine ⟨hl, ?_, ?_, ?_, ?_⟩
  · have hadded : Settles (if ret then s.handled ++ id.toList else s.handled)
        (ids (nodes.map Prod.snd) ++ if ret then id.toList else [])
        (s.calls.map NfqCall.packetId) := by
      cases ret with
      | false => simpa using h.settles
      | true => exact h.settles.append id.toList
    rw [List.map_append]
    exact hadded.trans hsettles
  · have := h.length
    omega
  · cases ret with
    | false => exact h.handled.trans (List.sublist_append_left _ _)
    | true => exact h.handled.append (List.Sublist.refl _)
  · rw [List.nodup_append]
    refine ⟨h.nodup, ?_, fun i hi j hj heq ↦ ?_⟩
    · cases id with
      | none => exact List.nodup_nil
      | some i => exact List.nodup_singleton i
    · exact hid j (Option.mem_toList.1 hj) (heq ▸ hi)

/-- **Every event ends**, and keeps the invariant. -/
theorem Sound.exec (h : s.Sound env.params nodes) {e : GatewayEvent} (he : s.Admissible e) :
    ∃ n s' nodes', (∀ fuel, s.exec env fuel e = if n ≤ fuel then some s' else none) ∧
      s'.Sound env.params nodes' := by
  cases e with
  | treatPacket clock writable a nfa =>
    obtain ⟨n, ret, l, nodes', written, calls, htreat, hl, hsettles, hlength⟩ :=
      h.holds.treatPacket env.host.order env.params clock writable he.1 nfa
    refine ⟨n, _, nodes', fun fuel ↦ ?_, h.arrive he.2 hl hsettles hlength⟩
    rw [GatewayRun.exec, htreat fuel, apply_ite (Option.map _)]
    rfl
  | authProcessAnswer now dgram dgramSize =>
    obtain ⟨n, l, nodes', hanswer, hl, hnodes⟩ :=
      h.holds.authProcessAnswer env now dgram dgramSize
    have hsettles := settles_authProcessAnswer env now (nodes.map Prod.snd) dgram dgramSize
    dsimp only at hsettles
    rw [← hnodes] at hsettles
    refine ⟨n, _, nodes', fun fuel ↦ ?_, h.settle hl hsettles⟩
    rw [GatewayRun.exec, hanswer fuel, apply_ite (Option.map _)]
    rfl
  | cleanOldPackets now =>
    obtain ⟨n, l, nodes', hclean, hl, hnodes⟩ := h.holds.cleanLoop env.params now []
    have hsettles := settles_cleanOldPackets env.params now (nodes.map Prod.snd)
    rw [← hnodes] at hsettles
    refine ⟨n, _, nodes', fun fuel ↦ ?_, h.settle hl hsettles⟩
    rw [GatewayRun.exec, PacketsList.cleanOldPackets, hclean fuel, List.nil_append,
      apply_ite (Option.map _)]
    rfl

/-- **The invariant holds** in every state of a run. -/
theorem sound_of_reach (h : (gatewayMachine env).Reachable s) :
    ∃ nodes, s.Sound env.params nodes := by
  refine h.invariant (I := fun s ↦ ∃ nodes, s.Sound env.params nodes) (fun s hs ↦ ⟨[], ?_⟩) ?_
  · obtain rfl := hs
    exact sound_init env.params
  · rintro s ⟨fuel, e⟩ ⟨nodes, hs⟩ ⟨he, hsome⟩ -
    obtain ⟨n, s', nodes', hexec, hs'⟩ := hs.exec he
    have hfuel : n ≤ fuel := by
      by_contra hlt
      rw [hexec fuel, if_neg hlt] at hsome
      exact absurd hsome Bool.false_ne_true
    refine ⟨nodes', ?_⟩
    show Sound _ ((s.exec env fuel e).getD s) _
    rw [hexec fuel, if_pos hfuel]
    exact hs'

end GatewayRun

/-- **Each packet that is handled gets one verdict, when it does not wait any more, and the list is
well formed.** In every state of every run the nodes of `packets_list` stand one after the other
from `start`, the last of them is `end`, there are `length` of them, which is at most `track_size`
(none when that is negative), and their packets are in the order in which they came. Every event
ends. -/
theorem one_verdict_for_each {env : GatewayEnv} {s : GatewayRun}
    (h : (gatewayMachine env).Reachable s) :
    (∃ nodes, s.packetsList.Holds nodes ∧
      s.packetsList.length ≤ max env.params.trackSize 0 ∧
      (s.packetsList.start = none ↔ s.packetsList.last = none) ∧
      (ids (nodes.map Prod.snd)).Sublist s.handled ∧ s.handled.Sublist s.arrived ∧
      ∀ id, (s.calls.map NfqCall.packetId).count id =
        if id ∈ s.handled ∧ id ∉ ids (nodes.map Prod.snd) then 1 else 0) ∧
    ∀ e, s.Admissible e → ∃ n, ∀ fuel, n ≤ fuel → (s.exec env fuel e).isSome := by
  obtain ⟨nodes, hs⟩ := GatewayRun.sound_of_reach h
  refine ⟨⟨nodes, hs.holds, ?_, ?_, hs.settles.sublist, hs.handled, fun id ↦ ?_⟩, fun e he ↦ ?_⟩
  · rw [hs.holds.length]
    exact hs.length
  · rw [hs.holds.start, hs.holds.last, NodeHeap.first_eq_none_iff, NodeHeap.last_eq_none_iff]
  · exact hs.settles.count_eq (hs.nodup.sublist hs.handled) id
  · obtain ⟨n, s', nodes', hexec, -⟩ := hs.exec he
    refine ⟨n, fun fuel hfuel ↦ ?_⟩
    rw [hexec fuel, if_pos hfuel]
    rfl

/-- A packet over UDP. -/
def NfqData.udp : NfqData :=
  ⟨some (.ofBytes [0x45, 0, 0, 0, 0, 0, 0, 0, 0, 17], 28), 0,
    some (.replicate 16 0, .replicate 16 0, .replicate 16 0, .replicate 16 0), some 100, some 7⟩

/-- The packet is queued, accepted by an answer, and the answer comes once more. -/
def answeredTwice : List (ℕ × GatewayEvent) :=
  let answer := Memory.ofBytes [5, 2, 1, 0, 0, 0, 0, 7]
  [(1, .treatPacket ⟨100, 100, 100⟩ true 0 .udp), (2, .authProcessAnswer 101 answer 20),
    (2, .authProcessAnswer 101 answer 20)]

theorem one_verdict_answeredTwice :
    let s := (gatewayMachine GatewayEnv.little).run ⟨.empty, [], [], []⟩ answeredTwice
    s.handled = [7] ∧ s.packetsList.start = none ∧
      (s.calls.map NfqCall.packetId).count 7 = 1 := by
  intro s
  have hreach : (gatewayMachine GatewayEnv.little).Reachable s :=
    Machine.reach_run _ rfl answeredTwice
      ⟨⟨⟨rfl, fun _ _ ↦ List.not_mem_nil⟩, by decide +kernel⟩, trivial,
        ⟨trivial, by decide +kernel⟩, trivial, ⟨trivial, by decide +kernel⟩, trivial, trivial⟩
  have hhandled : s.handled = [7] := by decide +kernel
  have hstart : s.packetsList.start = none := by decide +kernel
  obtain ⟨⟨nodes, hholds, -, -, -, -, hcount⟩, -⟩ := one_verdict_for_each hreach
  rw [hholds.start, NodeHeap.first_eq_none_iff] at hstart
  subst hstart
  refine ⟨hhandled, hholds.start, ?_⟩
  rw [hcount 7, hhandled]
  rfl

/-- **A negative `track_size`** is less than the number of nodes of any list. -/
theorem negative_trackSize_lt_length :
    let env := { GatewayEnv.little with
      params := { GatewayEnv.little.params with trackSize := -1 } }
    ∃ s, (gatewayMachine env).Reachable s ∧ ¬s.packetsList.length ≤ env.params.trackSize :=
  ⟨⟨.empty, [], [], []⟩, .init rfl, by decide⟩

end Nufw
