import Nufw.Lib.History
import Nufw.Nufw.Verdicts

/-!
# What a gateway lets through

Of the three things that happen to a gateway, two can let a packet through: a packet of an
established connection is accepted when it arrives, and a packet that waits is accepted by an
answer. Dropping old packets, refusing packets when the list is full, and whatever else the
functions do on their way never accepts.
-/

namespace Nufw

/-- The packet goes through. -/
def NfqCall.Accepts : NfqCall → Prop
  | .setVerdict _ verdict => verdict = .accept
  | .setVerdictMark _ verdict _ => verdict = .accept
  | .setVerdictMarkExptime _ verdict _ _ => verdict = .accept

instance : DecidablePred NfqCall.Accepts := fun call ↦ by
  cases call <;> exact inferInstanceAs (Decidable (_ = _))

/-- A packet of a connection that is not being opened: `look_for_tcp_flags`. -/
def NfqData.Control (nfa : NfqData) : Prop :=
  ∃ payload payloadLen, nfa.payload = some (payload, payloadLen) ∧
    lookForTcpFlags payload payloadLen = true

/-- The event lets the packet of the call through. -/
def GatewayEvent.LetsThrough : GatewayEvent → NfqCall → Prop
  | .treatPacket _ _ _ nfa, call => nfa.packetId = some call.packetId ∧ nfa.Control
  | .authProcessAnswer _ dgram dgramSize, call => nuv4DecisionResponseSize ≤ dgramSize ∧
    dgram.be32 4 = call.packetId ∧ dgram 2 = Decision.accept.toByte
  | .cleanOldPackets _, _ => False

/-! ### The functions on the list -/

namespace PacketsList

variable {params : GatewayParams} {now : Int} {packetId : UInt32} {fuel : ℕ}
  {l l' : PacketsList} {calls calls' : List NfqCall} {call : NfqCall}

theorem not_accepts_padd {a : ℕ} {current : PacketIdl} {added : Bool}
    (h : l.padd params now a current = some (added, l', calls)) :
    ∀ call ∈ calls, ¬call.Accepts := by
  rw [padd] at h
  split at h
  · obtain ⟨-, -, rfl⟩ := h
    intro call hcall haccepts
    rw [List.mem_singleton.1 hcall] at haccepts
    cases haccepts
  · obtain ⟨heap, -, heq⟩ := Option.map_eq_some_iff.1 h
    obtain ⟨-, -, rfl⟩ := heq
    exact fun call hcall ↦ absurd hcall List.not_mem_nil

/-- Nothing is accepted in a search. -/
theorem not_accepts_psearchLoop {previous current found}
    (h : psearchLoop params now packetId fuel previous current l calls = some (found, l', calls'))
    (hcall : call ∈ calls') (haccepts : call.Accepts) : call ∈ calls := by
  induction fuel generalizing previous current l calls with
  | zero => cases h
  | succ fuel ih =>
    cases current with
    | none =>
      obtain ⟨-, -, rfl⟩ := h
      exact hcall
    | some current =>
      rw [psearchLoop] at h
      cases hnode : l.heap current with
      | none =>
        rw [hnode] at h
        cases h
      | some node =>
        rw [hnode] at h
        dsimp only at h
        split_ifs at h with hid hold
        · obtain ⟨l₁, -, heq⟩ := Option.map_eq_some_iff.1 h
          obtain ⟨-, -, rfl⟩ := heq
          exact hcall
        · cases hsuppress : l.psuppress previous current with
          | none =>
            rw [hsuppress] at h
            cases h
          | some l₁ =>
            rw [hsuppress] at h
            refine (List.mem_append.1 (ih h)).resolve_right fun hdrop ↦ ?_
            rw [List.mem_singleton.1 hdrop] at haccepts
            cases haccepts
        · exact ih h

theorem not_accepts_cleanLoop {current : Option ℕ}
    (h : cleanLoop params now fuel current l calls = some (l', calls'))
    (hcall : call ∈ calls') (haccepts : call.Accepts) : call ∈ calls := by
  induction fuel generalizing current l calls with
  | zero => cases h
  | succ fuel ih =>
    cases current with
    | none =>
      obtain ⟨-, rfl⟩ := h
      exact hcall
    | some current =>
      rw [cleanLoop] at h
      cases hnode : l.heap current with
      | none =>
        rw [hnode] at h
        cases h
      | some node =>
        rw [hnode] at h
        dsimp only at h
        split_ifs at h with hold
        · cases hsuppress : l.psuppress none current with
          | none =>
            rw [hsuppress] at h
            cases h
          | some l₁ =>
            rw [hsuppress] at h
            refine (List.mem_append.1 (ih h)).resolve_right fun hdrop ↦ ?_
            rw [List.mem_singleton.1 hdrop] at haccepts
            cases haccepts
        · obtain ⟨-, rfl⟩ := h
          exact hcall

/-- Nothing is accepted while a packet is put on the list, or taken off it again. -/
theorem not_accepts_askAuthentication {order : ByteOrder} {clock : TreatClock} {writable : Bool}
    {a : ℕ} {pckt : QueuedPckt} {written : List Bytes}
    (h : l.askAuthentication order params clock writable a fuel pckt = some (l', written, calls)) :
    ∀ call ∈ calls, ¬call.Accepts := by
  rw [askAuthentication] at h
  split at h
  · cases h
  · next hpadd =>
    obtain ⟨-, -, rfl⟩ := h
    exact not_accepts_padd hpadd
  · next hpadd =>
    split at h
    · obtain ⟨-, -, rfl⟩ := h
      exact not_accepts_padd hpadd
    · obtain ⟨r, hsearch, heq⟩ := Option.map_eq_some_iff.1 h
      obtain ⟨-, -, rfl⟩ := heq
      intro call hcall haccepts
      rcases List.mem_append.1 hcall with hcall | hcall
      · rcases List.mem_append.1 hcall with hcall | hcall
        · exact not_accepts_padd hpadd call hcall haccepts
        · rw [List.mem_singleton.1 hcall] at haccepts
          cases haccepts
      · exact absurd (not_accepts_psearchLoop hsearch hcall haccepts) List.not_mem_nil

/-- A packet that arrives is accepted at once or not at all. -/
theorem accepts_treatPacket {order : ByteOrder} {clock : TreatClock} {writable ret : Bool}
    {a : ℕ} {nfa : NfqData} {written : List Bytes}
    (h : l.treatPacket order params clock writable a fuel nfa = some (ret, l', written, calls))
    (hcall : call ∈ calls) (haccepts : call.Accepts) :
    nfa.packetId = some call.packetId ∧ nfa.Control := by
  rw [treatPacket] at h
  split at h
  · next payload payloadLen indev physindev outdev physoutdev packetId hpayload hifaces hid =>
    dsimp only at h
    split_ifs at h with hflags
    · obtain ⟨-, -, -, rfl⟩ := h
      rw [List.mem_singleton.1 hcall]
      exact ⟨hid, payload, payloadLen, hpayload, hflags⟩
    · obtain ⟨r, hask, heq⟩ := Option.map_eq_some_iff.1 h
      obtain ⟨-, rfl⟩ := heq
      exact absurd haccepts (not_accepts_askAuthentication hask call hcall)
  · obtain ⟨-, -, -, rfl⟩ := h
    exact absurd hcall List.not_mem_nil

/-- **An answer accepts its packet**, when it says so, and no other. -/
theorem accepts_authProcessAnswer {env : GatewayEnv} {dgram : Memory} {dgramSize : ℕ}
    {r : Option ℕ × PacketsList × List NfqCall × List IcmpOutcome}
    (h : l.authProcessAnswer env now fuel dgram dgramSize = some r) (hcall : call ∈ r.2.2.1)
    (haccepts : call.Accepts) :
    nuv4DecisionResponseSize ≤ dgramSize ∧ dgram.be32 4 = call.packetId ∧
      dgram 2 = Decision.accept.toByte := by
  rw [authProcessAnswer] at h
  dsimp only at h
  by_cases hsize : dgramSize < nuv4DecisionResponseSize
  · rw [if_pos hsize] at h
    obtain rfl := Option.some.inj h
    exact absurd hcall List.not_mem_nil
  rw [if_neg hsize] at h
  split at h
  · obtain rfl := Option.some.inj h
    exact absurd hcall List.not_mem_nil
  · cases hsearch : l.psearchAndDestroy env.params now (dgram.be32 4) fuel with
    | none =>
      rw [hsearch] at h
      cases h
    | some found =>
      obtain ⟨found, l₁, dropped⟩ := found
      rw [hsearch] at h
      have hdropped : call ∉ dropped := fun hmem ↦
        absurd (not_accepts_psearchLoop hsearch hmem haccepts) List.not_mem_nil
      have hdrop : call ∉ dropped ++ [.setVerdict (dgram.be32 4) .drop] := by
        intro hmem
        refine hdropped ((List.mem_append.1 hmem).resolve_right fun hlast ↦ ?_)
        rw [List.mem_singleton.1 hlast] at haccepts
        cases haccepts
      cases found with
      | none =>
        obtain rfl := Option.some.inj h
        exact absurd hcall hdropped
      | some mark =>
        dsimp only at h
        split_ifs at h with haccept hreject
        · obtain rfl := Option.some.inj h
          have hlast := List.mem_singleton.1 ((List.mem_append.1 hcall).resolve_left hdropped)
          rw [hlast, packetId_acceptCall]
          exact ⟨Nat.not_lt.1 hsize, rfl, haccept⟩
        · obtain rfl := Option.some.inj h
          exact absurd hcall hdrop
        · obtain rfl := Option.some.inj h
          exact absurd hcall hdrop

end PacketsList

/-! ### Runs -/

namespace GatewayRun

variable {env : GatewayEnv} {s s' : GatewayRun} {fuel : ℕ} {e : GatewayEvent} {call : NfqCall}

/-- **What an event lets through.** -/
theorem letsThrough_exec (h : s.exec env fuel e = some s') (hcall : call ∈ s'.calls)
    (haccepts : call.Accepts) : call ∈ s.calls ∨ e.LetsThrough call := by
  cases e with
  | treatPacket clock writable a nfa =>
    obtain ⟨r, htreat, rfl⟩ := Option.map_eq_some_iff.1 h
    exact (List.mem_append.1 hcall).imp_right fun hmem ↦
      PacketsList.accepts_treatPacket htreat hmem haccepts
  | authProcessAnswer now dgram dgramSize =>
    obtain ⟨r, hanswer, rfl⟩ := Option.map_eq_some_iff.1 h
    exact (List.mem_append.1 hcall).imp_right fun hmem ↦
      PacketsList.accepts_authProcessAnswer hanswer hmem haccepts
  | cleanOldPackets now =>
    obtain ⟨r, hclean, rfl⟩ := Option.map_eq_some_iff.1 h
    exact (List.mem_append.1 hcall).imp_right fun hmem ↦
      absurd (PacketsList.not_accepts_cleanLoop hclean hmem haccepts) List.not_mem_nil

/-- The packets that have arrived are those of the events. -/
theorem arrived_exec (h : s.exec env fuel e = some s') {id : UInt32} (hid : id ∈ s'.arrived) :
    id ∈ s.arrived ∨ ∃ clock writable a nfa, e = .treatPacket clock writable a nfa ∧
      nfa.packetId = some id := by
  cases e with
  | treatPacket clock writable a nfa =>
    obtain ⟨r, -, rfl⟩ := Option.map_eq_some_iff.1 h
    exact (List.mem_append.1 hid).imp_right fun hmem ↦
      ⟨clock, writable, a, nfa, rfl, Option.mem_toList.1 hmem⟩
  | authProcessAnswer now dgram dgramSize =>
    obtain ⟨r, -, rfl⟩ := Option.map_eq_some_iff.1 h
    exact Or.inl hid
  | cleanOldPackets now =>
    obtain ⟨r, -, rfl⟩ := Option.map_eq_some_iff.1 h
    exact Or.inl hid

/-- A verdict is for a packet that has arrived. -/
theorem Sound.arrived_of_mem_calls {nodes : List (ℕ × PacketIdl)} (h : s.Sound env.params nodes)
    (hcall : call ∈ s.calls) : call.packetId ∈ s.arrived := by
  refine h.handled.subset (h.settles.perm.mem_iff.2 (List.mem_append_left _ ?_))
  exact List.mem_map_of_mem hcall

end GatewayRun

/-- Packets that have arrived. -/
def ArrivedAt (es : List (ℕ × GatewayEvent)) (nfa : NfqData) : Prop :=
  ∃ fuel clock writable a, (fuel, GatewayEvent.treatPacket clock writable a nfa) ∈ es

/-- After the packet had arrived, an answer for its identifier has accepted it. -/
def AcceptedBy (es : List (ℕ × GatewayEvent)) (nfa : NfqData) (id : UInt32) : Prop :=
  ∃ es₁ fuel now dgram dgramSize es₂, es = es₁ ++ (fuel, .authProcessAnswer now dgram dgramSize) ::
    es₂ ∧ ArrivedAt es₁ nfa ∧ dgram.be32 4 = id ∧ dgram 2 = Decision.accept.toByte

/-- What the history of a gateway says about its state. -/
structure GatewayHistory (es : List (ℕ × GatewayEvent)) (s : GatewayRun) : Prop where
  arrived : ∀ id ∈ s.arrived, ∃ nfa, ArrivedAt es nfa ∧ nfa.packetId = some id
  calls : ∀ call ∈ s.calls, call.Accepts → ∃ nfa, ArrivedAt es nfa ∧
    nfa.packetId = some call.packetId ∧ (nfa.Control ∨ AcceptedBy es nfa call.packetId)

theorem ArrivedAt.mono {es : List (ℕ × GatewayEvent)} {nfa : NfqData} (h : ArrivedAt es nfa)
    (es' : List (ℕ × GatewayEvent)) : ArrivedAt (es ++ es') nfa := by
  obtain ⟨fuel, clock, writable, a, hmem⟩ := h
  exact ⟨fuel, clock, writable, a, List.mem_append_left _ hmem⟩

theorem AcceptedBy.mono {es : List (ℕ × GatewayEvent)} {nfa : NfqData} {id : UInt32}
    (h : AcceptedBy es nfa id) (es' : List (ℕ × GatewayEvent)) : AcceptedBy (es ++ es') nfa id := by
  obtain ⟨es₁, fuel, now, dgram, dgramSize, es₂, rfl, hrest⟩ := h
  exact ⟨es₁, fuel, now, dgram, dgramSize, es₂ ++ es', by rw [List.append_assoc, List.cons_append],
    hrest⟩

/-- An event keeps the history. -/
theorem GatewayHistory.exec {env : GatewayEnv} {es : List (ℕ × GatewayEvent)} {s s' : GatewayRun}
    {nodes : List (ℕ × PacketIdl)} (h : GatewayHistory es s) (hs : s'.Sound env.params nodes)
    {fuel : ℕ} {e : GatewayEvent} (hexec : s.exec env fuel e = some s') :
    GatewayHistory (es ++ [(fuel, e)]) s' := by
  have hlast : (fuel, e) ∈ es ++ [(fuel, e)] := List.mem_append_right _ (List.mem_singleton_self _)
  refine ⟨fun id hid ↦ ?_, fun call hcall haccepts ↦ ?_⟩
  · rcases GatewayRun.arrived_exec hexec hid with hold | ⟨clock, writable, a, nfa, rfl, hnfa⟩
    · obtain ⟨nfa, hnfa, hid⟩ := h.arrived id hold
      exact ⟨nfa, hnfa.mono _, hid⟩
    · exact ⟨nfa, ⟨fuel, clock, writable, a, hlast⟩, hnfa⟩
  · rcases GatewayRun.letsThrough_exec hexec hcall haccepts with hold | hthrough
    · obtain ⟨nfa, hnfa, hid, hcase⟩ := h.calls call hold haccepts
      exact ⟨nfa, hnfa.mono _, hid, hcase.imp_right fun hanswer ↦ hanswer.mono _⟩
    · cases e with
      | treatPacket clock writable a nfa =>
        exact ⟨nfa, ⟨fuel, clock, writable, a, hlast⟩, hthrough.1, Or.inl hthrough.2⟩
      | authProcessAnswer now dgram dgramSize =>
        -- its packet arrived before the answer
        have harrived : call.packetId ∈ s.arrived := by
          refine (GatewayRun.arrived_exec hexec (hs.arrived_of_mem_calls hcall)).resolve_right ?_
          rintro ⟨clock, writable, a, nfa, heq, -⟩
          cases heq
        obtain ⟨nfa, hnfa, hid⟩ := h.arrived _ harrived
        exact ⟨nfa, hnfa.mono _, hid, Or.inr ⟨es, fuel, now, dgram, dgramSize, [], rfl, hnfa,
          hthrough.2⟩⟩
      | cleanOldPackets now => exact absurd hthrough id

end Nufw
