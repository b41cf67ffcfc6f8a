import Nufw.Lib.Wire
import Mathlib.Data.List.GetD

/-!
# Writes to memory

The writes of a function to a buffer, in order. `writeAll` is the memory after them, and
`WritesBelow` says that they stay in the buffer. What lies before all of them is not touched
(`writeAll_of_before`).
-/

/-- Writes to memory, in order: where they start, and the bytes. -/
abbrev MemWrites := List (ℕ × List UInt8)

/-- Every byte is written below the bound. -/
def WritesBelow (bound : ℕ) (writes : MemWrites) : Prop :=
  ∀ w ∈ writes, ∀ i < w.2.length, w.1 + i < bound

namespace Memory

variable {m : Memory} {o i : ℕ} {bs : List UInt8} {writes writes' : MemWrites}

/-- The memory after the writes. -/
def writeAll (m : Memory) (writes : MemWrites) : Memory :=
  writes.foldl (fun m w ↦ m.write w.1 w.2) m

theorem writeAll_append : m.writeAll (writes ++ writes') = (m.writeAll writes).writeAll writes' :=
  List.foldl_append

theorem write_of_lt (h : i < o) : m.write o bs i = m i := by
  rw [write, if_neg (by omega)]

theorem write_of_ge (h : o + bs.length ≤ i) : m.write o bs i = m i := by
  rw [write, if_pos (by omega), List.getD_eq_default _ _ (by omega)]

theorem holds_write : (m.write o bs).Holds o bs := by
  refine holds_iff_getElem.2 fun i hi ↦ ?_
  rw [write, if_pos (Nat.le_add_right o i), Nat.add_sub_cancel_left, List.getD_eq_getElem _ _ hi]

/-- What lies before the writes is not touched. -/
theorem writeAll_of_before {k : ℕ} (hwrites : ∀ w ∈ writes, k ≤ w.1) (hi : i < k) :
    m.writeAll writes i = m i := by
  induction writes generalizing m with
  | nil => rfl
  | cons w writes ih =>
    obtain ⟨hw, hrest⟩ := List.forall_mem_cons.1 hwrites
    exact (ih hrest).trans (write_of_lt (Nat.lt_of_lt_of_le hi hw))

/-- Bytes that end before the writes stay. -/
theorem Holds.writeAll {k : ℕ} (h : m.Holds o bs) (hk : o + bs.length ≤ k)
    (hwrites : ∀ w ∈ writes, k ≤ w.1) : (m.writeAll writes).Holds o bs :=
  h.of_eq fun _ _ hi ↦ writeAll_of_before hwrites (Nat.lt_of_lt_of_le hi hk)

/-- A write that ends before those that follow it. -/
theorem holds_writeAll_cons (hwrites : ∀ w ∈ writes, o + bs.length ≤ w.1) :
    (m.writeAll ((o, bs) :: writes)).Holds o bs :=
  holds_write.writeAll (Nat.le_refl _) hwrites

end Memory

theorem writesBelow_nil (bound : ℕ) : WritesBelow bound [] := nofun

theorem writesBelow_append {bound : ℕ} {writes writes' : MemWrites} :
    WritesBelow bound (writes ++ writes') ↔ WritesBelow bound writes ∧ WritesBelow bound writes' :=
  List.forall_mem_append

/-- A write stays in the buffer if it ends there, when it starts there. -/
theorem writesBelow_cons {bound o : ℕ} {bs : List UInt8} {writes : MemWrites} (ho : o < bound) :
    WritesBelow bound ((o, bs) :: writes) ↔ o + bs.length ≤ bound ∧ WritesBelow bound writes := by
  refine List.forall_mem_cons.trans (and_congr_left fun _ ↦ ⟨fun h ↦ ?_, fun h i hi ↦ ?_⟩)
  · rcases Nat.eq_zero_or_pos bs.length with hzero | hpos
    · omega
    · have hlast : o + (bs.length - 1) < bound := h (bs.length - 1) (Nat.sub_lt hpos Nat.one_pos)
      omega
  · exact Nat.lt_of_lt_of_le (Nat.add_lt_add_left hi o) h

theorem writesBelow_byte {bound o : ℕ} {b : UInt8} : WritesBelow bound [(o, [b])] ↔ o < bound := by
  refine List.forall_mem_singleton.trans ⟨fun h ↦ h 0 Nat.one_pos, fun h i hi ↦ ?_⟩
  obtain rfl : i = 0 := Nat.lt_one_iff.1 hi
  exact h
