import Nufw.Lib.Writes

/-!
# Spans of memory

`Memory.span m o n` is the list of the `n` bytes from `o` on. It splits where one wants
(`span_add`), gives back what has been written (`span_write`), and does not see what is written
behind it (`span_write_of_le`).
-/

namespace Memory

variable {m m' : Memory} {o k : ℕ} {bs : List UInt8}

/-- The `n` bytes from `o` on. -/
def span (m : Memory) (o : ℕ) : ℕ → List UInt8
  | 0 => []
  | n + 1 => m o :: m.span (o + 1) n

@[simp] theorem length_span (m : Memory) (o n : ℕ) : (m.span o n).length = n := by
  induction n generalizing o with
  | zero => rfl
  | succ n ih => rw [span, List.length_cons, ih]

theorem span_add (m : Memory) (o n k : ℕ) : m.span o (n + k) = m.span o n ++ m.span (o + n) k := by
  induction n generalizing o with
  | zero => rw [Nat.zero_add, span, List.nil_append, Nat.add_zero]
  | succ n ih =>
    rw [Nat.succ_add, span, span, ih, List.cons_append, Nat.add_right_comm o 1 n, Nat.add_assoc]

theorem span_congr {n : ℕ} (h : ∀ i < n, m (o + i) = m' (k + i)) : m.span o n = m'.span k n := by
  induction n generalizing o k with
  | zero => rfl
  | succ n ih =>
    rw [span, span, ih]
    · rw [← Nat.add_zero o, h 0 (Nat.succ_pos n), Nat.add_zero]
    · intro i hi
      rw [Nat.add_assoc, Nat.add_assoc, Nat.add_comm 1 i]
      exact h (i + 1) (Nat.succ_lt_succ hi)

theorem Holds.span_eq (h : m.Holds o bs) : m.span o bs.length = bs := by
  induction bs generalizing o with
  | nil => rfl
  | cons b bs ih => rw [List.length_cons, span, h.1, ih h.2]

theorem span_write : (m.write o bs).span o bs.length = bs := holds_write.span_eq

/-- What has been written, in two parts. -/
theorem span_write_split (m : Memory) (o : ℕ) {n : ℕ} (h : n ≤ bs.length) :
    (m.write o bs).span o n ++ (m.write o bs).span (o + n) (bs.length - n) = bs := by
  rw [← span_add, Nat.add_sub_cancel' h, span_write]

theorem span_write_of_le {n : ℕ} (h : o + n ≤ k) : (m.write k bs).span o n = m.span o n :=
  span_congr fun _ hi ↦ write_of_lt (Nat.lt_of_lt_of_le (Nat.add_lt_add_left hi o) h)

/-- A shorter span is the start of a longer one. -/
theorem span_take {n k : ℕ} (h : k ≤ n) : (m.span o n).take k = m.span o k := by
  obtain ⟨l, rfl⟩ := Nat.exists_eq_add_of_le h
  rw [span_add, List.take_left' (length_span m o k)]

end Memory
