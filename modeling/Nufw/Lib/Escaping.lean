import Mathlib.Data.List.Basic

/-!
# Escaped texts

In a text a mark says that the next character stands for itself. `unescape` takes the marks out, if
none of them is left without a character; `escape` puts one in front of each special character.
Reading an escaped text back gives the text (`unescape_escape`). Both leave a text as it is only if
there is nothing to do (`unescape_eq_self_iff`, `escape_eq_self_iff`).
-/

namespace Escaping

variable {α : Type*}

/-- One level of marks is taken out. -/
def unescape [DecidableEq α] (esc : α) : List α → Option (List α)
  | [] => some []
  | c :: text =>
    if c = esc then
      match text with
      | [] => none
      | d :: text => (unescape esc text).map (d :: ·)
    else (unescape esc text).map (c :: ·)

/-- One level of marks is put in. -/
def escape (esc : α) (special : α → Bool) (text : List α) : List α :=
  text.flatMap fun c ↦ if special c then [esc, c] else [c]

/-! ### Writing -/

variable {esc : α} {special : α → Bool} {text : List α}

theorem escape_cons (c : α) (text : List α) :
    escape esc special (c :: text) =
      (if special c then [esc, c] else [c]) ++ escape esc special text :=
  List.flatMap_cons

/-- Special characters make a text longer. -/
theorem length_escape :
    text.length ≤ (escape esc special text).length ∧
      ((escape esc special text).length = text.length → ∀ c ∈ text, special c = false) := by
  induction text with
  | nil => exact ⟨Nat.le_refl 0, fun _ c hc ↦ nomatch hc⟩
  | cons c text ih =>
    obtain ⟨hle, heq⟩ := ih
    rw [escape_cons]
    split_ifs with h
    · simp only [List.length_append, List.length_cons, List.length_nil]
      exact ⟨by omega, fun hlen ↦ by omega⟩
    · simp only [List.length_append, List.length_cons, List.length_nil]
      refine ⟨by omega, fun hlen ↦ List.forall_mem_cons.2 ⟨by simpa using h, heq (by omega)⟩⟩

/-- **A text without special characters, and no other, is escaped as it is.** -/
theorem escape_eq_self_iff :
    escape esc special text = text ↔ ∀ c ∈ text, special c = false := by
  refine ⟨fun h ↦ length_escape.2 (congrArg List.length h), fun h ↦ ?_⟩
  induction text with
  | nil => rfl
  | cons c text ih =>
    rw [List.forall_mem_cons] at h
    rw [escape_cons, ih h.2, h.1]
    rfl

/-! ### Reading -/

section

variable [DecidableEq α] {c : α} {value : List α}

theorem unescape_cons_of_ne (h : c ≠ esc) (text : List α) :
    unescape esc (c :: text) = (unescape esc text).map (c :: ·) := by
  rw [unescape.eq_def]
  exact if_neg h

theorem unescape_esc_cons (c : α) (text : List α) :
    unescape esc (esc :: c :: text) = (unescape esc text).map (c :: ·) := by
  rw [unescape, if_pos rfl]

/-- What is read gets shorter, unless there is no mark. -/
theorem length_of_unescape (h : unescape esc text = some value) :
    value.length ≤ text.length ∧ (esc ∈ text → value.length < text.length) := by
  induction text using unescape.induct esc generalizing value with
  | case1 =>
    obtain rfl := Option.some.inj h
    exact ⟨Nat.le_refl 0, fun hmem ↦ nomatch hmem⟩
  | case2 => simp [unescape] at h
  | case3 d text ih =>
    rw [unescape_esc_cons, Option.map_eq_some_iff] at h
    obtain ⟨value, hvalue, rfl⟩ := h
    have hle := (ih hvalue).1
    simp only [List.length_cons]
    exact ⟨by omega, fun _ ↦ by omega⟩
  | case4 c text hne ih =>
    rw [unescape_cons_of_ne hne, Option.map_eq_some_iff] at h
    obtain ⟨value, hvalue, rfl⟩ := h
    obtain ⟨hle, hlt⟩ := ih hvalue
    refine ⟨Nat.succ_le_succ hle, fun hmem ↦ Nat.succ_lt_succ (hlt ?_)⟩
    exact (List.mem_cons.1 hmem).resolve_left (Ne.symm hne)

theorem unescape_of_notMem (h : esc ∉ text) : unescape esc text = some text := by
  induction text with
  | nil => rfl
  | cons c text ih =>
    rw [List.mem_cons, not_or] at h
    rw [unescape_cons_of_ne (Ne.symm h.1), ih h.2]
    rfl

/-- **A text is read as itself exactly if it has no mark.** -/
theorem unescape_eq_self_iff : unescape esc text = some text ↔ esc ∉ text :=
  ⟨fun h hmem ↦ Nat.lt_irrefl _ ((length_of_unescape h).2 hmem), unescape_of_notMem⟩

/-- **What has been escaped is read back**, if the mark is escaped too. -/
theorem unescape_escape (hesc : special esc = true) (text : List α) :
    unescape esc (escape esc special text) = some text := by
  induction text with
  | nil => rfl
  | cons c text ih =>
    rw [escape_cons]
    split_ifs with h
    · show unescape esc (esc :: c :: escape esc special text) = _
      rw [unescape_esc_cons, ih]
      rfl
    · have hne : c ≠ esc := fun hc ↦ h (hc ▸ hesc)
      show unescape esc (c :: escape esc special text) = _
      rw [unescape_cons_of_ne hne, ih]
      rfl

end

end Escaping
