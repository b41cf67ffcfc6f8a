import Nufw.Lib.Escaping
import Nufw.Lib.WhileLoop
import Nufw.Nubase.Strings

/-!
# Quoted strings of the configuration

The lexer of `config-parser.lex.l` copies a quoted string without its quotes, and `escape_str`
should take the backslashes out of the copy. It goes over the string with two cursors and a flag,
which says that the next character stands for itself. But the flag is set the wrong way round: it
stands at first as if a backslash had come before, and each character that is copied leaves it so.

So every character is copied to where it stands (`escapeStr_iff`). A string is read as it should be
exactly if it has no backslash, and a value is read back exactly if there was nothing to escape in
it (`escapeStr_undoes_iff`).
-/

namespace Nufw

open Escaping (escape unescape)

/-! ### The function -/

/-- The variables of the loop. -/
structure EscapeLoop where
  str : Bytes
  w : ℕ
  i : ℕ
  escapeNext : Bool

/-- One turn of the loop; it ends with the string, or with nothing if it leaves memory. -/
def escapeStep (s : EscapeLoop) : EscapeLoop ⊕ Option Bytes :=
  match s.str[s.i]? with
  | none => .inr none
  | some c =>
    if c = 0 then .inr (some (s.str.set s.w 0))
    else if !s.escapeNext && c = 92 then .inl { s with escapeNext := false, i := s.i + 1 }
    else .inl { str := s.str.set s.w c, w := s.w + 1, i := s.i + 1, escapeNext := true }

/-- `escape_str`: what it leaves in the memory from `str` on. -/
def EscapeStr (str : Bytes) : Option Bytes → Prop := WhileLoop.Returns escapeStep ⟨str, 0, 0, true⟩

/-- `strndup`. -/
def strndup (s : Bytes) (n : ℕ) : Bytes := (cString s).take n ++ [0]

/-- What the actions for a section and a string hand to `escape_str`. -/
def unquoted (yytext : Bytes) : Bytes := strndup (yytext.drop 1) (yytext.length - 2)

/-! ### What it is for -/

/-- Quotes and backslashes. -/
def isConfSpecial (c : UInt8) : Bool := c = 34 || c = 39 || c = 92

/-- A value between quotes, with its quotes and backslashes escaped. -/
def quoted (quote : UInt8) (value : Bytes) : Bytes :=
  quote :: escape 92 isConfSpecial value ++ [quote]

/-- `escape_str` undoes one level of escaping in a string. -/
def UndoesEscaping (s : Bytes) : Prop :=
  ∀ t, unescape 92 s = some t → ∀ behind, ∃ str, EscapeStr (s ++ 0 :: behind) (some str) ∧
    cString str = t

/-- A value that has been escaped and quoted is read back. -/
def IsReadBack (value : Bytes) : Prop :=
  ∀ quote ∈ [34, 39], ∃ str, EscapeStr (unquoted (quoted quote value)) (some str) ∧
    cString str = value

/-! ### Every character is copied to where it stands -/

/-- The cursors are at one place, the flag says that the next character stands for itself, and
nothing has been changed. -/
def EscapeLoop.at (str : Bytes) (i : ℕ) : EscapeLoop := ⟨str, i, i, true⟩

variable {str : Bytes}

/-- One turn of the loop. -/
theorem escapeStep_at {i : ℕ} (hi : i < str.length) :
    escapeStep (EscapeLoop.at str i) =
      if str[i] = 0 then .inr (some str) else .inl (EscapeLoop.at str (i + 1)) := by
  have hget : (EscapeLoop.at str i).str[(EscapeLoop.at str i).i]? = some str[i] :=
    List.getElem?_eq_getElem hi
  rw [escapeStep, hget]
  show (if str[i] = 0 then _ else if (!true && decide (str[i] = 92)) = true then _ else _) = _
  rw [Bool.not_true, Bool.false_and, if_neg Bool.false_ne_true]
  split_ifs with h
  · rw [← h]
    exact congrArg (Sum.inr ∘ some) (List.set_getElem_self hi)
  · exact congrArg (fun str ↦ Sum.inl (EscapeLoop.at str (i + 1))) (List.set_getElem_self hi)

theorem escapeStep_length : escapeStep (EscapeLoop.at str str.length) = .inr none := by
  have hget : (EscapeLoop.at str str.length).str[(EscapeLoop.at str str.length).i]? = none :=
    List.getElem?_eq_none (Nat.le_refl _)
  rw [escapeStep, hget]

/-- The loop, from a cursor on: it ends at the first NUL. -/
theorem returns_at {i : ℕ} (hi : i ≤ str.length) :
    WhileLoop.Returns escapeStep (EscapeLoop.at str i)
      (if 0 ∈ str.drop i then some str else none) := by
  induction hi using Nat.decreasingInduction with
  | self =>
    rw [List.drop_length, if_neg List.not_mem_nil]
    exact WhileLoop.returns_of_inr escapeStep_length
  | of_succ i hlt ih =>
    have hstep := escapeStep_at hlt
    rw [List.drop_eq_getElem_cons hlt]
    split_ifs at hstep with hnul
    · rw [if_pos (hnul ▸ List.mem_cons_self)]
      exact WhileLoop.returns_of_inr hstep
    · rw [WhileLoop.returns_iff_of_inl hstep]
      simp only [List.mem_cons, Ne.symm hnul, false_or]
      exact ih

/-- **`escape_str` leaves a string as it is.** -/
theorem escapeStr_iff {r : Option Bytes} :
    EscapeStr str r ↔ r = if 0 ∈ str then some str else none := by
  have h : EscapeStr str (if 0 ∈ str.drop 0 then some str else none) := returns_at (Nat.zero_le _)
  rw [List.drop_zero] at h
  exact ⟨fun hr ↦ hr.unique h, fun hr ↦ hr ▸ h⟩

theorem escapeStr_block (s behind : Bytes) {r : Option Bytes} :
    EscapeStr (s ++ 0 :: behind) r ↔ r = some (s ++ 0 :: behind) := by
  rw [escapeStr_iff, if_pos (List.mem_append_right s List.mem_cons_self)]

/-! ### What it undoes -/

section

variable {s value : Bytes}

/-- What is left in a string is the string. -/
theorem exists_escapeStr_iff (hs : 0 ∉ s) (behind t : Bytes) :
    (∃ str, EscapeStr (s ++ 0 :: behind) (some str) ∧ cString str = t) ↔ s = t := by
  constructor
  · rintro ⟨str, hstr, rfl⟩
    obtain rfl := Option.some.inj ((escapeStr_block s behind).1 hstr)
    exact (cString_append_nul hs behind).symm
  · rintro rfl
    exact ⟨_, (escapeStr_block s behind).2 rfl, cString_append_nul hs behind⟩

/-- The string that should be read is the string itself. -/
theorem undoesEscaping_iff_eq (hs : 0 ∉ s) {t : Bytes} (ht : unescape 92 s = some t) :
    UndoesEscaping s ↔ s = t := by
  constructor
  · exact fun h ↦ (exists_escapeStr_iff hs [] t).1 (h t ht [])
  · rintro rfl t' ht' behind
    exact (exists_escapeStr_iff hs behind t').2 (Option.some.inj (ht.symm.trans ht'))

theorem undoesEscaping_iff (hs : 0 ∉ s) {t : Bytes} (ht : unescape 92 s = some t) :
    UndoesEscaping s ↔ 92 ∉ s := by
  rw [undoesEscaping_iff_eq hs ht, ← Escaping.unescape_eq_self_iff, ht, Option.some_inj, eq_comm]

theorem notMem_escape (h : 0 ∉ value) : 0 ∉ escape 92 isConfSpecial value := by
  intro hmem
  obtain ⟨c, hc, h0⟩ := List.mem_flatMap.1 hmem
  have hne : c ≠ 0 := fun hc0 ↦ h (hc0 ▸ hc)
  split_ifs at h0
  · simp [Ne.symm hne] at h0
  · simp [Ne.symm hne] at h0

/-- The copy of a quoted value has no quotes any more. -/
theorem unquoted_quoted {quote : UInt8} (hquote : quote ≠ 0) (h : 0 ∉ value) :
    unquoted (quoted quote value) = escape 92 isConfSpecial value ++ [0] := by
  have hnul : 0 ∉ escape 92 isConfSpecial value ++ [quote] := by
    rw [List.mem_append, List.mem_singleton, not_or]
    exact ⟨notMem_escape h, hquote.symm⟩
  have hlen : (quoted quote value).length - 2 = (escape 92 isConfSpecial value).length := by
    rw [quoted, List.length_append, List.length_cons]
    rfl
  rw [unquoted, strndup, hlen, quoted, List.cons_append, List.drop_one, List.tail_cons,
    cString_of_notMem hnul, List.take_left]

/-- **A value is read back exactly if its escaping is undone.** -/
theorem isReadBack_iff_undoesEscaping (h : 0 ∉ value) :
    IsReadBack value ↔ UndoesEscaping (escape 92 isConfSpecial value) := by
  rw [undoesEscaping_iff_eq (notMem_escape h) (Escaping.unescape_escape rfl value)]
  have hquote {quote : UInt8} (hq : quote ≠ 0) :
      (∃ str, EscapeStr (unquoted (quoted quote value)) (some str) ∧ cString str = value) ↔
        escape 92 isConfSpecial value = value := by
    rw [unquoted_quoted hq h]
    exact exists_escapeStr_iff (notMem_escape h) [] value
  constructor
  · exact fun hread ↦ (hquote (by decide)).1 (hread 34 List.mem_cons_self)
  · intro hescape quote hmem
    have hq : quote ≠ 0 := by
      rintro rfl
      exact absurd hmem (by decide)
    exact (hquote hq).2 hescape

theorem isReadBack_iff (h : 0 ∉ value) :
    IsReadBack value ↔ ∀ c ∈ value, isConfSpecial c = false := by
  rw [isReadBack_iff_undoesEscaping h,
    undoesEscaping_iff_eq (notMem_escape h) (Escaping.unescape_escape rfl value)]
  exact Escaping.escape_eq_self_iff

/-- **`escape_str` undoes escaping exactly where there is none**: in a string without a backslash,
and in a value without quotes and backslashes. -/
theorem escapeStr_undoes_iff (hs : 0 ∉ s) (hcomplete : (unescape 92 s).isSome = true)
    (hvalue : 0 ∉ value) :
    (UndoesEscaping s ↔ 92 ∉ s) ∧
      (IsReadBack value ↔ ∀ c ∈ value, c ≠ 34 ∧ c ≠ 39 ∧ c ≠ 92) := by
  obtain ⟨t, ht⟩ := Option.isSome_iff_exists.1 hcomplete
  refine ⟨undoesEscaping_iff hs ht, ?_⟩
  rw [isReadBack_iff hvalue]
  refine forall₂_congr fun c _ ↦ ?_
  rw [isConfSpecial, Bool.or_eq_false_iff, Bool.or_eq_false_iff, decide_eq_false_iff_not,
    decide_eq_false_iff_not, decide_eq_false_iff_not, and_assoc]

/-- A string and a value with nothing to escape. -/
theorem plain_undoes :
    (UndoesEscaping (ascii "abc#123") ↔ 92 ∉ ascii "abc#123") ∧
      (IsReadBack (ascii "first") ↔ ∀ c ∈ ascii "first", c ≠ 34 ∧ c ≠ 39 ∧ c ≠ 92) :=
  escapeStr_undoes_iff (by decide +kernel) (by decide +kernel) (by decide +kernel)

/-- The backslash in front of a quote stays. -/
theorem quote_not_undone : ¬UndoesEscaping [92, 34] ∧ ¬IsReadBack [34] := by
  constructor
  · rw [undoesEscaping_iff (t := [34]) (by decide) (by decide)]
    decide
  · rw [isReadBack_iff (by decide)]
    decide

end

end Nufw
