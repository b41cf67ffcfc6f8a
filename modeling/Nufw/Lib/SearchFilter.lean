import Mathlib.Tactic.Common
import Mathlib.Algebra.Order.Ring.Int
import Mathlib.Data.List.Basic

/-!
# Search filters of a directory

The filters of RFC 2254, as trees and as texts. In a text a value has to be escaped: the characters
`*`, `(`, `)`, `\` and NUL are written as a backslash and two hexadecimal digits. `Represents f bs`
says that the bytes are a text of the filter, with the values escaped in any way.

`text` is what comes out if the values are written as they are. No text of the filter is shorter,
and one that is not longer shows that no value needed an escape (`Represents.length_le`).
-/

/-- The comparisons of an item. -/
inductive FilterOp where
  | equal | approx | greater | less
  deriving DecidableEq

/-- How a comparison is written. -/
def FilterOp.text : FilterOp → List UInt8
  | equal => [61]
  | approx => [126, 61]
  | greater => [62, 61]
  | less => [60, 61]

/-- A filter. -/
inductive SearchFilter where
  | and (fs : List SearchFilter)
  | or (fs : List SearchFilter)
  | not (f : SearchFilter)
  | item (attr : List UInt8) (op : FilterOp) (value : List UInt8)
  | present (attr : List UInt8)

namespace SearchFilter

/-! ### Values -/

/-- The characters that have to be escaped: `*`, `(`, `)`, `\` and NUL. -/
def IsSpecial (c : UInt8) : Prop := c = 42 ∨ c = 40 ∨ c = 41 ∨ c = 92 ∨ c = 0

instance decidableIsSpecial (c : UInt8) : Decidable (IsSpecial c) :=
  inferInstanceAs (Decidable (_ ∨ _))

/-- The value of a hexadecimal digit. -/
def hexDigit (c : UInt8) : Option UInt8 :=
  if 48 ≤ c ∧ c ≤ 57 then some (c - 48)
  else if 97 ≤ c ∧ c ≤ 102 then some (c - 87)
  else if 65 ≤ c ∧ c ≤ 70 then some (c - 55)
  else none

/-- The first text stands for the value. -/
inductive Escapes : List UInt8 → List UInt8 → Prop
  | nil : Escapes [] []
  | char {c : UInt8} {r v : List UInt8} (hc : ¬IsSpecial c) (h : Escapes r v) :
    Escapes (c :: r) (c :: v)
  | escape {c₁ c₂ x y : UInt8} {r v : List UInt8} (h₁ : hexDigit c₁ = some x)
    (h₂ : hexDigit c₂ = some y) (h : Escapes r v) :
    Escapes (92 :: c₁ :: c₂ :: r) ((16 * x + y) :: v)

/-- The value can be written as it is. -/
def IsPlain (v : List UInt8) : Prop := ∀ c ∈ v, ¬IsSpecial c

instance decidableIsPlain (v : List UInt8) : Decidable (IsPlain v) :=
  List.decidableBAll (fun c ↦ ¬IsSpecial c) v

theorem IsPlain.escapes {v : List UInt8} (h : IsPlain v) : Escapes v v := by
  induction v with
  | nil => exact .nil
  | cons c v ih =>
    obtain ⟨hc, hv⟩ := List.forall_mem_cons.1 h
    exact .char hc (ih hv)

/-- An escape takes more room than the character. -/
theorem Escapes.length_le {r v : List UInt8} (h : Escapes r v) :
    v.length ≤ r.length ∧ (r.length ≤ v.length → IsPlain v) := by
  induction h with
  | nil => exact ⟨Nat.le_refl _, fun _ c hc ↦ absurd hc List.not_mem_nil⟩
  | char hc _ ih =>
    simp only [List.length_cons, Nat.add_le_add_iff_right]
    exact ⟨ih.1, fun hle ↦ List.forall_mem_cons.2 ⟨hc, ih.2 hle⟩⟩
  | escape _ _ _ ih =>
    simp only [List.length_cons]
    exact ⟨by omega, fun hle ↦ by omega⟩

/-! ### Texts -/

mutual

/-- The filter with its values as they are. -/
def text : SearchFilter → List UInt8
  | .and fs => [40, 38] ++ texts fs ++ [41]
  | .or fs => [40, 124] ++ texts fs ++ [41]
  | .not f => [40, 33] ++ text f ++ [41]
  | .item attr op value => [40] ++ attr ++ op.text ++ value ++ [41]
  | .present attr => [40] ++ attr ++ [61, 42, 41]

/-- Filters one after the other. -/
def texts : List SearchFilter → List UInt8
  | [] => []
  | f :: fs => text f ++ texts fs

end

mutual

/-- **The bytes are a text of the filter.** -/
def Represents : SearchFilter → List UInt8 → Prop
  | .and fs, bs => fs ≠ [] ∧ ∃ inner, bs = [40, 38] ++ inner ++ [41] ∧ RepresentsAll fs inner
  | .or fs, bs => fs ≠ [] ∧ ∃ inner, bs = [40, 124] ++ inner ++ [41] ∧ RepresentsAll fs inner
  | .not f, bs => ∃ inner, bs = [40, 33] ++ inner ++ [41] ∧ Represents f inner
  | .item attr op value, bs =>
    ∃ escaped, bs = [40] ++ attr ++ op.text ++ escaped ++ [41] ∧ Escapes escaped value
  | .present attr, bs => bs = [40] ++ attr ++ [61, 42, 41]

/-- The bytes are texts of the filters, one after the other. -/
def RepresentsAll : List SearchFilter → List UInt8 → Prop
  | [], bs => bs = []
  | f :: fs, bs => ∃ bs₁ bs₂, bs = bs₁ ++ bs₂ ∧ Represents f bs₁ ∧ RepresentsAll fs bs₂

end

mutual

/-- All values can be written as they are, and no list of filters is empty. -/
def Plain : SearchFilter → Prop
  | .and fs => fs ≠ [] ∧ PlainAll fs
  | .or fs => fs ≠ [] ∧ PlainAll fs
  | .not f => Plain f
  | .item _ _ value => IsPlain value
  | .present _ => True

/-- All values of the filters can be written as they are. -/
def PlainAll : List SearchFilter → Prop
  | [] => True
  | f :: fs => Plain f ∧ PlainAll fs

end

theorem texts_append (fs gs : List SearchFilter) : texts (fs ++ gs) = texts fs ++ texts gs := by
  induction fs with
  | nil => rfl
  | cons f fs ih => rw [List.cons_append, texts, texts, ih, List.append_assoc]

mutual

/-- **A filter whose values are plain is represented by its text.** -/
theorem represents_text : ∀ {f : SearchFilter}, Plain f → Represents f (text f)
  | .and _, h => ⟨h.1, _, rfl, representsAll_texts h.2⟩
  | .or _, h => ⟨h.1, _, rfl, representsAll_texts h.2⟩
  | .not _, h => ⟨_, rfl, represents_text h⟩
  | .item _ _ _, h => ⟨_, rfl, IsPlain.escapes h⟩
  | .present _, _ => rfl

theorem representsAll_texts : ∀ {fs : List SearchFilter}, PlainAll fs → RepresentsAll fs (texts fs)
  | [], _ => rfl
  | _ :: _, h => ⟨_, _, rfl, represents_text h.1, representsAll_texts h.2⟩

end

mutual

/-- **No text of a filter is shorter**, and one that is not longer has its values as they are. -/
theorem Represents.length_le : ∀ {f : SearchFilter} {bs : List UInt8}, Represents f bs →
    (text f).length ≤ bs.length ∧ (bs.length ≤ (text f).length → Plain f)
  | .and fs, bs, h => by
    obtain ⟨hne, inner, rfl, hinner⟩ := h
    obtain ⟨hle, hplain⟩ := hinner.length_le
    simp only [text, List.length_append] at *
    exact ⟨by omega, fun hge ↦ ⟨hne, hplain (by omega)⟩⟩
  | .or fs, bs, h => by
    obtain ⟨hne, inner, rfl, hinner⟩ := h
    obtain ⟨hle, hplain⟩ := hinner.length_le
    simp only [text, List.length_append] at *
    exact ⟨by omega, fun hge ↦ ⟨hne, hplain (by omega)⟩⟩
  | .not f, bs, h => by
    obtain ⟨inner, rfl, hinner⟩ := h
    obtain ⟨hle, hplain⟩ := hinner.length_le
    simp only [text, List.length_append] at *
    exact ⟨by omega, fun hge ↦ hplain (by omega)⟩
  | .item attr op value, bs, h => by
    obtain ⟨escaped, rfl, hescapes⟩ := h
    obtain ⟨hle, hplain⟩ := hescapes.length_le
    simp only [text, List.length_append] at *
    exact ⟨by omega, fun hge ↦ hplain (by omega)⟩
  | .present attr, bs, h => by
    obtain rfl : bs = _ := h
    exact ⟨Nat.le_refl _, fun _ ↦ trivial⟩

theorem RepresentsAll.length_le :
    ∀ {fs : List SearchFilter} {bs : List UInt8}, RepresentsAll fs bs →
    (texts fs).length ≤ bs.length ∧ (bs.length ≤ (texts fs).length → PlainAll fs)
  | [], bs, h => by
    obtain rfl : bs = _ := h
    exact ⟨Nat.le_refl _, fun _ ↦ trivial⟩
  | f :: fs, bs, h => by
    obtain ⟨bs₁, bs₂, rfl, h₁, h₂⟩ := h
    obtain ⟨hle₁, hplain₁⟩ := h₁.length_le
    obtain ⟨hle₂, hplain₂⟩ := h₂.length_le
    simp only [texts, List.length_append] at *
    exact ⟨by omega, fun hge ↦ ⟨hplain₁ (by omega), hplain₂ (by omega)⟩⟩

end

mutual

/-- An entry satisfies the filter. How a value is compared is up to the rule of its attribute. -/
def holds (rule : List UInt8 → FilterOp → List UInt8 → List UInt8 → Bool)
    (entry : List UInt8 → List (List UInt8)) : SearchFilter → Bool
  | .and fs => holdsAll rule entry fs
  | .or fs => holdsAny rule entry fs
  | .not f => !holds rule entry f
  | .item attr op value => (entry attr).any (rule attr op value)
  | .present attr => !(entry attr).isEmpty

/-- The entry satisfies all of the filters. -/
def holdsAll (rule : List UInt8 → FilterOp → List UInt8 → List UInt8 → Bool)
    (entry : List UInt8 → List (List UInt8)) : List SearchFilter → Bool
  | [] => true
  | f :: fs => holds rule entry f && holdsAll rule entry fs

/-- The entry satisfies one of the filters. -/
def holdsAny (rule : List UInt8 → FilterOp → List UInt8 → List UInt8 → Bool)
    (entry : List UInt8 → List (List UInt8)) : List SearchFilter → Bool
  | [] => false
  | f :: fs => holds rule entry f || holdsAny rule entry fs

end

end SearchFilter
