import Nufw.Nuauth.Ldap

/-!
# The modules that give ACLs

`modules_acl_check`: the modules are asked in turn, and the first one that has an ACL for the
connection decides. Two connections whose keys `compare_acls` finds equal get the same answer from
whatever modules when they also agree in what the keys do not tell (`SameCriteria`): the source
port, the signature of the application and the interface names.
-/

namespace Nufw

/-- What the modules run with. -/
structure AclEnv where
  conf : Params
  order : ByteOrder
  /-- `g_pattern_match_simple`. -/
  glob : Bytes → Bytes → Bool
  mem : LdapMemory

/-- A module of `hooks[MOD_ACL_CHECK]`, with the ACLs it has loaded or the directory it asks. -/
inductive AclModule where
  | plaintext (acllist : List PlaintextAcl)
  | ldap (params : LdapParams) (search : Bytes → Option (List LdapEntry))

/-- `acl_check` of a module. -/
def AclModule.aclCheck (env : AclEnv) (element : Connection) :
    AclModule → Option (List AclGroup)
  | .plaintext acllist => some (plaintextAclCheck env.glob acllist element)
  | .ldap params search => ldapAclCheck env.conf env.order env.glob env.mem params search element

/-- `modules_acl_check`. -/
def modulesAclCheck (env : AclEnv) (element : Connection) :
    List AclModule → Option (List AclGroup)
  | [] => some []
  | m :: modules =>
    match m.aclCheck env element with
    | none => none
    | some [] => modulesAclCheck env element modules
    | some acls => some acls

/-- **The connections agree in what their keys do not tell.** The names are terminated, so that a
module that prints them reads nothing else. -/
structure SameCriteria (c c' : Connection) : Prop where
  source : c.tracking.HasPorts → c.tracking.source = c'.tracking.source
  appsig : c.tracking.HasPorts → c.appSig = c'.appSig
  names : c.ifaceNfo.names = c'.ifaceNfo.names
  terminated : c.ifaceNfo.Terminated
  terminated' : c'.ifaceNfo.Terminated

theorem SameKey.aclCheck_eq {c c' : Connection} (h : SameKey c c') (hs : SameCriteria c c')
    (env : AclEnv) (m : AclModule) : m.aclCheck env c = m.aclCheck env c' := by
  cases m with
  | plaintext acllist =>
    have hsame := (h.plaintextAclCheck_eq_iff env.glob).2 ⟨hs.source, fun _ ↦ hs.names⟩
    exact congrArg some (hsame acllist)
  | ldap params search =>
    exact h.ldapAclCheck_eq env.conf env.order env.glob env.mem params search hs.appsig
      (fun _ ↦ hs.names) hs.terminated hs.terminated'

/-- **The same ACLs**, whatever the modules have loaded. -/
theorem SameKey.modulesAclCheck_eq {c c' : Connection} (h : SameKey c c') (hs : SameCriteria c c')
    (env : AclEnv) (modules : List AclModule) :
    modulesAclCheck env c modules = modulesAclCheck env c' modules := by
  induction modules with
  | nil => rfl
  | cons m modules ih =>
    rw [modulesAclCheck, modulesAclCheck, h.aclCheck_eq hs env m, ih]

end Nufw
