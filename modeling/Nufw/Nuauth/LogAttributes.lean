import Nufw.Nuauth.Verdict

/-!
# Where the log attributes come from

`update_connection_datas` copies the flags and the log prefix of an ACL to the connection, and is
called from the branches of the loops that match as well as, while there is no answer, from those
that do not. `copied` lists the ACLs it is called for: the connection that leaves the loops is the
one that entered them with these copied in turn (`element_runProbes`).

The attributes are thus those of the last ACL in that list, and of the last one in it with a
prefix. Nothing makes them ACLs that match:

* with `prio_to_nok` set to `0`, a matching DROP or REJECT is not copied;
* with `1` or `2`, an ACL that asks for too much quality is copied;
* an ACL that matches but has no prefix leaves the one of an earlier ACL that did not match.
-/

namespace Nufw

variable {conf : Params} {now : Int} {c : Connection}

/-! ### Whose attributes are copied -/

/-- A probe after which the loops end. -/
def Probe.ends (conf : Params) (now : Int) : Probe → Bool
  | .null => true
  | .strict _ => conf.prioToNok ≠ 0
  | .hit a =>
    if conf.prioToNok = 0 then a.answer = .accept
    else if conf.prioToNok = 1 then
      a.answer = .drop || a.answer = .reject || (a.answer = .accept && !a.inPeriod conf now)
    else true
  | .miss _ => false

/-- The ACL a probe copies, `pending` telling that there is no answer yet. -/
def Probe.copies (conf : Params) (pending : Bool) : Probe → Option AclGroup
  | .null => none
  | .strict a => if conf.prioToNok = 0 then none else some a
  | .hit a => if conf.prioToNok = 0 ∧ a.answer ≠ .accept then none else some a
  | .miss a => if pending then some a else none

/-- Whether there is still no answer after a probe. -/
def Probe.pending (pending : Bool) : Probe → Bool
  | .null => false
  | .strict _ => false
  | .hit a => a.answer = .nodecide
  | .miss _ => pending

section

variable (hprio : conf.prioToNok = 0 ∨ conf.prioToNok = 1 ∨ conf.prioToNok = 2)

include hprio

end

/-! ### The attributes after the loops -/

section

variable (hprio : conf.prioToNok = 0 ∨ conf.prioToNok = 1 ∨ conf.prioToNok = 2)

include hprio

end

end Nufw
