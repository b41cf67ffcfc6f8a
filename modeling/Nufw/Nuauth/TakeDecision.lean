import Nufw.Nuauth.Period

/-!
# Taking a decision

`take_decision.c` up to the point where the decision of a connection is known, and the modules
that give the packet its final mark. What is then done with the connection (answering the gateway,
leaving the hash) belongs to the core.

The locals of `take_decision` that its helpers change through pointers are gathered in
`DecisionVars`, together with the connection, whose log prefix and flags they overwrite.
-/

namespace Nufw

/-- `test_t`. -/
inductive Test where
  | nodecide
  | decided
  deriving DecidableEq, Repr

/-- What the helpers of `take_decision` share through pointers. -/
structure DecisionVars where
  answer : Decision
  test : Test
  expire : Int
  element : Connection

/-! ### The helpers -/

/-- `update_connection_datas`: the flags always, the log prefix when the ACL has one. -/
def updateConnectionDatas (element : Connection) (datas : AclGroup) : Connection :=
  { element with
    logPrefix := if datas.logPrefix.isSome then datas.logPrefix else element.logPrefix
    flags := datas.flags }

/-- The switch on `prio_to_nok` at the start of `update_decision`. -/
def applyPriority (conf : Params) (datas : AclGroup) (v : DecisionVars) : DecisionVars :=
  if conf.prioToNok = 1 then
    if v.answer = .drop ∨ v.answer = .reject then
      { v with test := .decided, element := updateConnectionDatas v.element datas }
    else { v with element := updateConnectionDatas v.element datas }
  else if conf.prioToNok = 0 then
    if v.answer = .accept then
      { v with test := .decided, element := updateConnectionDatas v.element datas }
    else v
  else if conf.prioToNok = 2 then
    { v with test := .decided, element := updateConnectionDatas v.element datas }
  else v

/-- The end of the period of an ACL, `-1` for an ACL without one. -/
def periodEnd (conf : Params) (now : Int) (datas : AclGroup) : Int :=
  match datas.period with
  | some period => getEndOfPeriodForTimeT conf period now
  | none => -1

/-- The end of `update_decision`: an ACCEPT answer is subject to the period of the ACL. -/
def applyPeriod (conf : Params) (now : Int) (datas : AclGroup) (v : DecisionVars) :
    DecisionVars :=
  if v.answer = .accept then
    let periodend := periodEnd conf now datas
    -- out of the period: this is not a correct time
    let v := if datas.period.isSome ∧ periodend = 0 then
        { v with
          answer := .nodecide
          test := .decided
          element := updateConnectionDatas v.element datas }
      else v
    if v.expire = -1 ∨ (periodend ≠ -1 ∧ v.expire ≠ -1 ∧ v.expire > periodend) then
      { v with expire := periodend }
    else v
  else v

/-- `update_decision`. -/
def updateDecision (conf : Params) (now : Int) (datas : AclGroup) (v : DecisionVars) :
    DecisionVars :=
  applyPeriod conf now datas (applyPriority conf datas v)

/-- What the three searches do with their result: a match gives the answer of the ACL, and a miss
only sets the log attributes while there is no answer. -/
def searchResult (conf : Params) (now : Int) (datas : AclGroup) (found : Bool)
    (v : DecisionVars) : DecisionVars :=
  if found then updateDecision conf now datas { v with answer := datas.answer }
  else if v.answer = .nodecide then { v with element := updateConnectionDatas v.element datas }
  else v

/-- `search_user_id_in_acl_groups`. -/
def searchUserIdInAclGroups (conf : Params) (now : Int) (datas : AclGroup) (userid : UInt32)
    (v : DecisionVars) : DecisionVars :=
  searchResult conf now datas (datas.users.contains userid) v

/-- Comparison of two elements by `g_slist_find`. Without `use_groups_name` the lists hold
identifiers stored in the pointers themselves. -/
def gidEqual : GroupData → GroupData → Bool
  | .gid a, .gid b => a == b
  | _, _ => false

/-- Comparison of two elements by `str_compare`. -/
def strCompare : GroupData → GroupData → Bool
  | .name a, .name b => a == b
  | _, _ => false

/-- The comparison in force. -/
def groupEqual (conf : Params) : GroupData → GroupData → Bool :=
  if conf.useGroupsName then strCompare else gidEqual

/-- `search_user_group_in_acl_groups` and `search_user_group_in_acl_groups_str`, which differ by
the comparison only. -/
def searchUserGroupInAclGroups (conf : Params) (now : Int) (datas : AclGroup)
    (userGroup : GroupData) (v : DecisionVars) : DecisionVars :=
  searchResult conf now datas (datas.groups.any (groupEqual conf · userGroup)) v

/-! ### The loops -/

/-- The loop of `take_decision` over the groups of the user. -/
def userGroupLoop (conf : Params) (now : Int) (datas : AclGroup) :
    List GroupData → DecisionVars → DecisionVars
  | [], v => v
  | g :: gs, v =>
    if v.test = .nodecide then
      userGroupLoop conf now datas gs
        (if datas.groups ≠ [] then searchUserGroupInAclGroups conf now datas g v else v)
    else v

/-- What `reject_authenticated_drop` makes of a refusal. -/
def rejectOrDrop (conf : Params) : Decision :=
  if conf.rejectAuthenticatedDrop then .reject else .drop

/-- The body of the loop over the ACLs. -/
def examineAcl (conf : Params) (now : Int) (acl : Option AclGroup) (v : DecisionVars) :
    DecisionVars :=
  match acl with
  | none => { v with answer := .drop, test := .decided }
  | some datas =>
    if datas.authQuality > v.element.authQuality then
      updateDecision conf now datas { v with answer := rejectOrDrop conf }
    else
      userGroupLoop conf now datas v.element.userGroups
        (searchUserIdInAclGroups conf now datas v.element.userId v)

/-- The loop of `take_decision` over the ACLs. -/
def aclLoop (conf : Params) (now : Int) : List (Option AclGroup) → DecisionVars → DecisionVars
  | [], v => v
  | acl :: acls, v =>
    if v.test = .nodecide then aclLoop conf now acls (examineAcl conf now acl v) else v

/-- The variables of `take_decision` before its loop. -/
def initialVars (element : Connection) : DecisionVars where
  answer := .nodecide
  test := .nodecide
  expire := -1
  element := { element with decision := .nodecide }

/-- The variables of `take_decision` after its loop. -/
def searchAcls (conf : Params) (now : Int) (element : Connection) : DecisionVars :=
  if element.aclGroups = [] then { initialVars element with answer := .drop }
  else aclLoop conf now element.aclGroups (initialVars element)

/-- The answer once the loop is over: no match and an expiration in the past are refusals. -/
def finalAnswer (conf : Params) (v : DecisionVars) : Decision :=
  let answer := if v.answer = .nodecide then rejectOrDrop conf else v.answer
  if v.expire = 0 then rejectOrDrop conf else answer

/-- `take_decision` down to the assignments of `decision` and `expire`. -/
def decideElement (conf : Params) (now : Int) (element : Connection) : Connection :=
  let v := searchAcls conf now element
  { v.element with decision := finalAnswer conf v, expire := v.expire }

/-! ### The mark -/

/-- `SHL32`. -/
def shl32 (x n : UInt32) : UInt32 :=
  if n.toInt32 ≤ 0 then x else if n < 32 then x <<< n else 0

/-- `SHR32` of the flags of a connection: they are a `gint`, so the shift keeps the sign. -/
def sar32 (x n : UInt32) : UInt32 :=
  if n.toInt32 ≤ 0 then x else if n < 32 then (x.toInt32 >>> n.toInt32).toUInt32 else 0

/-- The mark written by `mark_group` and `mark_field`. -/
def MarkWindow.write (config : MarkWindow) (mark selected : UInt32) : UInt32 :=
  (mark &&& config.mask) ||| ((selected <<< config.shift) &&& ~~~config.mask)

/-- The mark of the first entry that matches, or the default one. -/
def MarkWindow.select {α : Type} (config : MarkWindow) (p : α → Bool)
    (entries : List (MarkEntry α)) : UInt32 :=
  ((entries.find? fun e ↦ p e.key).map MarkEntry.mark).getD config.defaultMark

/-- The mark `finalize_packet` of a module gives to a connection. -/
def FinalizeModule.mark (conn : Connection) : FinalizeModule → UInt32
  | .markUid => (conn.userId &&& 0xFFFF) ||| (conn.mark &&& 0xffff0000)
  | .markGroup config groups =>
    config.write conn.mark
      (config.select (fun id ↦ conn.userGroups.any (gidEqual · (.gid id))) groups)
  | .markField config type fields =>
    if type = 0 then config.write conn.mark (config.select (fun p ↦ p conn.appName) fields)
    else if type = 1 then config.write conn.mark (config.select (fun p ↦ p conn.osSysname) fields)
    else conn.mark
  | .markFlag markShift flagShift markMask =>
    (conn.mark &&& markMask) |||
      (shl32 (sar32 conn.flags flagShift) markShift &&& ~~~markMask)

/-- `modules_finalize_packet`: each module in turn sets the mark. -/
def modulesFinalizePacket (conf : Params) (conn : Connection) : Connection :=
  conf.finalizeModules.foldl (fun c m ↦ { c with mark := m.mark c }) conn

/-- The connection as `take_decision` hands it on: decided, then finalized by the modules. -/
def decidedElement (conf : Params) (now : Int) (element : Connection) : Connection :=
  modulesFinalizePacket conf (decideElement conf now element)

end Nufw
