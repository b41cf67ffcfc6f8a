import Nufw.Nuauth.AclKeys

/-!
# ACLs in a text file

`plaintext.c`: the ACLs that have been read from a file, and `acl_check`, which gives those that
match a connection, in the order of the file. A criterion that an ACL does not have is not checked.

An ACL may name source ports, which the key of the ACL cache does not have, and interfaces, which it
has but does not always compare. `plaintextAclCheck_eq_iff` says that this is all: the connections
of equal keys get the same ACLs from every file if they have the same source port and the same
interface names, and only then.

The patterns of applications are matched by GLib, `glob` here.
-/

namespace Nufw

/-! ### ACLs -/

/-- `struct plaintext_ip`. -/
structure PlaintextIp where
  addr : In6Addr
  netmask : In6Addr

/-- `struct plaintext_ports`. -/
structure PlaintextPorts where
  firstport : UInt16
  nbports : Int

/-- `struct plaintext_os`. -/
structure PlaintextOs where
  sysname : Bytes
  release : Option Bytes
  version : Option Bytes

/-- `struct plaintext_acl`, as `read_acl_list` keeps it: for TCP, UDP or ICMP. -/
structure PlaintextAcl where
  decision : Decision
  proto : UInt8
  proto_mem : proto = ipprotoTcp ∨ proto = ipprotoUdp ∨ proto = ipprotoIcmp
  users : List UInt32
  groups : List GroupData
  /-- The patterns of `struct plaintext_app`. -/
  apps : List Bytes
  os : List PlaintextOs
  types : List Int
  srcIp : List PlaintextIp
  srcPorts : List PlaintextPorts
  dstIp : List PlaintextIp
  dstPorts : List PlaintextPorts
  ifaceNfo : IfaceNfo
  period : Option Bytes
  logPrefix : Option Bytes
  flags : UInt32
  authQuality : Int

/-! ### Matching -/

/-- `tolower` in the C locale. -/
def toLower (b : UInt8) : UInt8 := if 65 ≤ b ∧ b ≤ 90 then b + 32 else b

/-- `strcasecmp` returns zero. -/
def strcasecmp (a b : Bytes) : Bool := a.map toLower = b.map toLower

/-- `compare_ipv6_with_mask` returns zero. -/
def compareIpv6WithMask (addr1 addr2 mask : In6Addr) : Bool :=
  addr1 = Vector.zipWith (· &&& ·) addr2 mask

/-- `match_ip`. -/
def matchIp (ipList : List PlaintextIp) (addr : In6Addr) : Bool :=
  ipList.isEmpty || ipList.any fun item ↦ compareIpv6WithMask item.addr addr item.netmask

/-- The port is one of those of the ACL, if it has any. A range that starts at zero has them all. -/
def matchPorts (ports : List PlaintextPorts) (port : UInt16) : Bool :=
  ports.isEmpty || ports.any fun p ↦ p.firstport = 0 ∨
    (p.firstport ≤ port ∧ (port.toNat : Int) ≤ p.firstport.toNat + p.nbports)

/-- One system of an ACL against that of the user. What is not known on one side is not compared. -/
def PlaintextOs.accepts (os : PlaintextOs) (sysname : Bytes) (release version : Option Bytes) :
    Bool :=
  strcasecmp os.sysname sysname &&
    match release, os.release with
    | some release, some release' =>
      strcasecmp release' release &&
        match version, os.version with
        | some version, some version' => strcasecmp version' version
        | _, _ => true
    | _, _ => true

/-- The checks of `acl_check` on one ACL, in their order. -/
def PlaintextAcl.accepts (glob : Bytes → Bytes → Bool) (acl : PlaintextAcl)
    (element : Connection) : Bool :=
  element.tracking.protocol = acl.proto &&
    (if element.tracking.protocol = ipprotoIcmp then
      acl.types.any fun type ↦ type = element.tracking.type.toNat
    else
      matchPorts acl.dstPorts element.tracking.dest &&
        matchPorts acl.srcPorts element.tracking.source) &&
    matchIp acl.srcIp element.tracking.saddr && matchIp acl.dstIp element.tracking.daddr &&
    compareIfaceNfo acl.ifaceNfo element.ifaceNfo &&
    (match element.osSysname with
      | some sysname => acl.os.isEmpty ||
          acl.os.any fun os ↦ os.accepts sysname element.osRelease element.osVersion
      | none => true) &&
    (match element.appName with
      | some appName => acl.apps.isEmpty || acl.apps.any fun app ↦ glob app appName
      | none => true)

/-- The copy of an ACL that is returned. -/
def PlaintextAcl.group (acl : PlaintextAcl) : AclGroup where
  users := acl.users
  groups := acl.groups
  answer := acl.decision
  period := acl.period
  logPrefix := acl.logPrefix
  flags := acl.flags
  authQuality := acl.authQuality

/-- `acl_check` of `plaintext.c`. -/
def plaintextAclCheck (glob : Bytes → Bytes → Bool) (acllist : List PlaintextAcl)
    (element : Connection) : List AclGroup :=
  (acllist.filter fun acl ↦ acl.accepts glob element).map PlaintextAcl.group

/-! ### Equal keys -/

/-- The four interface names, as strings. -/
def IfaceNfo.names (a : IfaceNfo) : Bytes × Bytes × Bytes × Bytes :=
  (ifaceChars a.indev, ifaceChars a.physindev, ifaceChars a.outdev, ifaceChars a.physoutdev)

theorem ifaceChars_eq_nil_iff {a : Vector UInt8 16} : ifaceChars a = [] ↔ a.get 0 = 0 := by
  obtain ⟨⟨l⟩, hl⟩ := a
  cases l with
  | nil => cases hl
  | cons b l =>
    show (b :: l).takeWhile (· ≠ 0) = [] ↔ b = 0
    by_cases hb : b = 0
    · simp [hb]
    · simp [hb]

/-- The second argument of `compare_iface` is only read as a string. -/
theorem compareIface_congr {b b' : Vector UInt8 16} (h : ifaceChars b = ifaceChars b')
    (a : Vector UInt8 16) : compareIface a b = compareIface a b' := by
  have hset : b.get 0 = 0 ↔ b'.get 0 = 0 := by
    rw [← ifaceChars_eq_nil_iff, ← ifaceChars_eq_nil_iff, h]
  rw [compareIface, compareIface]
  simp only [ne_eq, hset, h]

theorem compareIfaceNfo_congr {b b' : IfaceNfo} (h : b.names = b'.names) (a : IfaceNfo) :
    compareIfaceNfo a b = compareIfaceNfo a b' := by
  simp only [IfaceNfo.names, Prod.mk.injEq] at h
  obtain ⟨hin, hphysin, hout, hphysout⟩ := h
  rw [compareIfaceNfo, compareIfaceNfo, compareIface_congr hin, compareIface_congr hout,
    compareIface_congr hphysin, compareIface_congr hphysout]

/-- Names that match both ways are the same. -/
theorem ifaceChars_eq_of_compareIface {a b : Vector UInt8 16} (h : compareIface a b = true)
    (h' : compareIface b a = true) : ifaceChars a = ifaceChars b := by
  rw [compareIface] at h h'
  split_ifs at h with ha
  · exact (of_decide_eq_true h).2
  · split_ifs at h' with hb
    · exact absurd (of_decide_eq_true h').1 ha
    · rw [ifaceChars_eq_nil_iff.2 (not_not.1 ha), ifaceChars_eq_nil_iff.2 (not_not.1 hb)]

theorem names_eq_of_compareIfaceNfo {a b : IfaceNfo} (h : compareIfaceNfo a b = true)
    (h' : compareIfaceNfo b a = true) : a.names = b.names := by
  obtain ⟨hin, hout, hphysin, hphysout⟩ := compareIfaceNfo_iff.1 h
  obtain ⟨hin', hout', hphysin', hphysout'⟩ := compareIfaceNfo_iff.1 h'
  rw [IfaceNfo.names, IfaceNfo.names, ifaceChars_eq_of_compareIface hin hin',
    ifaceChars_eq_of_compareIface hout hout', ifaceChars_eq_of_compareIface hphysin hphysin',
    ifaceChars_eq_of_compareIface hphysout hphysout']

theorem compareIfaceNfo_refl (a : IfaceNfo) : compareIfaceNfo a a = true :=
  compareIfaceNfo_iff.2 ⟨compareIface_refl _, compareIface_refl _, compareIface_refl _,
    compareIface_refl _⟩

/-- What two connections have in common whose keys are equal. -/
structure SameKey (c c' : Connection) : Prop where
  saddr : c.tracking.saddr = c'.tracking.saddr
  daddr : c.tracking.daddr = c'.tracking.daddr
  protocol : c.tracking.protocol = c'.tracking.protocol
  dest : c.tracking.dest = c'.tracking.dest
  type : c.tracking.type = c'.tracking.type
  code : c.tracking.code = c'.tracking.code
  sysname : c.osSysname = c'.osSysname
  release : c.osRelease = c'.osRelease
  version : c.osVersion = c'.osVersion
  appname : c.appName = c'.appName
  ifaces : compareIfaceNfo c.ifaceNfo c'.ifaceNfo = true

theorem sameKey_of_compareAcls {c c' : Connection} (hc : c.tracking.Canonical)
    (hc' : c'.tracking.Canonical)
    (h : compareAcls (aclCreateAndAllocKey c) (aclCreateAndAllocKey c') = true) : SameKey c c' := by
  obtain ⟨htracking, happ, hsys, hrel, hver, hiface⟩ := compareAcls_iff.1 h
  have hbuilt : (aclCreateAndAllocKey c).Built := ⟨c, hc, rfl⟩
  have hbuilt' : (aclCreateAndAllocKey c').Built := ⟨c', hc', rfl⟩
  -- the keys differ from the trackings in the source port only
  have heq := (hbuilt.trackingEqual_iff hbuilt').1 htracking
  simp only [aclCreateAndAllocKey, aclDuplicateKey, Tracking.mk.injEq] at heq
  obtain ⟨hsaddr, hdaddr, hprotocol, -, hdest, -, htype, hcode⟩ := heq
  exact ⟨hsaddr, hdaddr, hprotocol, hdest, htype, hcode, hsys, hrel, hver, happ, hiface⟩

/-- The protocol has ports. -/
def Tracking.HasPorts (t : Tracking) : Prop := t.protocol = ipprotoTcp ∨ t.protocol = ipprotoUdp

/-- The protocol is one that the ACLs of a file can be for. -/
def Tracking.Ruled (t : Tracking) : Prop :=
  t.protocol = ipprotoTcp ∨ t.protocol = ipprotoUdp ∨ t.protocol = ipprotoIcmp

theorem Tracking.HasPorts.ruled {t : Tracking} (h : t.HasPorts) : t.Ruled :=
  h.elim Or.inl fun h ↦ Or.inr (Or.inl h)

theorem Tracking.Ruled.hasPorts {t : Tracking} (h : t.Ruled) (hne : t.protocol ≠ ipprotoIcmp) :
    t.HasPorts :=
  h.elim Or.inl fun h ↦ h.elim Or.inr fun h ↦ absurd h hne

theorem Tracking.HasPorts.ne_icmp {t : Tracking} (h : t.HasPorts) : t.protocol ≠ ipprotoIcmp := by
  rcases h with h | h <;> rw [h] <;> decide

/-- What an ACL can read of two connections of equal keys is the same. -/
theorem SameKey.accepts_eq {c c' : Connection} (h : SameKey c c') {glob : Bytes → Bytes → Bool}
    (hsource : c.tracking.HasPorts → c.tracking.source = c'.tracking.source)
    (hnames : c.tracking.Ruled → c.ifaceNfo.names = c'.ifaceNfo.names) (acl : PlaintextAcl) :
    acl.accepts glob c = acl.accepts glob c' := by
  rw [PlaintextAcl.accepts, PlaintextAcl.accepts, ← h.protocol]
  by_cases hproto : c.tracking.protocol = acl.proto
  · have hruled : c.tracking.Ruled := by
      rw [Tracking.Ruled, hproto]
      exact acl.proto_mem
    rw [← h.saddr, ← h.daddr, ← h.dest, ← h.type, ← h.sysname, ← h.release, ← h.version,
      ← h.appname, compareIfaceNfo_congr (hnames hruled)]
    by_cases hicmp : c.tracking.protocol = ipprotoIcmp
    · simp only [hicmp, ↓reduceIte]
    · rw [hsource (hruled.hasPorts hicmp)]
  · simp only [hproto, decide_false, Bool.false_and]

/-- An ACL for the protocol of a connection, with source ports and interfaces and no other
criterion. -/
def PlaintextAcl.probe (t : Tracking) (h : t.Ruled) (srcPorts : List PlaintextPorts)
    (ifaceNfo : IfaceNfo) : PlaintextAcl where
  decision := .accept
  proto := t.protocol
  proto_mem := h
  users := [0]
  groups := []
  apps := []
  os := []
  types := [t.type.toNat]
  srcIp := []
  srcPorts := srcPorts
  dstIp := []
  dstPorts := []
  ifaceNfo := ifaceNfo
  period := none
  logPrefix := none
  flags := 0
  authQuality := 0

theorem PlaintextAcl.probe_accepts {t : Tracking} (h : t.Ruled) (srcPorts : List PlaintextPorts)
    (ifaceNfo : IfaceNfo) (glob : Bytes → Bytes → Bool) {c : Connection}
    (hprotocol : c.tracking.protocol = t.protocol) (htype : c.tracking.type = t.type) :
    (probe t h srcPorts ifaceNfo).accepts glob c =
      ((if c.tracking.protocol = ipprotoIcmp then true
        else matchPorts srcPorts c.tracking.source) &&
        compareIfaceNfo ifaceNfo c.ifaceNfo) := by
  rw [PlaintextAcl.accepts]
  cases c.osSysname <;> cases c.appName <;>
    simp [probe, matchIp, matchPorts, hprotocol, htype]

/-- One ACL tells two connections apart. -/
theorem accepts_eq_of_plaintextAclCheck {glob : Bytes → Bytes → Bool} {c c' : Connection}
    {acl : PlaintextAcl}
    (h : plaintextAclCheck glob [acl] c = plaintextAclCheck glob [acl] c') :
    acl.accepts glob c = acl.accepts glob c' := by
  rw [plaintextAclCheck, plaintextAclCheck] at h
  cases hc : acl.accepts glob c <;> cases hc' : acl.accepts glob c' <;> simp [hc, hc'] at h ⊢

/-- One port against a range that has only one. -/
theorem matchPorts_singleton {port port' : UInt16} (h : port ≠ 0) :
    matchPorts [⟨port, 0⟩] port' = true ↔ port' = port := by
  have hle : port ≤ port' ↔ port.toNat ≤ port'.toNat := UInt16.le_iff_toNat_le
  simp only [matchPorts, List.isEmpty_cons, List.any_cons, List.any_nil, Bool.false_or,
    Bool.or_false, decide_eq_true_eq, h, false_or, hle, add_zero]
  rw [← UInt16.toNat_inj]
  omega

/-- **What the files can tell apart.** Connections of equal keys get the same ACLs from every file
just when they have the same source port, if their protocol has ports, and the same interface names,
if ACLs can be for their protocol. -/
theorem SameKey.plaintextAclCheck_eq_iff {c c' : Connection} (h : SameKey c c')
    (glob : Bytes → Bytes → Bool) :
    (∀ acllist, plaintextAclCheck glob acllist c = plaintextAclCheck glob acllist c') ↔
      (c.tracking.HasPorts → c.tracking.source = c'.tracking.source) ∧
        (c.tracking.Ruled → c.ifaceNfo.names = c'.ifaceNfo.names) := by
  constructor
  · intro hsame
    have hprobe : ∀ (hruled : c.tracking.Ruled) srcPorts ifaceNfo,
        (PlaintextAcl.probe c.tracking hruled srcPorts ifaceNfo).accepts glob c =
          (PlaintextAcl.probe c.tracking hruled srcPorts ifaceNfo).accepts glob c' :=
      fun _ _ _ ↦ accepts_eq_of_plaintextAclCheck (hsame _)
    refine ⟨fun hports ↦ ?_, fun hruled ↦ ?_⟩
    · -- an ACL for one of the ports, which is not zero
      have hne := hports.ne_icmp
      have hmatch : ∀ srcPorts, matchPorts srcPorts c.tracking.source =
          matchPorts srcPorts c'.tracking.source := by
        intro srcPorts
        have hp := hprobe hports.ruled srcPorts IfaceNfo.zero
        have hzero : ∀ b, compareIfaceNfo IfaceNfo.zero b = true := fun _ ↦ rfl
        rw [PlaintextAcl.probe_accepts _ _ _ _ rfl rfl,
          PlaintextAcl.probe_accepts _ _ _ _ h.protocol.symm h.type.symm, if_neg hne,
          if_neg (h.protocol ▸ hne), hzero, hzero, Bool.and_true, Bool.and_true] at hp
        exact hp
      by_cases hzero : c.tracking.source = 0
      · by_contra hdiffer
        have hnonzero : c'.tracking.source ≠ 0 := fun hzero' ↦ hdiffer (hzero.trans hzero'.symm)
        refine hdiffer ((matchPorts_singleton hnonzero).1 ?_)
        rw [hmatch]
        exact (matchPorts_singleton hnonzero).2 rfl
      · refine ((matchPorts_singleton hzero).1 ?_).symm
        rw [← hmatch]
        exact (matchPorts_singleton hzero).2 rfl
    · -- an ACL for the interfaces of the second connection
      have hp := hprobe hruled [] c'.ifaceNfo
      have hany : ∀ port, matchPorts [] port = true := fun _ ↦ rfl
      rw [PlaintextAcl.probe_accepts _ _ _ _ rfl rfl,
        PlaintextAcl.probe_accepts _ _ _ _ h.protocol.symm h.type.symm, hany, hany, ite_self,
        ite_self, Bool.true_and, Bool.true_and, compareIfaceNfo_refl] at hp
      exact names_eq_of_compareIfaceNfo h.ifaces hp
  · rintro ⟨hsource, hnames⟩ acllist
    rw [plaintextAclCheck, plaintextAclCheck]
    exact congrArg _ (List.filter_congr fun acl _ ↦ h.accepts_eq hsource hnames acl)

end Nufw
