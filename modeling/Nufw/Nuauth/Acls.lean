import Nufw.Nuauth.AuthHash

/-!
# Keys of the ACL cache

`acls.c`: what identifies the ACLs of a connection in the cache, the comparison and the hash of
these keys. The comparison of the interfaces looks only at the names that its first argument has,
so that it is not symmetric.
-/

namespace Nufw

/-- `struct acl_key`. -/
structure AclKey where
  aclTracking : Tracking
  sysname : Option Bytes
  release : Option Bytes
  version : Option Bytes
  appname : Option Bytes
  appsig : Option Bytes
  ifaceNfo : IfaceNfo
  deriving DecidableEq

/-- `acl_duplicate_key`: the source port is normalised, and the signature is not copied. -/
def aclDuplicateKey (kdatas : AclKey) : AclKey :=
  { kdatas with
    aclTracking := { kdatas.aclTracking with source := 1024 }
    appsig := none }

/-- `acl_create_and_alloc_key`. -/
def aclCreateAndAllocKey (kdatas : Connection) : AclKey :=
  aclDuplicateKey
    { aclTracking := kdatas.tracking
      sysname := kdatas.osSysname
      release := kdatas.osRelease
      version := kdatas.osVersion
      appname := kdatas.appName
      appsig := kdatas.appSig
      ifaceNfo := kdatas.ifaceNfo }

/-- `strcmp_null` finds a difference. A `Bytes` has no NUL. -/
def strcmpNull (a b : Option Bytes) : Bool := a ≠ b

/-- The characters of an interface name up to the first NUL, as `strncmp` sees them. -/
def ifaceChars (name : Vector UInt8 16) : Bytes := name.toList.takeWhile (· ≠ 0)

/-- `compare_iface`: the two names do not differ. -/
def compareIface (a b : Vector UInt8 16) : Bool :=
  if a.get 0 ≠ 0 then b.get 0 ≠ 0 ∧ ifaceChars a = ifaceChars b else true

/-- `compare_iface_nfo_t` returns `NU_EXIT_OK`. -/
def compareIfaceNfo (a b : IfaceNfo) : Bool :=
  compareIface a.indev b.indev && compareIface a.outdev b.outdev &&
    compareIface a.physindev b.physindev && compareIface a.physoutdev b.physoutdev

/-- `compare_acls`. -/
def compareAcls (aclKey1 aclKey2 : AclKey) : Bool :=
  trackingEqual aclKey1.aclTracking aclKey2.aclTracking &&
    !strcmpNull aclKey1.appname aclKey2.appname && !strcmpNull aclKey1.sysname aclKey2.sysname &&
    !strcmpNull aclKey1.release aclKey2.release && !strcmpNull aclKey1.version aclKey2.version &&
    compareIfaceNfo aclKey1.ifaceNfo aclKey2.ifaceNfo

/-- The memory of a `tracking_t` up to the destination port. -/
def Tracking.memory (order : ByteOrder) (t : Tracking) : Memory :=
  let dest : Bytes := [(t.dest >>> 8).toUInt8, t.dest.toUInt8]
  let bytes := t.saddr.toList ++ t.daddr.toList ++ [t.protocol, t.padding] ++
    match order with
    | .big => dest
    | .little => dest.reverse
  fun i ↦ bytes.getD i 0

/-- `hash_acl`. -/
def hashAcl (order : ByteOrder) (key : AclKey) : UInt32 :=
  jhash2 ((List.range 9).map fun i ↦ (key.aclTracking.memory order).host32 order (4 * i))
    key.aclTracking.dest.toUInt32

/-! ### The comparison

On the keys of connections `compare_acls` is reflexive and transitive, and keys that it finds equal
have the same hash. It is symmetric for keys that have the same interface names set, but not
otherwise. -/

/-- The key is that of a connection whose tracking a parser has left. -/
def AclKey.Built (key : AclKey) : Prop :=
  ∃ kdatas : Connection, kdatas.tracking.Canonical ∧ aclCreateAndAllocKey kdatas = key

/-- Building a key once more changes nothing. -/
theorem AclKey.Built.duplicate {key : AclKey} (h : key.Built) : aclDuplicateKey key = key := by
  obtain ⟨kdatas, -, rfl⟩ := h
  rfl

theorem AclKey.Built.trackingEqual_iff {a b : AclKey} (ha : a.Built) (hb : b.Built) :
    trackingEqual a.aclTracking b.aclTracking = true ↔ a.aclTracking = b.aclTracking := by
  obtain ⟨c, hc, rfl⟩ := ha
  obtain ⟨d, hd, rfl⟩ := hb
  refine trackingEqual_iff_eq hc.protocol_mem (hc.padding_eq.trans hd.padding_eq.symm)
    (fun hp htcp ↦ ?_) fun hp hicmp ↦ ⟨rfl, ?_⟩
  · obtain ⟨ht, hc'⟩ := hc.type_code_eq htcp
    obtain ⟨ht', hd'⟩ := hd.type_code_eq (hp ▸ htcp)
    exact ⟨ht.trans ht'.symm, hc'.trans hd'.symm⟩
  · exact (hc.ports_eq hicmp).2.trans (hd.ports_eq (hp ▸ hicmp)).2.symm

theorem compareIface_refl (a : Vector UInt8 16) : compareIface a a = true := by
  rw [compareIface]
  split_ifs with h
  · simpa using h
  · rfl

theorem compareIface_trans {a b c : Vector UInt8 16} (h : compareIface a b = true)
    (h' : compareIface b c = true) : compareIface a c = true := by
  rw [compareIface] at h h' ⊢
  split_ifs at h ⊢ with ha
  · obtain ⟨hb, hab⟩ := of_decide_eq_true h
    rw [if_pos hb] at h'
    obtain ⟨hc, hbc⟩ := of_decide_eq_true h'
    exact decide_eq_true ⟨hc, hab.trans hbc⟩
  · rfl

theorem compareIfaceNfo_iff {a b : IfaceNfo} : compareIfaceNfo a b = true ↔
    compareIface a.indev b.indev = true ∧ compareIface a.outdev b.outdev = true ∧
      compareIface a.physindev b.physindev = true ∧
        compareIface a.physoutdev b.physoutdev = true := by
  simp only [compareIfaceNfo, Bool.and_eq_true, and_assoc]

theorem compareAcls_iff {a b : AclKey} : compareAcls a b = true ↔
    trackingEqual a.aclTracking b.aclTracking = true ∧ a.appname = b.appname ∧
      a.sysname = b.sysname ∧ a.release = b.release ∧ a.version = b.version ∧
        compareIfaceNfo a.ifaceNfo b.ifaceNfo = true := by
  simp [compareAcls, strcmpNull, and_assoc]

theorem compareAcls_refl {a : AclKey} (h : a.Built) : compareAcls a a = true := by
  refine compareAcls_iff.2 ⟨(h.trackingEqual_iff h).2 rfl, rfl, rfl, rfl, rfl, ?_⟩
  exact compareIfaceNfo_iff.2 ⟨compareIface_refl _, compareIface_refl _, compareIface_refl _,
    compareIface_refl _⟩

theorem compareAcls_trans {a b c : AclKey} (ha : a.Built) (hb : b.Built) (hc : c.Built)
    (h : compareAcls a b = true) (h' : compareAcls b c = true) : compareAcls a c = true := by
  obtain ⟨htracking, happ, hsys, hrel, hver, hiface⟩ := compareAcls_iff.1 h
  obtain ⟨htracking', happ', hsys', hrel', hver', hiface'⟩ := compareAcls_iff.1 h'
  obtain ⟨hin, hout, hphysin, hphysout⟩ := compareIfaceNfo_iff.1 hiface
  obtain ⟨hin', hout', hphysin', hphysout'⟩ := compareIfaceNfo_iff.1 hiface'
  rw [ha.trackingEqual_iff hb] at htracking
  rw [hb.trackingEqual_iff hc] at htracking'
  refine compareAcls_iff.2 ⟨(ha.trackingEqual_iff hc).2 (htracking.trans htracking'),
    happ.trans happ', hsys.trans hsys', hrel.trans hrel', hver.trans hver', ?_⟩
  exact compareIfaceNfo_iff.2 ⟨compareIface_trans hin hin', compareIface_trans hout hout',
    compareIface_trans hphysin hphysin', compareIface_trans hphysout hphysout'⟩

theorem hashAcl_eq_of_compareAcls (order : ByteOrder) {a b : AclKey} (ha : a.Built) (hb : b.Built)
    (h : compareAcls a b = true) : hashAcl order a = hashAcl order b := by
  have htracking := (ha.trackingEqual_iff hb).1 (compareAcls_iff.1 h).1
  rw [hashAcl, hashAcl, htracking]

end Nufw
