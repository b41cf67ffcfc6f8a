import Nufw.Nuauth.AclSections
import Nufw.Nuauth.CidrLists

/-!
# Restrictions that are written in a file of ACLs

A section of the file may restrict its ACL to addresses and ports. `acl_check` takes an empty list
for no restriction, and the functions that read the lists do not all refuse what they cannot use:
`parse_ports` drops an item that is not a number at the end of a list, and a range that goes down
anywhere; `parse_ips` takes an empty text for a list without items. A first port is kept in 16 bits,
where zero stands for all ports, and the length of a mask in an `int`.

So an accepted file keeps its restrictions if and only if each of its lists has an item that can be
used, and no item stands for more than is written (`restrictions_kept_iff`).
-/

namespace Nufw

variable {conf : Params}

/-! ### What is written -/

/-- A number as it is written, and what follows. -/
def writtenNumber (text : Bytes) : Option (Int × Bytes) :=
  (scanNumber text).map fun (negative, n, rest) ↦ (if negative then -(n : Int) else n, rest)

/-- The first and the last port of an item. -/
def writtenPorts (item : Bytes) : Option (Int × Int) :=
  (writtenNumber item).map fun (a, rest) ↦
    (a, if rest.head? = some 45 then ((writtenNumber (rest.drop 1)).map Prod.fst).getD a else a)

/-- The item names the port. A zero in front stands for all ports. -/
def NamesPort (item : Bytes) (port : UInt16) : Prop :=
  ∃ a b, writtenPorts item = some (a, b) ∧ (a = 0 ∨ (a ≤ port.toNat ∧ port.toNat ≤ b))

/-- An address, and where its own bits start. -/
def writtenAddress (text : Bytes) : Option (In6Addr × ℕ) :=
  match inetPton4 text with
  | some addr => some (uint32ToIpv6 addr, 96)
  | none => (inetPton6 text).map fun addr ↦ (addr, 0)

/-- The network of an item: its address, and the number of bits that count. -/
def writtenNetwork (item : Bytes) : Option (In6Addr × ℕ) :=
  match strchr (stripLine item) 47 with
  | some (text, length) =>
    (writtenNumber length).bind fun (n, _) ↦ (writtenAddress text).map fun (addr, start) ↦
      (addr, start + min n.toNat (128 - start))
  | none => (writtenAddress (stripLine item)).map fun (addr, _) ↦ (addr, 128)

/-- The item names the address. -/
def NamesAddr (item : Bytes) (addr : In6Addr) : Prop :=
  ∃ net bits, writtenNetwork item = some (net, bits) ∧ AgreeBits bits net addr

/-! ### What is kept -/

/-- The ports that two numbers stand for when they are kept. -/
def KeptPort (a b : Int) (port : UInt16) : Prop :=
  a % 2 ^ 16 = 0 ∨ (a % 2 ^ 16 ≤ port.toNat ∧ port.toNat ≤ a % 2 ^ 16 + (b - a))

/-- The ports that an item stands for. -/
def StandsForPort (item : Bytes) (port : UInt16) : Prop :=
  ∃ a last, scanPorts item = some (a, last) ∧ KeptPort a (last.getD a) port

/-- The addresses that an item stands for. -/
def StandsForAddr (item : Bytes) (addr : In6Addr) : Prop :=
  ∃ net mask, scanIp item = some (net, mask) ∧ AgreeBits (min (max mask 0) 128).toNat net addr

theorem keptPort_iff {a b : Int} (ha : 0 ≤ a) (ha' : a < 2 ^ 16) (port : UInt16) :
    KeptPort a b port ↔ a = 0 ∨ (a ≤ port.toNat ∧ port.toNat ≤ b) := by
  rw [KeptPort]
  omega

theorem scanDecimal_bounds {text rest : Bytes} {n : Int} (h : scanDecimal text = some (n, rest)) :
    -2 ^ 31 ≤ n ∧ n < 2 ^ 31 := by
  obtain ⟨⟨negative, m, rest'⟩, -, heq⟩ := Option.map_eq_some_iff.1 h
  obtain ⟨rfl, -⟩ := Prod.mk.inj heq
  exact ⟨Int.le_bmod (by decide), Int.bmod_lt (by decide)⟩

/-- Both numbers of an item fit into an `int`. -/
theorem scanPorts_bounds {item : Bytes} {a : Int} {last : Option Int}
    (h : scanPorts item = some (a, last)) :
    (-2 ^ 31 ≤ a ∧ a < 2 ^ 31) ∧ ∀ b, last = some b → -2 ^ 31 ≤ b ∧ b < 2 ^ 31 := by
  obtain ⟨⟨a', rest⟩, hdecimal, heq⟩ := Option.map_eq_some_iff.1 h
  obtain ⟨rfl, hlast⟩ := Prod.mk.inj heq
  refine ⟨scanDecimal_bounds hdecimal, ?_⟩
  rintro b rfl
  split at hlast
  · obtain ⟨⟨b', rest'⟩, hdecimal', rfl⟩ := Option.map_eq_some_iff.1 hlast
    exact scanDecimal_bounds hdecimal'
  · cases hlast

/-- What is kept of an item: its first port, and the number of those behind it. -/
theorem portsOf_eq_some_iff {item : Bytes} {p : PlaintextPorts} :
    portsOf item = some p ↔ ∃ a last, scanPorts item = some (a, last) ∧ a ≤ last.getD a ∧
      last.getD a - a < 2 ^ 31 ∧ p = ⟨UInt16.ofInt a, last.getD a - a⟩ := by
  have hitem : ∀ a last, scanPorts item = some (a, last) → (itemPorts a last = some p ↔
      a ≤ last.getD a ∧ last.getD a - a < 2 ^ 31 ∧ p = ⟨UInt16.ofInt a, last.getD a - a⟩) := by
    intro a last hscan
    obtain ⟨ha, hlast⟩ := scanPorts_bounds hscan
    cases last with
    | none => simp [itemPorts, eq_comm]
    | some b =>
      have hb := hlast b rfl
      simp only [itemPorts, Option.getD_some]
      by_cases hle : a ≤ b
      · by_cases hsmall : b - a < 2 ^ 31
        · have hmod : (b - a).bmod (2 ^ 32) = b - a := Int.bmod_eq_of_le (by omega) (by omega)
          rw [if_pos hle, hmod, if_pos (by omega), Option.some.injEq]
          simp only [hle, hsmall, true_and, eq_comm]
        · have hmod : (b - a).bmod (2 ^ 32) < 0 := by
            rw [Int.bmod_def]
            split <;> omega
          rw [if_pos hle, if_neg (by omega)]
          exact iff_of_false (Option.some_ne_none p).symm fun h ↦ hsmall h.2.1
      · rw [if_neg hle, if_neg (by omega)]
        exact iff_of_false (Option.some_ne_none p).symm fun h ↦ hle h.1
  rw [portsOf, Option.bind_eq_some_iff]
  constructor
  · rintro ⟨⟨a, last⟩, hscan, h⟩
    exact ⟨a, last, hscan, (hitem a last hscan).1 h⟩
  · rintro ⟨a, last, hscan, h⟩
    exact ⟨(a, last), hscan, (hitem a last hscan).2 h⟩

/-- What `acl_check` compares a port with. -/
theorem portsOf_matches_iff {item : Bytes} {p : PlaintextPorts} (h : portsOf item = some p)
    (port : UInt16) :
    (p.firstport = 0 ∨ (p.firstport ≤ port ∧ (port.toNat : Int) ≤ p.firstport.toNat + p.nbports)) ↔
      StandsForPort item port := by
  obtain ⟨a, last, hscan, -, -, rfl⟩ := portsOf_eq_some_iff.1 h
  have hstands : StandsForPort item port ↔ KeptPort a (last.getD a) port := by
    constructor
    · rintro ⟨a', last', hscan', hkept⟩
      obtain ⟨rfl, rfl⟩ := Prod.mk.inj (Option.some.inj (hscan.symm.trans hscan'))
      exact hkept
    · exact fun hkept ↦ ⟨a, last, hscan, hkept⟩
  have hfirst := toNat_uint16_ofInt a
  rw [hstands, KeptPort, ← UInt16.toNat_inj, UInt16.le_iff_toNat_le]
  simp only [UInt16.toNat_zero]
  omega

/-- An item that is kept stands for some port. -/
theorem exists_standsForPort {item : Bytes} (h : (portsOf item).isSome) :
    ∃ port, StandsForPort item port := by
  obtain ⟨p, hp⟩ := Option.isSome_iff_exists.1 h
  refine ⟨p.firstport, (portsOf_matches_iff hp _).1 (Or.inr ⟨UInt16.le_refl _, ?_⟩)⟩
  obtain ⟨a, last, -, hle, -, rfl⟩ := portsOf_eq_some_iff.1 hp
  dsimp only
  omega

/-- What `match_ip` compares an address with. -/
theorem parseIp_matches_iff {item : Bytes} {ip : PlaintextIp} (h : parseIp item = some ip)
    (addr : In6Addr) :
    compareIpv6WithMask ip.addr addr ip.netmask = true ↔ StandsForAddr item addr := by
  rw [parseIp] at h
  cases hscan : scanIp item with
  | none =>
    rw [hscan] at h
    cases h
  | some network =>
    obtain ⟨net, mask⟩ := network
    rw [hscan] at h
    dsimp only at h
    split at h
    · next hself =>
      cases h
      have hbits : min (max mask 0) 128 = ((min (max mask 0) 128).toNat : Int) := by omega
      have hclean := (compareIpv6WithMask_self_iff net hbits).1 hself
      rw [compareIpv6WithMask_agree_iff hbits hclean]
      constructor
      · exact fun hagree ↦ ⟨net, mask, hscan, hagree⟩
      · rintro ⟨net', mask', hscan', hagree⟩
        obtain ⟨rfl, rfl⟩ := Prod.mk.inj (Option.some.inj (hscan.symm.trans hscan'))
        exact hagree
    · cases h

/-- An item that is kept stands for its own address. -/
theorem exists_standsForAddr {item : Bytes} (h : (parseIp item).isSome) :
    ∃ addr, StandsForAddr item addr := by
  obtain ⟨ip, hip⟩ := Option.isSome_iff_exists.1 h
  rw [parseIp] at hip
  cases hscan : scanIp item with
  | none =>
    rw [hscan] at hip
    cases hip
  | some network => exact ⟨network.1, network.1, network.2, hscan, fun _ _ _ ↦ rfl⟩

/-- An item whose first port is in its range stands for what it names. -/
theorem StandsForPort.namesPort {item : Bytes} {port : UInt16} (h : StandsForPort item port)
    {a : Int} {last : Option Int} (hscan : scanPorts item = some (a, last))
    (hwritten : writtenPorts item = some (a, last.getD a)) (ha : 0 ≤ a) (ha' : a < 2 ^ 16) :
    NamesPort item port := by
  obtain ⟨a', last', hscan', hkept⟩ := h
  obtain ⟨rfl, rfl⟩ := Prod.mk.inj (Option.some.inj (hscan.symm.trans hscan'))
  exact ⟨a, last.getD a, hwritten, (keptPort_iff ha ha' port).1 hkept⟩

/-- An item whose mask has the length that is written stands for what it names. -/
theorem StandsForAddr.namesAddr {item : Bytes} {addr : In6Addr} (h : StandsForAddr item addr)
    {net : In6Addr} {mask : Int} (hscan : scanIp item = some (net, mask))
    (hwritten : writtenNetwork item = some (net, (min (max mask 0) 128).toNat)) :
    NamesAddr item addr := by
  obtain ⟨net', mask', hscan', hagree⟩ := h
  obtain ⟨rfl, rfl⟩ := Prod.mk.inj (Option.some.inj (hscan.symm.trans hscan'))
  exact ⟨net, _, hwritten, hagree⟩

/-! ### The four restrictions -/

/-- The keys that restrict an ACL to addresses and ports. -/
inductive Restriction where
  | srcip | dstip | srcport | dstport
  deriving DecidableEq

namespace Restriction

def key : Restriction → LineKey
  | srcip => .srcip
  | dstip => .dstip
  | srcport => .srcport
  | dstport => .dstport

/-- The items of a value. -/
def items : Restriction → Bytes → List Bytes
  | srcip, value | dstip, value => gStrsplit value
  | srcport, value | dstport, value => value.splitOn 44

/-- The item can be used: something is kept of it. -/
def Usable : Restriction → Bytes → Prop
  | srcip, item | dstip, item => (parseIp item).isSome
  | srcport, item | dstport, item => (portsOf item).isSome

/-- The item names the address or the port of a connection. -/
def Names : Restriction → Bytes → Tracking → Prop
  | srcip, item, t => NamesAddr item t.saddr
  | dstip, item, t => NamesAddr item t.daddr
  | srcport, item, t => NamesPort item t.source
  | dstport, item, t => NamesPort item t.dest

/-- The item, as it is kept, stands for the address or the port of a connection. -/
def StandsFor : Restriction → Bytes → Tracking → Prop
  | srcip, item, t => StandsForAddr item t.saddr
  | dstip, item, t => StandsForAddr item t.daddr
  | srcport, item, t => StandsForPort item t.source
  | dstport, item, t => StandsForPort item t.dest

/-- The list of the ACL is not empty. -/
def Restricts : Restriction → PlaintextAcl → Prop
  | srcip, acl => acl.srcIp ≠ []
  | dstip, acl => acl.dstIp ≠ []
  | srcport, acl => acl.srcPorts ≠ []
  | dstport, acl => acl.dstPorts ≠ []

/-- The list of the ACL matches a connection. -/
def Matches : Restriction → PlaintextAcl → Tracking → Prop
  | srcip, acl, t => matchIp acl.srcIp t.saddr = true
  | dstip, acl, t => matchIp acl.dstIp t.daddr = true
  | srcport, acl, t => matchPorts acl.srcPorts t.source = true
  | dstport, acl, t => matchPorts acl.dstPorts t.dest = true

end Restriction

/-! ### Lines with one of the keys -/

/-- The values of a key, in the order of the lines. -/
def valuesOf (key : LineKey) (entries : Section) : List Bytes :=
  (entries.filter fun e ↦ LineKey.find e.1 = some key).map Prod.snd

/-- The items that are written in the lines of a key. -/
def Restriction.written (r : Restriction) (entries : Section) : List Bytes :=
  (valuesOf r.key entries).flatMap r.items

theorem valuesOf_append (key : LineKey) (entries : Section) (e : Bytes × Bytes) :
    valuesOf key (entries ++ [e]) =
      valuesOf key entries ++ if LineKey.find e.1 = some key then [e.2] else [] := by
  rw [valuesOf, valuesOf, List.filter_append, List.map_append, List.filter_singleton]
  by_cases h : LineKey.find e.1 = some key
  · simp [h]
  · simp [h]

theorem Restriction.written_append (r : Restriction) (entries : Section) (e : Bytes × Bytes) :
    r.written (entries ++ [e]) =
      r.written entries ++ if LineKey.find e.1 = some r.key then r.items e.2 else [] := by
  rw [written, written, valuesOf_append, List.flatMap_append]
  split
  · rw [List.flatMap_singleton]
  · rfl

/-- A list that has been read before, with what a line adds in front. -/
theorem Restriction.list_eq_of_read {α : Type} {r : Restriction} {keep : Bytes → Option α}
    (parse : Bytes → List α → Option (List α))
    (hparse : ∀ value list list', parse value list = some list' →
      list' = ((r.items value).filterMap keep).reverse ++ list)
    {entries : Section} {e : Bytes × Bytes} {list list' : List α}
    (hlist : list = ((r.written entries).filterMap keep).reverse)
    (hread : if LineKey.find e.1 = some r.key then parse e.2 list = some list' else list' = list) :
    list' = ((r.written (entries ++ [e])).filterMap keep).reverse := by
  rw [r.written_append, List.filterMap_append, List.reverse_append, ← hlist]
  split at hread
  · next hkey => rw [if_pos hkey, hparse _ _ _ hread]
  · next hkey =>
    rw [if_neg hkey, hread]
    rfl

theorem parseIps_eq_some {value : Bytes} {list list' : List PlaintextIp}
    (h : parseIps value list = some list') :
    (∀ item ∈ gStrsplit value, (parseIp item).isSome) ∧
      list' = ((gStrsplit value).filterMap parseIp).reverse ++ list := by
  rw [parseIps_eq] at h
  split at h
  · next hall => exact ⟨hall, (Option.some.inj h).symm⟩
  · cases h

theorem parsePorts_eq_some {value : Bytes} {list list' : List PlaintextPorts}
    (h : parsePorts value list = some list') :
    list' = ((value.splitOn 44).filterMap portsOf).reverse ++ list := by
  rw [parsePorts_eq] at h
  split at h
  · exact (Option.some.inj h).symm
  · cases h

/-- The number of the protocol: that of the last line with one, or TCP. -/
def sectionProto (entries : Section) : Int :=
  ((valuesOf .proto entries).filterMap scanInt).getLast?.getD 6

theorem sectionProto_append (entries : Section) (e : Bytes × Bytes) :
    sectionProto (entries ++ [e]) = if LineKey.find e.1 = some .proto then
      (scanInt e.2).getD (sectionProto entries) else sectionProto entries := by
  rw [sectionProto, valuesOf_append, List.filterMap_append]
  split
  · cases h : scanInt e.2 with
    | none => simp [h, sectionProto]
    | some n => simp [h]
  · rw [List.filterMap_nil, List.append_nil, sectionProto]

/-- **What the lines of a section make of the lists of its ACL.** -/
structure SectionLists (entries : Section) (acl : AclDraft) : Prop where
  srcIp : acl.srcIp = ((Restriction.srcip.written entries).filterMap parseIp).reverse
  dstIp : acl.dstIp = ((Restriction.dstip.written entries).filterMap parseIp).reverse
  srcPorts : acl.srcPorts = ((Restriction.srcport.written entries).filterMap portsOf).reverse
  dstPorts : acl.dstPorts = ((Restriction.dstport.written entries).filterMap portsOf).reverse
  srcIp_usable : ∀ item ∈ Restriction.srcip.written entries, (parseIp item).isSome
  dstIp_usable : ∀ item ∈ Restriction.dstip.written entries, (parseIp item).isSome
  proto : acl.proto = sectionProto entries

/-- In a list of addresses every item of a line that is read can be used. -/
theorem forall_usable_of_read {r : Restriction} (hitems : r.items = gStrsplit)
    {entries : Section} {e : Bytes × Bytes} {list list' : List PlaintextIp}
    (hall : ∀ item ∈ r.written entries, (parseIp item).isSome)
    (hread : if LineKey.find e.1 = some r.key then parseIps e.2 list = some list'
      else list' = list) :
    ∀ item ∈ r.written (entries ++ [e]), (parseIp item).isSome := by
  intro item hitem
  rw [r.written_append, List.mem_append] at hitem
  rcases hitem with hitem | hitem
  · exact hall item hitem
  · split at hread
    · next hkey =>
      rw [if_pos hkey, hitems] at hitem
      exact (parseIps_eq_some hread).1 item hitem
    · next hkey =>
      rw [if_neg hkey] at hitem
      cases hitem

theorem sectionLists_of_sectionDraft {entries : Section} {acl : AclDraft}
    (h : sectionDraft conf entries = some acl) : SectionLists entries acl := by
  refine sectionDraft_induction (p := SectionLists) ?_ ?_ h
  · exact ⟨rfl, rfl, rfl, rfl, by simp [Restriction.written, valuesOf],
      by simp [Restriction.written, valuesOf], rfl⟩
  · intro entries e acl acl' ih hread
    refine ⟨?_, ?_, ?_, ?_, ?_, ?_, ?_⟩
    · exact Restriction.list_eq_of_read parseIps (fun _ _ _ h ↦ (parseIps_eq_some h).2) ih.srcIp
        hread.srcIp
    · exact Restriction.list_eq_of_read parseIps (fun _ _ _ h ↦ (parseIps_eq_some h).2) ih.dstIp
        hread.dstIp
    · exact Restriction.list_eq_of_read parsePorts (fun _ _ _ h ↦ parsePorts_eq_some h) ih.srcPorts
        hread.srcPorts
    · exact Restriction.list_eq_of_read parsePorts (fun _ _ _ h ↦ parsePorts_eq_some h) ih.dstPorts
        hread.dstPorts
    · exact forall_usable_of_read rfl ih.srcIp_usable hread.srcIp
    · exact forall_usable_of_read rfl ih.dstIp_usable hread.dstIp
    · rw [hread.proto, ih.proto, sectionProto_append]

/-- What is kept of a draft when it is ready. -/
theorem ready_eq_some {draft : AclDraft} {acl : PlaintextAcl} (h : draft.ready = some acl) :
    (acl.srcIp = draft.srcIp ∧ acl.dstIp = draft.dstIp ∧ acl.srcPorts = draft.srcPorts ∧
      acl.dstPorts = draft.dstPorts) ∧ (acl.proto = ipprotoIcmp ↔ draft.proto = 1) := by
  rw [AclDraft.ready] at h
  split at h
  · next hproto =>
    cases h
    exact ⟨⟨rfl, rfl, rfl, rfl⟩, iff_of_false (by decide : ipprotoTcp ≠ ipprotoIcmp) (by omega)⟩
  · split at h
    · next hproto =>
      cases h
      exact ⟨⟨rfl, rfl, rfl, rfl⟩, iff_of_false (by decide : ipprotoUdp ≠ ipprotoIcmp) (by omega)⟩
    · split at h
      · next hproto =>
        cases h
        exact ⟨⟨rfl, rfl, rfl, rfl⟩, iff_of_true rfl hproto⟩
      · cases h

/-! ### The lists of an ACL and the items of its section -/

theorem AclOf.proto_iff {entries : Section} {acl : PlaintextAcl} (h : AclOf conf entries acl) :
    acl.proto = ipprotoIcmp ↔ sectionProto entries = 1 := by
  obtain ⟨draft, hdraft, -, hready⟩ := h
  rw [(ready_eq_some hready).2, (sectionLists_of_sectionDraft hdraft).proto]

theorem reverse_filterMap_ne_nil_iff {α : Type} {keep : Bytes → Option α} {items : List Bytes} :
    (items.filterMap keep).reverse ≠ [] ↔ ∃ item ∈ items, (keep item).isSome := by
  rw [ne_eq, List.reverse_eq_nil_iff, List.filterMap_eq_nil_iff]
  simp only [not_forall, Option.isSome_iff_ne_none, exists_prop, ne_eq]

/-- The list is not empty if one of the items can be used. -/
theorem AclOf.restricts_iff {entries : Section} {acl : PlaintextAcl} (h : AclOf conf entries acl)
    (r : Restriction) : r.Restricts acl ↔ ∃ item ∈ r.written entries, r.Usable item := by
  obtain ⟨draft, hdraft, -, hready⟩ := h
  obtain ⟨⟨hsrcIp, hdstIp, hsrcPorts, hdstPorts⟩, -⟩ := ready_eq_some hready
  have hlists := sectionLists_of_sectionDraft hdraft
  cases r with
  | srcip =>
    rw [Restriction.Restricts, hsrcIp, hlists.srcIp]
    exact reverse_filterMap_ne_nil_iff
  | dstip =>
    rw [Restriction.Restricts, hdstIp, hlists.dstIp]
    exact reverse_filterMap_ne_nil_iff
  | srcport =>
    rw [Restriction.Restricts, hsrcPorts, hlists.srcPorts]
    exact reverse_filterMap_ne_nil_iff
  | dstport =>
    rw [Restriction.Restricts, hdstPorts, hlists.dstPorts]
    exact reverse_filterMap_ne_nil_iff

/-- A list that is not empty is gone through for something that was kept of an item. -/
theorem any_kept_iff {α : Type} {keep : Bytes → Option α} {p : α → Bool} {q : Bytes → Prop}
    (hpq : ∀ item x, keep item = some x → (p x = true ↔ q item)) {items : List Bytes}
    (hne : ∃ item ∈ items, (keep item).isSome) :
    ((items.filterMap keep).reverse.isEmpty || (items.filterMap keep).reverse.any p) = true ↔
      ∃ item ∈ items, (keep item).isSome ∧ q item := by
  have hempty := List.isEmpty_eq_false_iff.2 (reverse_filterMap_ne_nil_iff.2 hne)
  rw [hempty, Bool.false_or, List.any_reverse, List.any_eq_true]
  constructor
  · rintro ⟨x, hx, hp⟩
    obtain ⟨item, hitem, hkeep⟩ := List.mem_filterMap.1 hx
    exact ⟨item, hitem, Option.isSome_of_eq_some hkeep, (hpq item x hkeep).1 hp⟩
  · rintro ⟨item, hitem, hsome, hq⟩
    obtain ⟨x, hkeep⟩ := Option.isSome_iff_exists.1 hsome
    exact ⟨x, List.mem_filterMap.2 ⟨item, hitem, hkeep⟩, (hpq item x hkeep).2 hq⟩

/-- A list that is not empty matches what one of its items stands for. -/
theorem AclOf.matches_iff {entries : Section} {acl : PlaintextAcl} (h : AclOf conf entries acl)
    {r : Restriction} (hne : r.Restricts acl) (t : Tracking) :
    r.Matches acl t ↔ ∃ item ∈ r.written entries, r.Usable item ∧ r.StandsFor item t := by
  have husable := (h.restricts_iff r).1 hne
  obtain ⟨draft, hdraft, -, hready⟩ := h
  obtain ⟨⟨hsrcIp, hdstIp, hsrcPorts, hdstPorts⟩, -⟩ := ready_eq_some hready
  have hlists := sectionLists_of_sectionDraft hdraft
  have hports : ∀ port item p, portsOf item = some p → (decide (p.firstport = 0 ∨
      (p.firstport ≤ port ∧ (port.toNat : Int) ≤ p.firstport.toNat + p.nbports)) = true ↔
        StandsForPort item port) := fun port item p hp ↦ by
    rw [decide_eq_true_eq, portsOf_matches_iff hp]
  cases r with
  | srcip =>
    rw [Restriction.Matches, hsrcIp, hlists.srcIp]
    exact any_kept_iff (fun _ _ hip ↦ parseIp_matches_iff hip _) husable
  | dstip =>
    rw [Restriction.Matches, hdstIp, hlists.dstIp]
    exact any_kept_iff (fun _ _ hip ↦ parseIp_matches_iff hip _) husable
  | srcport =>
    rw [Restriction.Matches, hsrcPorts, hlists.srcPorts]
    exact any_kept_iff (hports t.source) husable
  | dstport =>
    rw [Restriction.Matches, hdstPorts, hlists.dstPorts]
    exact any_kept_iff (hports t.dest) husable

/-! ### Connections -/

theorem Restriction.matches_of_accepts {glob : Bytes → Bytes → Bool} {acl : PlaintextAcl}
    {c : Connection} (h : acl.accepts glob c = true) (hc : c.tracking.HasPorts) (r : Restriction) :
    r.Matches acl c.tracking := by
  simp only [PlaintextAcl.accepts, if_neg hc.ne_icmp, Bool.and_eq_true] at h
  obtain ⟨⟨⟨⟨⟨⟨-, hdest, hsource⟩, hsaddr⟩, hdaddr⟩, -⟩, -⟩, -⟩ := h
  cases r with
  | srcip => exact hsaddr
  | dstip => exact hdaddr
  | srcport => exact hsource
  | dstport => exact hdest

/-- Every list matches something. -/
theorem AclOf.exists_matches {entries : Section} {acl : PlaintextAcl} (h : AclOf conf entries acl)
    (r : Restriction) : ∃ t, r.Matches acl t := by
  by_cases hne : r.Restricts acl
  · obtain ⟨item, hitem, husable⟩ := (h.restricts_iff r).1 hne
    obtain ⟨t, ht⟩ : ∃ t, r.StandsFor item t := by
      cases r with
      | srcip =>
        obtain ⟨addr, haddr⟩ := exists_standsForAddr husable
        exact ⟨{ Tracking.zero with saddr := addr }, haddr⟩
      | dstip =>
        obtain ⟨addr, haddr⟩ := exists_standsForAddr husable
        exact ⟨{ Tracking.zero with daddr := addr }, haddr⟩
      | srcport =>
        obtain ⟨port, hport⟩ := exists_standsForPort husable
        exact ⟨{ Tracking.zero with source := port }, hport⟩
      | dstport =>
        obtain ⟨port, hport⟩ := exists_standsForPort husable
        exact ⟨{ Tracking.zero with dest := port }, hport⟩
    exact ⟨t, (h.matches_iff hne t).2 ⟨item, hitem, husable, ht⟩⟩
  · refine ⟨Tracking.zero, ?_⟩
    cases r <;> simp only [Restriction.Restricts, ne_eq, not_not] at hne <;>
      simp [Restriction.Matches, matchIp, matchPorts, hne]

/-- What one of the lists matches is an attribute of a connection that the ACL accepts. -/
theorem AclOf.exists_accepts {entries : Section} {acl : PlaintextAcl} (h : AclOf conf entries acl)
    (hproto : acl.proto ≠ ipprotoIcmp) (glob : Bytes → Bytes → Bool) {r : Restriction}
    {t : Tracking} (ht : r.Matches acl t) :
    ∃ c : Connection, c.tracking.HasPorts ∧ acl.accepts glob c = true ∧
      ∀ item, r.Names item c.tracking → r.Names item t := by
  have hattr : ∀ r', ∃ t', r'.Matches acl t' ∧ (r' = r → t' = t) := by
    intro r'
    by_cases hr : r' = r
    · exact ⟨t, hr ▸ ht, fun _ ↦ rfl⟩
    · obtain ⟨t', ht'⟩ := h.exists_matches r'
      exact ⟨t', ht', fun heq ↦ absurd heq hr⟩
  choose attr hmatches hself using hattr
  -- the connection shows neither a system nor an application, and has the interfaces of the ACL
  refine ⟨{ Connection.zero with
    tracking := { Tracking.zero with
      protocol := acl.proto
      saddr := (attr .srcip).saddr
      daddr := (attr .dstip).daddr
      source := (attr .srcport).source
      dest := (attr .dstport).dest }
    ifaceNfo := acl.ifaceNfo }, ?_, ?_, ?_⟩
  · exact acl.proto_mem.elim Or.inl fun h ↦ h.elim Or.inr fun h ↦ absurd h hproto
  · have hsaddr := hmatches .srcip
    have hdaddr := hmatches .dstip
    have hsource := hmatches .srcport
    have hdest := hmatches .dstport
    simp only [Restriction.Matches] at hsaddr hdaddr hsource hdest
    simp only [PlaintextAcl.accepts, if_neg hproto, decide_true, Bool.true_and, hsaddr, hdaddr,
      hsource, hdest, compareIfaceNfo_refl]
    rfl
  · intro item hnames
    have hr := hself r rfl
    cases r with
    | srcip => exact hr ▸ hnames
    | dstip => exact hr ▸ hnames
    | srcport => exact hr ▸ hnames
    | dstport => exact hr ▸ hnames

/-! ### The sections of a file -/

/-- The sections of a file. -/
def sections (file : Bytes) : List Section :=
  (aclText file).done ++ (aclText file).last.toList

/-- The sections that name a user or a group. -/
def ownedSections (conf : Params) (file : Bytes) : List Section :=
  (sections file).filter fun entries ↦ Owned conf entries

/-- What a section has when there is an ACL for it. -/
theorem forall_mem_of_aclOf {p : Section → Prop} {l : List Section} {acls : List PlaintextAcl}
    (h : List.Forall₂ (AclOf conf) l acls)
    (hp : ∀ entries acl, AclOf conf entries acl → p entries) :
    ∀ entries ∈ l, p entries :=
  ((List.forall₂_and_left l acls).1 (h.imp fun entries acl hacl ↦
    ⟨hp entries acl hacl, hacl⟩)).1

theorem AclOf.owned {entries : Section} {acl : PlaintextAcl} (h : AclOf conf entries acl) :
    Owned conf entries := by
  obtain ⟨draft, -, howned, -⟩ := h
  exact howned

theorem AclOf.exists_draft {entries : Section} {acl : PlaintextAcl} (h : AclOf conf entries acl) :
    ∃ draft, sectionDraft conf entries = some draft := by
  obtain ⟨draft, hdraft, -⟩ := h
  exact ⟨draft, hdraft⟩

/-- The ACLs of a file are those of its sections with an owner, and all sections are read. -/
theorem sections_of_readAclList {file : Bytes} {acls : List PlaintextAcl}
    (h : readAclList conf file = some acls) :
    List.Forall₂ (AclOf conf) (ownedSections conf file) acls ∧
      ∀ entries ∈ sections file, ∃ draft, sectionDraft conf entries = some draft := by
  rw [readAclList_eq] at h
  obtain ⟨s, hrun, rfl⟩ := Option.map_eq_some_iff.1 h
  have hreads := readsText_aclText hrun
  have hdone := hreads.done
  have hfilter : (aclText file).done.filter (fun entries ↦ Owned conf entries) =
      (aclText file).done :=
    List.filter_eq_self.2 fun entries hmem ↦ decide_eq_true
      (forall_mem_of_aclOf hdone (fun _ _ ↦ AclOf.owned) entries hmem)
  have hdrafts := forall_mem_of_aclOf hdone fun _ _ ↦ AclOf.exists_draft
  rw [ownedSections, sections, List.filter_append, hfilter, AclReader.closeLast]
  obtain ⟨ht, hs⟩ | ⟨entries, draft, ht, hs, hdraft⟩ := hreads.last_cases
  · rw [ht, hs, Option.toList_none, List.filter_nil, List.append_nil]
    exact ⟨hdone, hdrafts⟩
  · rw [ht, hs, Option.toList_some]
    have howned := owned_iff_of_sectionDraft hdraft
    refine ⟨?_, ?_⟩
    · rw [List.filter_singleton]
      dsimp only
      by_cases hown : Owned conf entries
      · obtain ⟨acl, hready⟩ := exists_ready (supported_of_sectionDraft hdraft)
        rw [if_pos (howned.2 hown), decide_eq_true hown, hready]
        exact List.rel_append hdone (List.Forall₂.cons ⟨draft, hdraft, hown, hready⟩
          List.Forall₂.nil)
      · rw [if_neg (mt howned.1 hown), decide_eq_false hown]
        simpa using hdone
    · intro entries' hmem
      rcases List.mem_append.1 hmem with hmem | hmem
      · exact hdrafts entries' hmem
      · obtain rfl := List.mem_singleton.1 hmem
        exact ⟨draft, hdraft⟩

/-! ### Restrictions that are kept -/

/-- The ACL keeps the restrictions that are written in its section: its lists are not empty, and
what it accepts is named by an item. -/
structure KeepsRestrictions (glob : Bytes → Bytes → Bool) (entries : Section)
    (acl : PlaintextAcl) : Prop where
  restricts : ∀ r : Restriction, valuesOf r.key entries ≠ [] → r.Restricts acl
  contained : ∀ c : Connection, c.tracking.HasPorts → acl.accepts glob c = true →
    ∀ r : Restriction, valuesOf r.key entries ≠ [] → ∃ item ∈ r.written entries,
      r.Names item c.tracking

/-- **No restriction of the file is lifted**: every ACL keeps those of its section, and a file with
a value of which no item can be used is not among those that are read. -/
structure RestrictionsKept (conf : Params) (glob : Bytes → Bytes → Bool) (file : Bytes)
    (acls : List PlaintextAcl) : Prop where
  acls : List.Forall₂ (KeepsRestrictions glob) (ownedSections conf file) acls
  refused : ∀ entries ∈ sections file, ∀ r : Restriction, ∀ value ∈ valuesOf r.key entries,
    ∃ item ∈ r.items value, r.Usable item

/-- The value has something that can be used: some text for addresses, and for ports a number that
is not followed by a smaller one. -/
def Restriction.Filled : Restriction → Bytes → Prop
  | srcip, value | dstip, value => value ≠ []
  | srcport, value | dstport, value => ∃ item ∈ value.splitOn 44, ∃ a last,
      scanPorts item = some (a, last) ∧ a ≤ last.getD a ∧ last.getD a - a < 2 ^ 31

/-- When the numbers of an item are cut to the size they are kept in, it stands for nothing that is
not written. An ACL for ICMP accepts no connection with ports. -/
def SectionExact (entries : Section) : Prop :=
  sectionProto entries ≠ 1 → ∀ r : Restriction, ∀ item ∈ r.written entries, r.Usable item →
    ∀ t, r.StandsFor item t → ∃ item' ∈ r.written entries, r.Names item' t

/-- **The restrictions of the file are written such that they are kept**: every value has something
that can be used, and no item stands for more than is written. -/
structure RestrictionsWritten (conf : Params) (file : Bytes) : Prop where
  filled : ∀ entries ∈ sections file, ∀ r : Restriction, ∀ value ∈ valuesOf r.key entries,
    r.Filled value
  exact : ∀ entries ∈ ownedSections conf file, SectionExact entries

theorem isSome_portsOf_iff {item : Bytes} : (portsOf item).isSome ↔ ∃ a last,
    scanPorts item = some (a, last) ∧ a ≤ last.getD a ∧ last.getD a - a < 2 ^ 31 := by
  rw [Option.isSome_iff_exists]
  simp only [portsOf_eq_some_iff]
  constructor
  · rintro ⟨p, a, last, hscan, hle, hsmall, -⟩
    exact ⟨a, last, hscan, hle, hsmall⟩
  · rintro ⟨a, last, hscan, hle, hsmall⟩
    exact ⟨_, a, last, hscan, hle, hsmall, rfl⟩

theorem exists_usable_address_iff {value : Bytes}
    (hall : ∀ item ∈ gStrsplit value, (parseIp item).isSome) :
    (∃ item ∈ gStrsplit value, (parseIp item).isSome) ↔ value ≠ [] := by
  rw [← gStrsplit_eq_nil_iff.ne]
  constructor
  · rintro ⟨item, hitem, -⟩
    exact List.ne_nil_of_mem hitem
  · intro hne
    obtain ⟨item, hitem⟩ := List.exists_mem_of_ne_nil _ hne
    exact ⟨item, hitem, hall item hitem⟩

/-- In a section that is read, a value has an item that can be used when it is filled. -/
theorem exists_usable_iff {entries : Section} {draft : AclDraft}
    (h : sectionDraft conf entries = some draft) {r : Restriction} {value : Bytes}
    (hvalue : value ∈ valuesOf r.key entries) :
    (∃ item ∈ r.items value, r.Usable item) ↔ r.Filled value := by
  have hlists := sectionLists_of_sectionDraft h
  have hwritten : ∀ item ∈ r.items value, item ∈ r.written entries := fun item hitem ↦
    List.mem_flatMap.2 ⟨value, hvalue, hitem⟩
  cases r with
  | srcip => exact exists_usable_address_iff fun item h ↦ hlists.srcIp_usable item (hwritten item h)
  | dstip => exact exists_usable_address_iff fun item h ↦ hlists.dstIp_usable item (hwritten item h)
  | srcport => simp only [Restriction.items, Restriction.Usable, Restriction.Filled,
      isSome_portsOf_iff]
  | dstport => simp only [Restriction.items, Restriction.Usable, Restriction.Filled,
      isSome_portsOf_iff]

/-- An ACL keeps the restrictions of its section when they are written as they should. -/
theorem AclOf.keepsRestrictions {entries : Section} {acl : PlaintextAcl}
    (h : AclOf conf entries acl) (glob : Bytes → Bytes → Bool)
    (husable : ∀ r : Restriction, ∀ value ∈ valuesOf r.key entries,
      ∃ item ∈ r.items value, r.Usable item)
    (hexact : SectionExact entries) : KeepsRestrictions glob entries acl := by
  have hrestricts : ∀ r : Restriction, valuesOf r.key entries ≠ [] → r.Restricts acl := by
    intro r hne
    obtain ⟨value, hvalue⟩ := List.exists_mem_of_ne_nil _ hne
    obtain ⟨item, hitem, hitem'⟩ := husable r value hvalue
    exact (h.restricts_iff r).2 ⟨item, List.mem_flatMap.2 ⟨value, hvalue, hitem⟩, hitem'⟩
  refine ⟨hrestricts, ?_⟩
  intro c hc haccepts r hne
  have hproto : sectionProto entries ≠ 1 := by
    rw [ne_eq, ← h.proto_iff]
    have hsame : c.tracking.protocol = acl.proto := by
      simp only [PlaintextAcl.accepts, Bool.and_eq_true, decide_eq_true_eq] at haccepts
      exact haccepts.1.1.1.1.1.1
    exact hsame ▸ hc.ne_icmp
  obtain ⟨item, hitem, hitem', hstands⟩ :=
    (h.matches_iff (hrestricts r hne) c.tracking).1 (r.matches_of_accepts haccepts hc)
  exact hexact hproto r item hitem hitem' c.tracking hstands

/-- What an item stands for is accepted, so that it must be written. -/
theorem KeepsRestrictions.sectionExact {glob : Bytes → Bytes → Bool} {entries : Section}
    {acl : PlaintextAcl} (h : KeepsRestrictions glob entries acl) (hacl : AclOf conf entries acl) :
    SectionExact entries := by
  intro hproto r item hitem husable t hstands
  have hmatches : r.Matches acl t :=
    (hacl.matches_iff ((hacl.restricts_iff r).2 ⟨item, hitem, husable⟩) t).2
      ⟨item, hitem, husable, hstands⟩
  obtain ⟨c, hc, haccepts, hnames⟩ :=
    hacl.exists_accepts (mt hacl.proto_iff.1 hproto) glob hmatches
  obtain ⟨value, hvalue, -⟩ := List.mem_flatMap.1 hitem
  obtain ⟨item', hitem', hname⟩ := h.contained c hc haccepts r (List.ne_nil_of_mem hvalue)
  exact ⟨item', hitem', hnames item' hname⟩

/-- **A file that is read keeps its restrictions exactly when they are written such that they can
be.** -/
theorem restrictions_kept_iff (conf : Params) (glob : Bytes → Bytes → Bool) (file : Bytes)
    (acls : List PlaintextAcl) (h : readAclList conf file = some acls) :
    RestrictionsKept conf glob file acls ↔ RestrictionsWritten conf file := by
  obtain ⟨hacls, hread⟩ := sections_of_readAclList h
  have hfilled : ∀ entries ∈ sections file, ∀ r : Restriction, ∀ value ∈ valuesOf r.key entries,
      ((∃ item ∈ r.items value, r.Usable item) ↔ r.Filled value) := by
    intro entries hentries r value hvalue
    obtain ⟨draft, hdraft⟩ := hread entries hentries
    exact exists_usable_iff hdraft hvalue
  constructor
  · rintro ⟨hkept, hrefused⟩
    refine ⟨fun entries hentries r value hvalue ↦
      (hfilled entries hentries r value hvalue).1 (hrefused entries hentries r value hvalue), ?_⟩
    have hexact : List.Forall₂ (fun entries acl ↦ SectionExact entries ∧ AclOf conf entries acl)
        (ownedSections conf file) acls :=
      hkept.mp (fun _ _ hkeeps hacl ↦ ⟨hkeeps.sectionExact hacl, hacl⟩) hacls
    exact ((List.forall₂_and_left _ _).1 hexact).1
  · rintro ⟨hall, hexact⟩
    refine ⟨?_, fun entries hentries r value hvalue ↦
      (hfilled entries hentries r value hvalue).2 (hall entries hentries r value hvalue)⟩
    have hmem := (List.forall₂_and_left (ownedSections conf file) acls).2 ⟨fun _ h ↦ h, hacls⟩
    refine hmem.imp fun entries acl ⟨hentries, hacl⟩ ↦ ?_
    refine hacl.keepsRestrictions glob (fun r value hvalue ↦ ?_) (hexact entries hentries)
    have hsection := List.mem_of_mem_filter hentries
    exact (hfilled entries hsection r value hvalue).2 (hall entries hsection r value hvalue)

/-- An ACL for a network and a port. -/
def restrictedSection : Section :=
  [(ascii "gid", ascii "100"), (ascii "SrcIP", ascii "10.0.0.0/8"), (ascii "DstPort", ascii "80")]

def restrictedFile : Bytes := ascii "[web]\ngid=100\nSrcIP=10.0.0.0/8\nDstPort=80\n"

theorem restrictedSection_filled (r : Restriction) :
    ∀ value ∈ valuesOf r.key restrictedSection, r.Filled value := by
  intro value hvalue
  cases r with
  | srcip =>
    have hvalues : valuesOf .srcip restrictedSection = [ascii "10.0.0.0/8"] := by decide +kernel
    obtain rfl := List.mem_singleton.1 (hvalues ▸ hvalue)
    exact List.cons_ne_nil _ _
  | dstip =>
    have hvalues : valuesOf .dstip restrictedSection = [] := by decide +kernel
    cases (hvalues ▸ hvalue : value ∈ [])
  | srcport =>
    have hvalues : valuesOf .srcport restrictedSection = [] := by decide +kernel
    cases (hvalues ▸ hvalue : value ∈ [])
  | dstport =>
    have hvalues : valuesOf .dstport restrictedSection = [ascii "80"] := by decide +kernel
    obtain rfl := List.mem_singleton.1 (hvalues ▸ hvalue)
    exact ⟨ascii "80", by decide +kernel, 80, none, by decide +kernel, by decide, by decide⟩

theorem restrictedSection_exact : SectionExact restrictedSection := by
  intro _ r item hitem _ t hstands
  cases r with
  | srcip =>
    have hwritten : Restriction.srcip.written restrictedSection = [ascii "10.0.0.0/8"] := by
      decide +kernel
    obtain rfl := List.mem_singleton.1 (hwritten ▸ hitem)
    obtain ⟨network, hscan⟩ : ∃ network, scanIp (ascii "10.0.0.0/8") = some network :=
      Option.isSome_iff_exists.1 (by decide +kernel)
    refine ⟨_, hitem, StandsForAddr.namesAddr hstands hscan ?_⟩
    have hsame : writtenNetwork (ascii "10.0.0.0/8") = (scanIp (ascii "10.0.0.0/8")).map
        fun (net, mask) ↦ (net, (min (max mask 0) 128).toNat) := by decide +kernel
    rw [hsame, hscan, Option.map_some]
  | dstip =>
    have hwritten : Restriction.dstip.written restrictedSection = [] := by decide +kernel
    cases (hwritten ▸ hitem : item ∈ [])
  | srcport =>
    have hwritten : Restriction.srcport.written restrictedSection = [] := by decide +kernel
    cases (hwritten ▸ hitem : item ∈ [])
  | dstport =>
    have hwritten : Restriction.dstport.written restrictedSection = [ascii "80"] := by
      decide +kernel
    obtain rfl := List.mem_singleton.1 (hwritten ▸ hitem)
    have hscan : scanPorts (ascii "80") = some (80, none) := by decide +kernel
    exact ⟨_, hitem, StandsForPort.namesPort hstands hscan (by decide +kernel) (by decide)
      (by decide)⟩

theorem restrictedFile_kept :
    ∃ acls, readAclList Params.default restrictedFile = some acls ∧ acls.length = 1 ∧
      RestrictionsKept Params.default (fun _ _ ↦ false) restrictedFile acls := by
  have hread : (readAclList Params.default restrictedFile).map List.length = some 1 := by
    decide +kernel
  obtain ⟨acls, hacls, hlength⟩ := Option.map_eq_some_iff.1 hread
  refine ⟨acls, hacls, hlength, (restrictions_kept_iff _ _ _ _ hacls).2 ⟨?_, ?_⟩⟩
  · have hsections : sections restrictedFile = [restrictedSection] := by decide +kernel
    intro entries hentries
    obtain rfl := List.mem_singleton.1 (hsections ▸ hentries)
    exact restrictedSection_filled
  · have hsections : ownedSections Params.default restrictedFile = [restrictedSection] := by
      decide +kernel
    intro entries hentries
    obtain rfl := List.mem_singleton.1 (hsections ▸ hentries)
    exact restrictedSection_exact

/-- An ACL with a range of ports that goes down. -/
def descendingSection : Section := [(ascii "gid", ascii "100"), (ascii "DstPort", ascii "443-80")]

def descendingFile : Bytes := ascii "[web]\ngid=100\nDstPort=443-80\n"

/-- It is read, and accepts connections to whatever port. -/
theorem descendingFile_lifted :
    ∃ acls, readAclList Params.default descendingFile = some acls ∧
      (acls.map fun acl ↦ acl.accepts (fun _ _ ↦ false) proxyConnection) = [true] ∧
      ¬ RestrictionsKept Params.default (fun _ _ ↦ false) descendingFile acls := by
  have hread : (readAclList Params.default descendingFile).map (fun acls ↦
      acls.map fun acl ↦ acl.accepts (fun _ _ ↦ false) proxyConnection) = some [true] := by
    decide +kernel
  obtain ⟨acls, hacls, haccepts⟩ := Option.map_eq_some_iff.1 hread
  refine ⟨acls, hacls, haccepts, fun h ↦ ?_⟩
  have hmem : descendingSection ∈ sections descendingFile := by decide +kernel
  obtain ⟨item, hitem, husable⟩ :=
    h.refused descendingSection hmem .dstport (ascii "443-80") (by decide +kernel)
  have hitems : Restriction.dstport.items (ascii "443-80") = [ascii "443-80"] := by decide +kernel
  obtain rfl := List.mem_singleton.1 (hitems ▸ hitem)
  have hnone : ¬ (portsOf (ascii "443-80")).isSome := by decide +kernel
  exact hnone husable

end Nufw
