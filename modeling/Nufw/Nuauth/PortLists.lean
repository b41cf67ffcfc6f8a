import Nufw.Nuauth.AclFile

/-!
# Lists of ports

`parse_ports` keeps a range as its first port, in 16 bits, and the number of those behind it, and
`acl_check` compares the port of a connection with both. A list of ports stands for the union of its
items, except that a range that starts at port zero is taken for all ports
(`port_list_accepts_iff`).
-/

namespace Nufw

/-! ### Numbers -/

theorem isdigit_iff {c : UInt8} : isdigit c = true ↔ 48 ≤ c.toNat ∧ c.toNat ≤ 57 := by
  simp only [isdigit, Bool.and_eq_true, decide_eq_true_eq, UInt8.le_iff_toNat_le]
  rfl

theorem isspace_iff {c : UInt8} :
    isspace c = true ↔ c.toNat = 32 ∨ (9 ≤ c.toNat ∧ c.toNat ≤ 13) := by
  simp only [isspace, Bool.or_eq_true, Bool.and_eq_true, decide_eq_true_eq, UInt8.le_iff_toNat_le,
    ← UInt8.toNat_inj]
  rfl

/-- A text of digits, with spaces in front and something else behind. -/
theorem scanNumber_digits {before digits rest : Bytes} (hbefore : ∀ c ∈ before, isspace c = true)
    (hdigits : ∀ c ∈ digits, isdigit c = true) (hne : digits ≠ [])
    (hrest : ∀ c, rest.head? = some c → isdigit c = false) :
    scanNumber (before ++ digits ++ rest) = some (false, ofDigits digits, rest) := by
  obtain ⟨d, ds, rfl⟩ := List.exists_cons_of_ne_nil hne
  have hd := isdigit_iff.1 (hdigits d List.mem_cons_self)
  have hspace : ¬ isspace d = true := by
    rw [isspace_iff]
    omega
  have hsign : ∀ c : UInt8, c.toNat < 48 → d ≠ c := by
    rintro c hc rfl
    omega
  have htext : (before ++ (d :: ds) ++ rest).dropWhile isspace = (d :: ds) ++ rest := by
    rw [List.append_assoc, List.dropWhile_append_of_pos hbefore, List.cons_append,
      List.dropWhile_cons_of_neg hspace]
  obtain ⟨htake, hdrop⟩ := span_append hdigits hrest
  rw [scanNumber]
  simp only [htext, List.cons_append, List.head?_cons, Option.some.injEq,
    hsign 45 (by decide), hsign 43 (by decide), decide_false, Bool.or_self, Bool.false_eq_true,
    if_false]
  rw [← List.cons_append, htake, hdrop, if_neg hne]

/-- A small number is read as it is. -/
theorem scanDecimal_digits {before digits rest : Bytes}
    (hbefore : ∀ c ∈ before, isspace c = true) (hdigits : ∀ c ∈ digits, isdigit c = true)
    (hne : digits ≠ []) (hrest : ∀ c, rest.head? = some c → isdigit c = false)
    (hsmall : ofDigits digits < 2 ^ 31) :
    scanDecimal (before ++ digits ++ rest) = some ((ofDigits digits : Int), rest) := by
  rw [scanDecimal, scanNumber_digits hbefore hdigits hne hrest, Option.map_some]
  simp only [Bool.false_eq_true, if_false]
  rw [min_eq_left (by omega), Int.bmod_eq_of_le (by omega) (by omega)]

/-! ### What is read of a list of ports -/

/-- What `parse_ports` keeps of an item. -/
def portsOf (item : Bytes) : Option PlaintextPorts :=
  (scanPorts item).bind fun (fport, lastport) ↦ itemPorts fport lastport

/-- The items are kept one by one, the last one first, as long as what stands before a comma can be
read. -/
theorem parsePortsLoop_eq (items : List Bytes) (portslist : List PlaintextPorts) :
    parsePortsLoop items portslist =
      if ∀ item ∈ items.dropLast, (scanPorts item).isSome then
        some ((items.filterMap portsOf).reverse ++ portslist) else none := by
  induction items generalizing portslist with
  | nil => rfl
  | cons item items ih =>
    rw [parsePortsLoop]
    cases hscan : scanPorts item with
    | none =>
      have hnone : portsOf item = none := by rw [portsOf, hscan, Option.bind_none]
      cases items with
      | nil => simp [hnone]
      | cons item' items => simp [hscan]
    | some ports =>
      obtain ⟨fport, lastport⟩ := ports
      have hports : portsOf item = itemPorts fport lastport := by
        rw [portsOf, hscan, Option.bind_some]
      have hdrop : (∀ i ∈ (item :: items).dropLast, (scanPorts i).isSome) ↔
          ∀ i ∈ items.dropLast, (scanPorts i).isSome := by
        cases items with
        | nil => simp
        | cons item' items => simp [hscan]
      simp only [ih, hdrop]
      cases hitem : itemPorts fport lastport with
      | none => rw [List.filterMap_cons_none (hports.trans hitem)]
      | some stored =>
        rw [List.filterMap_cons_some (hports.trans hitem), List.reverse_cons, List.append_assoc,
          List.singleton_append]

theorem parsePorts_eq (portsline : Bytes) (portslist : List PlaintextPorts) :
    parsePorts portsline portslist =
      if ∀ item ∈ (portsline.splitOn 44).dropLast, (scanPorts item).isSome then
        some (((portsline.splitOn 44).filterMap portsOf).reverse ++ portslist) else none :=
  parsePortsLoop_eq _ _

/-! ### Lists of ports as they are written -/

/-- A number in decimal digits. -/
def IsNumeral (digits : Bytes) : Prop := digits ≠ [] ∧ ∀ c ∈ digits, isdigit c = true

instance IsNumeral.decidable (digits : Bytes) : Decidable (IsNumeral digits) :=
  @instDecidableAnd _ _ (instDecidableNot) (List.decidableBAll (fun c ↦ isdigit c = true) digits)

/-- The last port of an item is the only one, or stands behind a dash. -/
def highPort (first : Bytes) (last : Option Bytes) : ℕ := ofDigits (last.getD first)

/-- A port `p`, or a range `a-b`, with blanks around it. -/
structure PortItem where
  before : Bytes
  first : Bytes
  last : Option Bytes
  after : Bytes
  before_space : ∀ c ∈ before, isspace c = true
  after_space : ∀ c ∈ after, isspace c = true
  first_numeral : IsNumeral first
  last_numeral : ∀ l ∈ last, IsNumeral l
  ordered : ofDigits first ≤ highPort first last
  bounded : highPort first last ≤ 65535

namespace PortItem

variable (item : PortItem)

def low : ℕ := ofDigits item.first

def high : ℕ := highPort item.first item.last

/-- What stands behind the first number. -/
def tail : Bytes :=
  match item.last with
  | none => item.after
  | some last => 45 :: (last ++ item.after)

/-- The item as it is written. -/
def text : Bytes := item.before ++ item.first ++ item.tail

theorem after_head {c : UInt8} (h : item.after.head? = some c) : isdigit c = false ∧ c ≠ 45 := by
  have hspace := isspace_iff.1 (item.after_space c (List.mem_of_mem_head? h))
  refine ⟨?_, ?_⟩
  · by_contra hdigit
    have := isdigit_iff.1 (Bool.eq_true_of_not_eq_false hdigit)
    omega
  · rintro rfl
    revert hspace
    decide

/-- The item is read as it is meant. -/
theorem scanPorts_text :
    scanPorts item.text =
      some ((item.low : Int), item.last.map fun last ↦ (ofDigits last : Int)) := by
  have hlow : item.low < 2 ^ 31 := by
    have h1 := item.ordered
    have h2 := item.bounded
    rw [low]
    omega
  have hbounded := item.bounded
  rw [scanPorts, text]
  cases hlast : item.last with
  | none =>
    have htail : item.tail = item.after := by rw [tail, hlast]
    rw [htail, scanDecimal_digits item.before_space item.first_numeral.2 item.first_numeral.1
      (fun c h ↦ (item.after_head h).1) hlow, Option.map_some]
    have hhead : ¬ item.after.head? = some 45 := fun h ↦ (item.after_head h).2 rfl
    simp only [hhead, if_false]
    rfl
  | some last =>
    have htail : item.tail = 45 :: (last ++ item.after) := by rw [tail, hlast]
    have hnumeral := item.last_numeral last hlast
    have hsecond : scanDecimal (last ++ item.after) = some ((ofDigits last : Int), item.after) := by
      rw [highPort, hlast, Option.getD_some] at hbounded
      exact @scanDecimal_digits [] last item.after (by simp) hnumeral.2 hnumeral.1
        (fun c h ↦ (item.after_head h).1) (by omega)
    rw [htail,
      scanDecimal_digits item.before_space item.first_numeral.2 item.first_numeral.1 _ hlow,
      Option.map_some]
    · simp only [List.head?_cons, if_true, List.drop_succ_cons, List.drop_zero, hsecond,
        Option.map_some]
      rfl
    · intro c h
      cases h
      decide

/-- The item is kept as it is meant. -/
theorem portsOf_text :
    portsOf item.text = some ⟨UInt16.ofInt item.low, (item.high : Int) - item.low⟩ := by
  have hordered := item.ordered
  have hbounded := item.bounded
  rw [portsOf, item.scanPorts_text, Option.bind_some]
  show itemPorts item.low (item.last.map fun last ↦ (ofDigits last : Int)) = _
  rw [high, low]
  cases hlast : item.last with
  | none =>
    have hhigh : highPort item.first none = ofDigits item.first := rfl
    rw [hhigh, sub_self]
    rfl
  | some last =>
    have hhigh : highPort item.first (some last) = ofDigits last := rfl
    rw [hlast, hhigh] at hordered hbounded
    have hle : (ofDigits item.first : Int) ≤ ofDigits last := by omega
    have hmod : ((ofDigits last : Int) - ofDigits item.first).bmod (2 ^ 32) =
        ofDigits last - ofDigits item.first := Int.bmod_eq_of_le (by omega) (by omega)
    simp only [Option.map_some, hhigh, itemPorts, if_pos hle, hmod]
    rw [if_pos (by omega)]

theorem text_chars {c : UInt8} (h : c ∈ item.text) :
    isspace c = true ∨ isdigit c = true ∨ c = 45 := by
  rw [text, List.mem_append, List.mem_append] at h
  rcases h with (h | h) | h
  · exact Or.inl (item.before_space c h)
  · exact Or.inr (Or.inl (item.first_numeral.2 c h))
  · rw [tail] at h
    cases hlast : item.last with
    | none =>
      rw [hlast] at h
      exact Or.inl (item.after_space c h)
    | some last =>
      rw [hlast] at h
      rcases List.mem_cons.1 h with rfl | h
      · exact Or.inr (Or.inr rfl)
      · rcases List.mem_append.1 h with h | h
        · exact Or.inr (Or.inl ((item.last_numeral last hlast).2 c h))
        · exact Or.inl (item.after_space c h)

theorem comma_not_mem_text : 44 ∉ item.text := by
  intro h
  rcases item.text_chars h with h | h | h
  · exact absurd h (by decide)
  · exact absurd h (by decide)
  · exact absurd h (by decide)

end PortItem

/-- A value of `srcport` or `dstport`. -/
def portsText (items : List PortItem) : Bytes := [44].intercalate (items.map PortItem.text)

theorem parsePorts_portsText {items : List PortItem} (hne : items ≠ []) :
    parsePorts (portsText items) [] = some (items.map fun item ↦
      (⟨UInt16.ofInt item.low, (item.high : Int) - item.low⟩ : PlaintextPorts)).reverse := by
  have hsplit : (portsText items).splitOn 44 = items.map PortItem.text := by
    refine List.splitOn_intercalate 44 ?_ (by simpa using hne)
    intro text h
    obtain ⟨item, -, rfl⟩ := List.mem_map.1 h
    exact item.comma_not_mem_text
  have hread : ∀ text ∈ (items.map PortItem.text).dropLast, (scanPorts text).isSome := by
    intro text h
    obtain ⟨item, -, rfl⟩ := List.mem_map.1 ((List.dropLast_sublist _).subset h)
    rw [item.scanPorts_text]
    rfl
  rw [parsePorts_eq, hsplit, if_pos hread, List.append_nil, List.filterMap_map]
  congr 2
  rw [List.filterMap_eq_map_iff_forall_eq_some]
  exact fun item _ ↦ item.portsOf_text

/-- A first port is kept in 16 bits. -/
theorem toNat_uint16_ofInt (a : Int) : ((UInt16.ofInt a).toNat : Int) = a % 2 ^ 16 := by
  rw [UInt16.ofInt, UInt16.toNat_ofNat']
  omega

/-- The port is in the union of the items. -/
def Listed (items : List PortItem) (port : UInt16) : Prop :=
  ∃ item ∈ items, item.low ≤ port.toNat ∧ port.toNat ≤ item.high

/-- Ports that have been kept match those that are listed, or all if one of the items starts at
zero. -/
theorem matchPorts_portsText_iff {items : List PortItem} (hne : items ≠ []) {port : UInt16}
    {ports : List PlaintextPorts} (hports : parsePorts (portsText items) [] = some ports) :
    matchPorts ports port = true ↔ Listed items port ∨ ∃ item ∈ items, item.low = 0 := by
  rw [parsePorts_portsText hne, Option.some.injEq] at hports
  subst hports
  have hempty : (items.map fun item ↦
      (⟨UInt16.ofInt item.low, (item.high : Int) - item.low⟩ : PlaintextPorts)).reverse.isEmpty =
        false := by simpa using hne
  rw [matchPorts, hempty, Bool.false_or, List.any_reverse, List.any_map, List.any_eq_true]
  have hitem : ∀ item ∈ items, ((fun p : PlaintextPorts ↦ decide (p.firstport = 0 ∨
      (p.firstport ≤ port ∧ (port.toNat : Int) ≤ p.firstport.toNat + p.nbports))) ∘
        fun item : PortItem ↦ ⟨UInt16.ofInt item.low, (item.high : Int) - item.low⟩) item = true ↔
      (item.low ≤ port.toNat ∧ port.toNat ≤ item.high) ∨ item.low = 0 := by
    intro item _
    have hlow := toNat_uint16_ofInt item.low
    have hle := item.ordered
    have hbounded := item.bounded
    rw [Function.comp_apply, decide_eq_true_eq, ← UInt16.toNat_inj, UInt16.le_iff_toNat_le]
    simp only [PortItem.low, PortItem.high, UInt16.toNat_zero] at *
    omega
  constructor
  · rintro ⟨item, hmem, h⟩
    rcases (hitem item hmem).1 h with h | h
    · exact Or.inl ⟨item, hmem, h⟩
    · exact Or.inr ⟨item, hmem, h⟩
  · rintro (⟨item, hmem, h⟩ | ⟨item, hmem, h⟩)
    · exact ⟨item, hmem, (hitem item hmem).2 (Or.inl h)⟩
    · exact ⟨item, hmem, (hitem item hmem).2 (Or.inr h)⟩

/-! ### ACLs with ports -/

/-- The destination ports are one criterion among the others. -/
theorem accepts_dstPorts {glob : Bytes → Bytes → Bool} {c : Connection} (h : c.tracking.HasPorts)
    (acl : PlaintextAcl) (ports : List PlaintextPorts) :
    ({ acl with dstPorts := ports } : PlaintextAcl).accepts glob c =
      (({ acl with dstPorts := [] } : PlaintextAcl).accepts glob c &&
        matchPorts ports c.tracking.dest) := by
  simp only [PlaintextAcl.accepts, if_neg h.ne_icmp]
  have hnone : matchPorts [] c.tracking.dest = true := rfl
  rw [hnone]
  cases matchPorts ports c.tracking.dest <;> simp

/-- So are the source ports. -/
theorem accepts_srcPorts {glob : Bytes → Bytes → Bool} {c : Connection} (h : c.tracking.HasPorts)
    (acl : PlaintextAcl) (ports : List PlaintextPorts) :
    ({ acl with srcPorts := ports } : PlaintextAcl).accepts glob c =
      (({ acl with srcPorts := [] } : PlaintextAcl).accepts glob c &&
        matchPorts ports c.tracking.source) := by
  simp only [PlaintextAcl.accepts, if_neg h.ne_icmp]
  have hnone : matchPorts [] c.tracking.source = true := rfl
  rw [hnone]
  cases matchPorts ports c.tracking.source <;> simp

/-- Ports restrict an ACL, as its destination or source ports, to those TCP and UDP connections
whose port is as given. -/
def RestrictsTo (ports : List PlaintextPorts) (p : UInt16 → Prop) : Prop :=
  ∀ (glob : Bytes → Bytes → Bool) (acl : PlaintextAcl) (c : Connection), c.tracking.HasPorts →
    (({ acl with dstPorts := ports } : PlaintextAcl).accepts glob c = true ↔
      ({ acl with dstPorts := [] } : PlaintextAcl).accepts glob c = true ∧ p c.tracking.dest) ∧
    (({ acl with srcPorts := ports } : PlaintextAcl).accepts glob c = true ↔
      ({ acl with srcPorts := [] } : PlaintextAcl).accepts glob c = true ∧ p c.tracking.source)

theorem restrictsTo_of_matchPorts {ports : List PlaintextPorts} {p : UInt16 → Prop}
    (h : ∀ port, matchPorts ports port = true ↔ p port) : RestrictsTo ports p := by
  intro glob acl c hc
  rw [accepts_dstPorts hc, accepts_srcPorts hc, Bool.and_eq_true, Bool.and_eq_true, h, h]
  exact ⟨Iff.rfl, Iff.rfl⟩

/-- **A list of ports restricts an ACL to the union of its items**, or not at all when an item
starts at port zero. -/
theorem port_list_accepts_iff (item : PortItem) (items : List PortItem) :
    ∃ ports, parsePorts (portsText (item :: items)) [] = some ports ∧
      RestrictsTo ports fun port ↦
        Listed (item :: items) port ∨ ∃ i ∈ item :: items, i.low = 0 := by
  have hne : item :: items ≠ [] := List.cons_ne_nil item items
  refine ⟨_, parsePorts_portsText hne, restrictsTo_of_matchPorts fun port ↦ ?_⟩
  exact matchPorts_portsText_iff hne (parsePorts_portsText hne)

/-- The privileged ports: `0-1023`. -/
def privilegedPorts : PortItem where
  before := []
  first := [48]
  last := some [49, 48, 50, 51]
  after := []
  before_space := by simp
  after_space := by simp
  first_numeral := by decide
  last_numeral := by decide
  ordered := by decide
  bounded := by decide

/-- A connection to port 8080. -/
def proxyConnection : Connection :=
  { Connection.zero with
    tracking := { Tracking.zero with
      saddr := clientAddr, daddr := serverAddr, protocol := ipprotoTcp, dest := 8080 } }

/-- An ACL for TCP without restrictions. -/
def tcpAcl : PlaintextAcl :=
  PlaintextAcl.probe proxyConnection.tracking (Or.inl rfl) [] IfaceNfo.zero

/-- They stand for all ports. -/
theorem privilegedPorts_unrestricted :
    ¬ ∃ ports, parsePorts (portsText [privilegedPorts]) [] = some ports ∧
      RestrictsTo ports (Listed [privilegedPorts]) := by
  rintro ⟨ports, hports, h⟩
  have htcp : proxyConnection.tracking.HasPorts := Or.inl rfl
  have hmatch : matchPorts ports proxyConnection.tracking.dest = true :=
    (matchPorts_portsText_iff (List.cons_ne_nil _ _) hports).2
      (Or.inr ⟨privilegedPorts, List.mem_cons_self, by decide⟩)
  have hother : ({ tcpAcl with dstPorts := [] } : PlaintextAcl).accepts (fun _ _ ↦ false)
      proxyConnection = true := by decide +kernel
  have haccepts : ({ tcpAcl with dstPorts := ports } : PlaintextAcl).accepts (fun _ _ ↦ false)
      proxyConnection = true := by
    rw [accepts_dstPorts htcp, hother, hmatch, Bool.and_true]
  obtain ⟨item, hitem, -, hhigh⟩ := ((h _ tcpAcl _ htcp).1.1 haccepts).2
  rw [List.mem_singleton.1 hitem] at hhigh
  exact absurd hhigh (by decide)

end Nufw
