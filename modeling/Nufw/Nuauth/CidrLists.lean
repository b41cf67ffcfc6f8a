import Nufw.Nuauth.PortLists

/-!
# Lists of networks

`parse_ips` reads addresses with the length of a mask, and `match_ip` compares the address of a
connection with each of them under its mask. The same comparison, of an address with itself, tells
whether it has bits beyond the mask. Bit by bit, a list stands for the union of its networks, and it
is read just when no address in it has a bit beyond its mask (`cidr_list_matches_iff`).
-/

namespace Nufw

/-! ### What is read of a list of addresses -/

/-- The items are kept one by one, the last one first, as long as they can be read. -/
theorem parseIps_eq (ipsline : Bytes) (ipList : List PlaintextIp) :
    parseIps ipsline ipList =
      if ∀ item ∈ gStrsplit ipsline, (parseIp item).isSome then
        some (((gStrsplit ipsline).filterMap parseIp).reverse ++ ipList) else none := by
  rw [parseIps]
  induction gStrsplit ipsline generalizing ipList with
  | nil => rfl
  | cons item items ih =>
    rw [List.foldlM_cons]
    cases hitem : parseIp item with
    | none => simp [hitem]
    | some ip =>
      rw [Option.map_some, Option.bind_eq_bind, Option.bind_some, ih,
        List.filterMap_cons_some hitem, List.reverse_cons, List.append_assoc, List.singleton_append]
      simp only [List.forall_mem_cons, hitem, Option.isSome_some, true_and]

/-- An address against a network of a mask: bit by bit. -/
theorem compareIpv6WithMask_iff (addr1 addr2 : In6Addr) (mask : Int) :
    compareIpv6WithMask addr1 addr2 (createIpv6Netmask mask) = true ↔
      ∀ i < 128, addrBit addr1 i =
        (addrBit addr2 i && decide ((i : Int) < min (max mask 0) 128)) := by
  rw [compareIpv6WithMask, decide_eq_true_eq]
  constructor
  · intro h i hi
    rw [h, addrBit_and _ _ hi, addrBit_createIpv6Netmask mask hi]
  · intro h
    refine eq_of_addrBit fun i hi ↦ ?_
    rw [h i hi, addrBit_and _ _ hi, addrBit_createIpv6Netmask mask hi]

/-- An address has no bit beyond the first ones. -/
def NoBitBeyond (bits : ℕ) (addr : In6Addr) : Prop :=
  ∀ i < 128, bits ≤ i → addrBit addr i = false

/-- Two addresses agree on the first bits. -/
def AgreeBits (bits : ℕ) (a b : In6Addr) : Prop := ∀ i < bits, i < 128 → addrBit a i = addrBit b i

theorem compareIpv6WithMask_self_iff (addr : In6Addr) {mask : Int} {bits : ℕ}
    (hbits : min (max mask 0) 128 = bits) :
    compareIpv6WithMask addr addr (createIpv6Netmask mask) = true ↔ NoBitBeyond bits addr := by
  rw [compareIpv6WithMask_iff, hbits]
  constructor
  · intro h i hi hle
    rw [h i hi, decide_eq_false (by omega), Bool.and_false]
  · intro h i hi
    by_cases hlt : i < bits
    · rw [decide_eq_true (by omega), Bool.and_true]
    · rw [h i hi (by omega), Bool.false_and]

theorem compareIpv6WithMask_agree_iff {addr : In6Addr} {mask : Int} {bits : ℕ}
    (hbits : min (max mask 0) 128 = bits) (hclean : NoBitBeyond bits addr) (b : In6Addr) :
    compareIpv6WithMask addr b (createIpv6Netmask mask) = true ↔ AgreeBits bits addr b := by
  rw [compareIpv6WithMask_iff, hbits]
  constructor
  · intro h i hlt hi
    rw [h i hi, decide_eq_true (by omega), Bool.and_true]
  · intro h i hi
    by_cases hlt : i < bits
    · rw [decide_eq_true (by omega), Bool.and_true, h i hlt hi]
    · rw [hclean i hi (by omega), decide_eq_false (by omega), Bool.and_false]

/-! ### Lists of networks as they are written -/

/-- `strip_line` takes blanks away around a text that has none. -/
theorem stripLine_eq {before core after : Bytes} (hbefore : ∀ c ∈ before, isBlank c = true)
    (hafter : ∀ c ∈ after, isTrailing c = true) (hcore : ∀ c ∈ core, isTrailing c = false)
    (hne : core ≠ []) : stripLine (before ++ core ++ after) = core := by
  obtain ⟨c, rest, rfl⟩ := List.exists_cons_of_ne_nil hne
  have hc : ¬ isBlank c = true := by
    have := hcore c List.mem_cons_self
    simp only [isTrailing, isBlank, Bool.or_eq_true, Bool.or_eq_false_iff, decide_eq_true_eq,
      decide_eq_false_iff_not] at this ⊢
    rintro (h | h)
    · exact this.1.2 h
    · exact this.2 h
  have hdrop : (before ++ c :: rest ++ after).dropWhile isBlank = c :: (rest ++ after) := by
    rw [List.append_assoc, List.dropWhile_append_of_pos hbefore, List.cons_append,
      List.dropWhile_cons_of_neg hc]
  have hrest : (rest ++ after).rdropWhile isTrailing = rest := by
    rw [List.rdropWhile, List.reverse_append, List.dropWhile_append_of_pos (by simpa using hafter)]
    have hself : rest.rdropWhile isTrailing = rest := by
      rw [List.rdropWhile_eq_self_iff]
      intro hl
      rw [hcore _ (List.mem_cons_of_mem c (List.getLast_mem hl))]
      exact Bool.false_ne_true
    exact hself
  rw [stripLine, hdrop]
  exact congrArg _ hrest

/-- An address is read in one of the families; an IPv4 address is mapped to IPv6, where its own bits
start at the 96th. -/
inductive ReadAs (text : Bytes) : In6Addr → ℕ → Prop
  | inet {addr : Vector UInt8 4} (h : inetPton4 text = some addr) :
      ReadAs text (uint32ToIpv6 addr) 96
  | inet6 {addr : In6Addr} (h : inetPton6 text = some addr) : ReadAs text addr 0

theorem ReadAs.chars {text : Bytes} {addr : In6Addr} {start : ℕ} (h : ReadAs text addr start) :
    ∀ c ∈ text, isAddrChar c = true := by
  cases h with
  | inet h => exact inetPton4_chars h
  | inet6 h => exact inetPton6_chars h

theorem ReadAs.ne_nil {text : Bytes} {addr : In6Addr} {start : ℕ} (h : ReadAs text addr start) :
    text ≠ [] := by
  rintro rfl
  cases h with
  | inet h => cases h
  | inet6 h => cases h

/-- The length of a mask is counted from where the bits of the address start. -/
theorem ReadAs.readIp_eq {text : Bytes} {addr : In6Addr} {start : ℕ} (h : ReadAs text addr start)
    {mask : Int} (hnonneg : 0 ≤ mask) (hle : mask ≤ 128) :
    readIp text mask = some (addr, mask + start) := by
  rw [readIp]
  cases h with
  | inet h =>
    rw [h]
    dsimp only
    rw [Int.bmod_eq_of_le (by omega) (by omega)]
    rfl
  | inet6 h =>
    rw [inetPton4_eq_none h, h]
    dsimp only
    rw [Option.map_some, Nat.cast_zero, add_zero]

/-- An address, with the length of its mask or without, and with blanks around it. -/
structure CidrItem where
  before : Bytes
  address : Bytes
  length : Option Bytes
  after : Bytes
  addr : In6Addr
  start : ℕ
  before_blank : ∀ c ∈ before, isBlank c = true
  after_blank : ∀ c ∈ after, isTrailing c = true
  read : ReadAs address addr start
  length_numeral : ∀ l ∈ length, IsNumeral l ∧ start + ofDigits l ≤ 128

namespace CidrItem

variable (item : CidrItem)

/-- The number of bits that are compared. -/
def bits : ℕ :=
  match item.length with
  | none => 128
  | some l => item.start + ofDigits l

/-- The address with the length of its mask. -/
def core : Bytes :=
  match item.length with
  | none => item.address
  | some l => item.address ++ 47 :: l

/-- The item as it is written. -/
def text : Bytes := item.before ++ item.core ++ item.after

theorem core_chars {c : UInt8} (h : c ∈ item.core) :
    isAddrChar c = true ∨ c = 47 := by
  rw [core] at h
  cases hlength : item.length with
  | none =>
    rw [hlength] at h
    exact Or.inl (item.read.chars _ h)
  | some l =>
    rw [hlength] at h
    rcases List.mem_append.1 h with h | h
    · exact Or.inl (item.read.chars _ h)
    · rcases List.mem_cons.1 h with h | h
      · exact Or.inr h
      · exact Or.inl (isAddrChar_of_isdigit ((item.length_numeral l hlength).1.2 c h))

theorem isTrailing_of_mem_core {c : UInt8} (h : c ∈ item.core) : isTrailing c = false := by
  rcases item.core_chars h with h | rfl
  · by_contra htrailing
    rw [Bool.not_eq_false, isTrailing] at htrailing
    simp only [Bool.or_eq_true, decide_eq_true_eq] at htrailing
    rcases htrailing with ((rfl | rfl) | rfl) | rfl <;> exact absurd h (by decide)
  · decide

theorem core_ne_nil : item.core ≠ [] := by
  rw [core]
  cases item.length with
  | none => exact item.read.ne_nil
  | some l => exact List.append_ne_nil_of_left_ne_nil item.read.ne_nil _

theorem stripLine_text : stripLine item.text = item.core :=
  stripLine_eq item.before_blank item.after_blank (fun _ h ↦ item.isTrailing_of_mem_core h)
    item.core_ne_nil

theorem slash_not_mem_address : 47 ∉ item.address := fun h ↦
  absurd (item.read.chars _ h) (by decide)

/-- A length is read as it is. -/
theorem scanUnsigned_numeral {l : Bytes} (h : IsNumeral l) (hle : ofDigits l ≤ 128) :
    (scanUnsigned l).map (fun mask : UInt32 ↦ (mask.toNat : Int).bmod (2 ^ 32)) =
      some (ofDigits l : Int) := by
  have hscan : scanNumber l = some (false, ofDigits l, []) := by
    have := @scanNumber_digits [] l [] (by simp) h.2 h.1 (by simp)
    rwa [List.nil_append, List.append_nil] at this
  have hvalue : (strtoul l).1 = ofDigits l := by
    rw [strtoul, hscan]
    dsimp only
    rw [if_neg (by omega), if_neg Bool.false_ne_true]
  have hnat : (UInt32.ofNat (ofDigits l)).toNat = ofDigits l := by
    rw [UInt32.toNat_ofNat']
    omega
  rw [scanUnsigned, hscan, Option.map_some, Option.map_some, hvalue, hnat,
    Int.bmod_eq_of_le (by omega) (by omega)]

/-- The length of the mask, or 128. -/
theorem cutMask_core : ∃ mask : Int, cutMask item.core = (item.address, some mask) ∧
    (0 ≤ mask ∧ mask ≤ 128) ∧ min (max (mask + item.start) 0) 128 = item.bits := by
  rw [core, bits]
  cases hlength : item.length with
  | none =>
    refine ⟨128, ?_, by omega, ?_⟩
    · dsimp only
      rw [cutMask, strchr, if_neg item.slash_not_mem_address]
    · dsimp only
      omega
  | some l =>
    obtain ⟨hnumeral, hle⟩ := item.length_numeral l hlength
    have hcut : strchr (item.address ++ 47 :: l) 47 = some (item.address, l) :=
      strchr_append item.slash_not_mem_address l
    refine ⟨ofDigits l, ?_, by omega, ?_⟩
    · dsimp only
      rw [cutMask, hcut]
      dsimp only
      rw [scanUnsigned_numeral hnumeral (by omega)]
    · dsimp only
      omega

/-- The item is read as it is meant; the length of the mask may be cut when the mask is made. -/
theorem scanIp_text :
    ∃ mask, scanIp item.text = some (item.addr, mask) ∧ min (max mask 0) 128 = item.bits := by
  obtain ⟨mask, hmask, hrange, hbits⟩ := item.cutMask_core
  refine ⟨mask + item.start, ?_, hbits⟩
  rw [scanIp, item.stripLine_text, hmask]
  exact item.read.readIp_eq hrange.1 hrange.2

/-- The address has no bit beyond the mask. -/
def Clean : Prop := NoBitBeyond item.bits item.addr

/-- The item is kept just when it is clean, and then matches the addresses that agree with it. -/
theorem parseIp_text :
    (¬ item.Clean → parseIp item.text = none) ∧
      (item.Clean → ∃ ip, parseIp item.text = some ip ∧ ∀ addr,
        compareIpv6WithMask ip.addr addr ip.netmask = true ↔
          AgreeBits item.bits item.addr addr) := by
  obtain ⟨mask, hscan, hbits⟩ := item.scanIp_text
  have hself := compareIpv6WithMask_self_iff item.addr hbits
  constructor
  · intro hclean
    rw [parseIp, hscan]
    exact if_neg fun h ↦ hclean (hself.1 h)
  · intro hclean
    refine ⟨⟨item.addr, createIpv6Netmask mask⟩, ?_, fun addr ↦ ?_⟩
    · rw [parseIp, hscan]
      exact if_pos (hself.2 hclean)
    · exact compareIpv6WithMask_agree_iff hbits hclean addr

theorem comma_not_mem_text : 44 ∉ item.text := by
  intro h
  rw [text, List.mem_append, List.mem_append] at h
  rcases h with (h | h) | h
  · exact absurd (item.before_blank _ h) (by decide)
  · rcases item.core_chars h with h | h
    · exact absurd h (by decide)
    · exact absurd h (by decide)
  · exact absurd (item.after_blank _ h) (by decide)

end CidrItem

/-- A value of `srcip` or `dstip`. -/
def ipsText (items : List CidrItem) : Bytes := [44].intercalate (items.map CidrItem.text)

theorem gStrsplit_ipsText (item : CidrItem) (items : List CidrItem) :
    gStrsplit (ipsText (item :: items)) = (item :: items).map CidrItem.text := by
  have hsplit : (ipsText (item :: items)).splitOn 44 = (item :: items).map CidrItem.text := by
    refine List.splitOn_intercalate 44 ?_ (List.cons_ne_nil _ _)
    intro text h
    obtain ⟨i, -, rfl⟩ := List.mem_map.1 h
    exact i.comma_not_mem_text
  rw [gStrsplit, if_neg, hsplit]
  intro hempty
  rw [hempty, List.splitOn_nil, List.map_cons, List.cons.injEq] at hsplit
  rw [CidrItem.text, List.nil_eq, List.append_eq_nil_iff, List.append_eq_nil_iff] at hsplit
  exact item.core_ne_nil hsplit.1.1.2

theorem isSome_parseIp_text_iff (item : CidrItem) :
    (parseIp item.text).isSome ↔ item.Clean := by
  constructor
  · intro h
    by_contra hclean
    rw [item.parseIp_text.1 hclean] at h
    cases h
  · intro hclean
    obtain ⟨ip, hip, -⟩ := item.parseIp_text.2 hclean
    rw [hip]
    rfl

/-- **A list of networks is read just when every address in it is clean, and then matches the union
of the networks**; the mask of a length has that many leading ones. -/
theorem cidr_list_matches_iff (item : CidrItem) (items : List CidrItem) :
    ((parseIps (ipsText (item :: items)) []).isSome ↔ ∀ i ∈ item :: items, i.Clean) ∧
      (∀ ipList, parseIps (ipsText (item :: items)) [] = some ipList → ∀ addr,
        matchIp ipList addr = true ↔ ∃ i ∈ item :: items, AgreeBits i.bits i.addr addr) ∧
      ∀ (mask : Int) (i : ℕ), i < 128 →
        addrBit (createIpv6Netmask mask) i = decide ((i : Int) < min (max mask 0) 128) := by
  have hall : (∀ text ∈ gStrsplit (ipsText (item :: items)), (parseIp text).isSome) ↔
      ∀ i ∈ item :: items, i.Clean := by
    rw [gStrsplit_ipsText, List.forall_mem_map]
    simp only [isSome_parseIp_text_iff]
  refine ⟨?_, ?_, fun mask i hi ↦ addrBit_createIpv6Netmask mask hi⟩
  · rw [parseIps_eq, ← hall]
    split
    · next h => exact iff_of_true rfl h
    · next h => exact iff_of_false Bool.false_ne_true h
  · intro ipList h addr
    rw [parseIps_eq] at h
    split at h
    · next hsome =>
      have hclean := hall.1 hsome
      rw [gStrsplit_ipsText, List.append_nil, Option.some.injEq] at h
      subst h
      have hmem : ∀ ip, ip ∈ (((item :: items).map CidrItem.text).filterMap parseIp).reverse ↔
          ∃ i ∈ item :: items, parseIp i.text = some ip := by
        intro ip
        simp only [List.mem_reverse, List.mem_filterMap, List.mem_map, exists_exists_and_eq_and]
      have hempty : (((item :: items).map CidrItem.text).filterMap parseIp).reverse.isEmpty =
          false := by
        obtain ⟨ip, hip, -⟩ := item.parseIp_text.2 (hclean item List.mem_cons_self)
        exact List.isEmpty_eq_false_iff.2
          (List.ne_nil_of_mem ((hmem ip).2 ⟨item, List.mem_cons_self, hip⟩))
      rw [matchIp, hempty, Bool.false_or, List.any_eq_true]
      constructor
      · rintro ⟨ip, hip, hcompare⟩
        obtain ⟨i, hi, hparse⟩ := (hmem ip).1 hip
        obtain ⟨ip', hip', hagree⟩ := i.parseIp_text.2 (hclean i hi)
        rw [hparse, Option.some.injEq] at hip'
        subst hip'
        exact ⟨i, hi, (hagree addr).1 hcompare⟩
      · rintro ⟨i, hi, hbits⟩
        obtain ⟨ip, hip, hagree⟩ := i.parseIp_text.2 (hclean i hi)
        exact ⟨ip, (hmem ip).2 ⟨i, hi, hip⟩, (hagree addr).2 hbits⟩
    · cases h

end Nufw
