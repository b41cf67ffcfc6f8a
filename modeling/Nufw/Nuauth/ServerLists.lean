import Nufw.Lib.Sentinel
import Nufw.Nuauth.CidrLists

/-!
# Authorised servers

`generate_inaddr_list` of `parsing.c` reads the addresses of the servers from the configuration, and
`check_inaddr_in_array` looks one of them up. The array has no length: it ends with `::`. It is
counted first and filled then, and the two loops agree, so nothing is written outside it.

But `::` is an address that can be written, and a word that stands for it ends the array. What
follows it is hidden (`authorisedExactly_iff`).
-/

namespace Nufw

/-- `g_strsplit` at blanks. -/
def gStrsplitBlank (string : Bytes) : List Bytes :=
  if string = [] then [] else string.splitOn 32

/-- The first loop of `generate_inaddr_list`. -/
def countInaddrs (gwsrvAddrList : List Bytes) : ℕ :=
  gwsrvAddrList.countP fun word ↦ (inetPton6 word).isSome || (inetPton4 word).isSome

/-- A write to an array; `none` if it goes beyond the end. -/
def writeInaddr (addrsArray : List In6Addr) (i : ℕ) (addr : In6Addr) : Option (List In6Addr) :=
  if i < addrsArray.length then some (addrsArray.set i addr) else none

/-- The second loop of `generate_inaddr_list`: the array, and the next entry to be written. -/
def fillInaddrs : List Bytes → List In6Addr → ℕ → Option (List In6Addr × ℕ)
  | [], addrsArray, i => some (addrsArray, i)
  | word :: words, addrsArray, i =>
    match inetPton6 word with
    | some addr6 => (writeInaddr addrsArray i addr6).bind (fillInaddrs words · (i + 1))
    | none =>
      match inetPton4 word with
      | some addr4 =>
        (writeInaddr addrsArray i (uint32ToIpv6 addr4)).bind (fillInaddrs words · (i + 1))
      | none => fillInaddrs words addrsArray i

/-- `generate_inaddr_list`, with `none` for a write outside the array. What it returns is `none`
for `NULL`. -/
def generateInaddrList (gwsrvAddr : Option Bytes) : Option (Option (List In6Addr)) :=
  match gwsrvAddr with
  | none => some none
  | some text =>
    let words := gStrsplitBlank text
    let count := countInaddrs words
    if 0 < count then
      (fillInaddrs words (List.replicate (count + 1) (Vector.replicate 16 0)) 0).bind fun r ↦
        (writeInaddr r.1 r.2 in6addrAny).map some
    else some none

/-- `check_inaddr_in_array`, with `none` for a read outside the array. -/
def checkInaddrInArray (checkIp : In6Addr) (iparray : Option (List In6Addr)) : Option Bool :=
  match iparray with
  | some items => searchUntil in6addrAny checkIp items
  | none => some false

/-! ### The array -/

/-- What a word is read as. -/
def wordInaddr (word : Bytes) : Option In6Addr :=
  (inetPton6 word).or ((inetPton4 word).map uint32ToIpv6)

theorem wordInaddr_eq_some_iff {word : Bytes} {addr : In6Addr} :
    wordInaddr word = some addr ↔ ∃ start, ReadAs word addr start := by
  rw [wordInaddr, Option.or_eq_some_iff]
  constructor
  · rintro (h | ⟨-, h⟩)
    · exact ⟨0, .inet6 h⟩
    · obtain ⟨addr4, h4, rfl⟩ := Option.map_eq_some_iff.1 h
      exact ⟨96, .inet h4⟩
  · rintro ⟨start, h⟩
    cases h with
    | inet h =>
      refine Or.inr ⟨?_, by rw [h, Option.map_some]⟩
      cases h6 : inetPton6 word with
      | none => rfl
      | some addr6 =>
        rw [inetPton4_eq_none h6] at h
        cases h
    | inet6 h => exact Or.inl h

/-- The words that are counted are those that are read. -/
theorem countInaddrs_eq (words : List Bytes) :
    countInaddrs words = (words.filterMap wordInaddr).length := by
  induction words with
  | nil => rfl
  | cons word words ih =>
    rw [countInaddrs, List.countP_cons, ← countInaddrs, ih]
    cases h6 : inetPton6 word with
    | some addr6 => simp [wordInaddr, h6]
    | none =>
      cases h4 : inetPton4 word with
      | some addr4 => simp [wordInaddr, h6, h4]
      | none => simp [wordInaddr, h6, h4]

/-- A write after the entries that are filled. -/
theorem writeInaddr_append (filled rest : List In6Addr) (old addr : In6Addr) :
    writeInaddr (filled ++ old :: rest) filled.length addr = some (filled ++ addr :: rest) := by
  rw [writeInaddr, if_pos (by simp), List.set_append_right _ _ (Nat.le_refl _), Nat.sub_self,
    List.set_cons_zero]

/-- **The loop fills** the array in the order of the words, and stays in it if there is an entry for
each address. -/
theorem fillInaddrs_eq (words : List Bytes) (filled : List In6Addr) (n : ℕ) (old : In6Addr) :
    fillInaddrs words
        (filled ++ List.replicate ((words.filterMap wordInaddr).length + n) old) filled.length =
      some (filled ++ words.filterMap wordInaddr ++ List.replicate n old,
        filled.length + (words.filterMap wordInaddr).length) := by
  induction words generalizing filled with
  | nil => simp [fillInaddrs]
  | cons word words ih =>
    have hwrite : ∀ addr : In6Addr,
        (writeInaddr (filled ++ List.replicate ((words.filterMap wordInaddr).length + 1 + n) old)
          filled.length addr).bind (fillInaddrs words · (filled.length + 1)) =
        some (filled ++ addr :: words.filterMap wordInaddr ++ List.replicate n old,
          filled.length + ((words.filterMap wordInaddr).length + 1)) := by
      intro addr
      rw [Nat.add_right_comm, List.replicate_succ, writeInaddr_append, Option.bind_some]
      have := ih (filled ++ [addr])
      rw [List.append_assoc, List.singleton_append, List.length_append,
        List.length_singleton] at this
      rw [this, List.append_assoc filled [addr], List.singleton_append]
      congr 2
      omega
    rw [fillInaddrs]
    cases h6 : inetPton6 word with
    | some addr6 =>
      have hword : wordInaddr word = some addr6 := by rw [wordInaddr, h6, Option.some_or]
      rw [List.filterMap_cons_some hword, List.length_cons]
      exact hwrite addr6
    | none =>
      dsimp only
      cases h4 : inetPton4 word with
      | some addr4 =>
        have hword : wordInaddr word = some (uint32ToIpv6 addr4) := by
          rw [wordInaddr, h6, h4, Option.none_or, Option.map_some]
        rw [List.filterMap_cons_some hword, List.length_cons]
        exact hwrite (uint32ToIpv6 addr4)
      | none =>
        have hword : wordInaddr word = none := by
          rw [wordInaddr, h6, h4, Option.none_or, Option.map_none]
        rw [List.filterMap_cons_none hword]
        exact ih filled

/-- The addresses of a text, in order. -/
def inaddrs (text : Bytes) : List In6Addr := (gStrsplitBlank text).filterMap wordInaddr

/-- **The array has the addresses of the text** and ends with `::`, if there is any. -/
theorem generateInaddrList_eq (text : Bytes) :
    generateInaddrList (some text) =
      some (if inaddrs text = [] then none else some (inaddrs text ++ [in6addrAny])) := by
  rw [generateInaddrList, countInaddrs_eq, ← inaddrs]
  by_cases hnil : inaddrs text = []
  · rw [if_pos hnil, hnil, List.length_nil, if_neg (Nat.lt_irrefl 0)]
  · rw [if_neg hnil, if_pos (List.length_pos_iff.2 hnil)]
    have hfill := fillInaddrs_eq (gStrsplitBlank text) [] 1 (Vector.replicate 16 0)
    rw [List.nil_append, List.nil_append, ← inaddrs, List.length_nil, Nat.zero_add] at hfill
    rw [hfill, Option.bind_some, List.replicate_one, writeInaddr_append, Option.map_some]

/-- Nothing is read or written outside the array. -/
theorem checkInaddrInArray_isSome (text : Bytes) (ip : In6Addr) :
    ∃ array found, generateInaddrList (some text) = some array ∧
      checkInaddrInArray ip array = some found := by
  by_cases hnil : inaddrs text = []
  · exact ⟨none, false, by rw [generateInaddrList_eq, if_pos hnil], rfl⟩
  · obtain ⟨found, hfound⟩ := @searchUntil_isSome _ _ in6addrAny ip (inaddrs text ++ [in6addrAny])
      (List.mem_append_right _ (List.mem_singleton_self _))
    exact ⟨some (inaddrs text ++ [in6addrAny]), found,
      by rw [generateInaddrList_eq, if_neg hnil], hfound⟩

/-! ### What is authorised -/

/-- The address is written in the text. -/
def ServerListed (text : Bytes) (ip : In6Addr) : Prop :=
  ∃ word ∈ gStrsplitBlank text, ∃ start, ReadAs word ip start

/-- The server is authorised just if it is listed and is not `::`. -/
def AuthorisedExactly (text : Bytes) (ip : In6Addr) : Prop :=
  ∃ array, generateInaddrList (some text) = some array ∧
    (checkInaddrInArray ip array = some true ↔ ip ≠ in6addrAny ∧ ServerListed text ip)

/-- The server is listed, but `::` is listed before it. -/
def HiddenServer (text : Bytes) (ip : In6Addr) : Prop :=
  ip ≠ in6addrAny ∧ ServerListed text ip ∧ ∃ before word after,
    gStrsplitBlank text = before ++ word :: after ∧ (∃ start, ReadAs word in6addrAny start) ∧
      ∀ w ∈ before, ∀ start, ¬ReadAs w ip start

theorem mem_inaddrs_iff {text : Bytes} {ip : In6Addr} :
    ip ∈ inaddrs text ↔ ServerListed text ip := by
  rw [inaddrs, List.mem_filterMap, ServerListed]
  simp only [wordInaddr_eq_some_iff]

/-- Where `::` stands in the array and where it stands in the text. -/
theorem exists_any_before_iff {words : List Bytes} {ip : In6Addr} :
    (∃ before after, words.filterMap wordInaddr = before ++ in6addrAny :: after ∧ ip ∉ before) ↔
      ∃ before word after, words = before ++ word :: after ∧
        (∃ start, ReadAs word in6addrAny start) ∧ ∀ w ∈ before, ∀ start, ¬ReadAs w ip start := by
  constructor
  · rintro ⟨before, after, heq, hbefore⟩
    obtain ⟨ws, ws', rfl, rfl, hws'⟩ := List.filterMap_eq_append_iff.1 heq
    obtain ⟨skipped, word, rest, rfl, hskipped, hword, -⟩ := List.filterMap_eq_cons_iff.1 hws'
    refine ⟨ws ++ skipped, word, rest, (List.append_assoc _ _ _).symm,
      wordInaddr_eq_some_iff.1 hword, fun w hw start hread ↦ ?_⟩
    have hsome := wordInaddr_eq_some_iff.2 ⟨start, hread⟩
    rcases List.mem_append.1 hw with hw | hw
    · exact hbefore (List.mem_filterMap.2 ⟨w, hw, hsome⟩)
    · rw [hskipped w hw] at hsome
      cases hsome
  · rintro ⟨before, word, after, rfl, hword, hbefore⟩
    refine ⟨before.filterMap wordInaddr, after.filterMap wordInaddr, ?_, fun h ↦ ?_⟩
    · rw [List.filterMap_append, List.filterMap_cons_some (wordInaddr_eq_some_iff.2 hword)]
    · obtain ⟨w, hw, hsome⟩ := List.mem_filterMap.1 h
      obtain ⟨start, hread⟩ := wordInaddr_eq_some_iff.1 hsome
      exact hbefore w hw start hread

/-- The end of the array hides nothing. -/
theorem append_mark_iff {items : List In6Addr} {ip : In6Addr} (hmem : ip ∈ items) :
    (∃ before after, items ++ [in6addrAny] = before ++ in6addrAny :: after ∧ ip ∉ before) ↔
      ∃ before after, items = before ++ in6addrAny :: after ∧ ip ∉ before := by
  constructor
  · rintro ⟨before, after, heq, hbefore⟩
    rcases List.eq_nil_or_concat after with rfl | ⟨after, last, rfl⟩
    · obtain ⟨rfl, -⟩ := List.append_inj' heq rfl
      exact absurd hmem hbefore
    · rw [List.concat_eq_append, ← List.cons_append, ← List.append_assoc] at heq
      exact ⟨before, after, (List.append_inj' heq rfl).1, hbefore⟩
  · rintro ⟨before, after, rfl, hbefore⟩
    exact ⟨before, after ++ [in6addrAny], by rw [List.append_assoc, List.cons_append], hbefore⟩

/-- **A server is authorised as the configuration says exactly if** no `::` is listed before it. -/
theorem authorisedExactly_iff (text : Bytes) (ip : In6Addr) :
    AuthorisedExactly text ip ↔ ¬HiddenServer text ip := by
  rw [AuthorisedExactly, generateInaddrList_eq]
  simp only [Option.some.injEq, exists_eq_left']
  rw [HiddenServer, ← exists_any_before_iff, ← mem_inaddrs_iff, ← inaddrs]
  by_cases hany : ip = in6addrAny
  · subst hany
    refine iff_of_true (iff_of_false ?_ fun h ↦ h.1 rfl) fun h ↦ h.1 rfl
    split_ifs
    · exact nofun
    · exact searchUntil_mark_ne_true _
  by_cases hmem : ip ∈ inaddrs text
  · have hsearch := @searchUntil_ne_true_iff _ _ in6addrAny ip _
      (List.mem_append_left [in6addrAny] hmem)
    rw [append_mark_iff hmem] at hsearch
    rw [if_neg (List.ne_nil_of_mem hmem), checkInaddrInArray]
    constructor
    · rintro h ⟨-, -, hhidden⟩
      exact hsearch.2 hhidden (h.2 ⟨hany, hmem⟩)
    · intro h
      refine iff_of_true ?_ ⟨hany, hmem⟩
      by_contra hne
      exact h ⟨hany, hmem, hsearch.1 hne⟩
  · refine iff_of_true (iff_of_false ?_ fun h ↦ hmem h.2) fun h ↦ hmem h.2.1
    split_ifs
    · exact nofun
    · intro h
      rcases List.mem_append.1 (mem_of_searchUntil h) with h | h
      · exact hmem h
      · exact hany (List.mem_singleton.1 h)

/-- Two servers with `::` between them. -/
def hiddenServerText : Bytes := ascii "192.168.0.2 :: 192.168.0.3"

theorem hiddenServer_not_authorised : ¬AuthorisedExactly hiddenServerText serverAddr := by
  rintro ⟨array, harray, hiff⟩
  have hlist : generateInaddrList (some hiddenServerText) =
      some (some [clientAddr, in6addrAny, serverAddr, in6addrAny]) := by decide +kernel
  rw [hlist, Option.some.injEq] at harray
  subst harray
  have hread : wordInaddr (ascii "192.168.0.3") = some serverAddr := by decide +kernel
  have hlisted : ServerListed hiddenServerText serverAddr :=
    ⟨ascii "192.168.0.3", by decide +kernel, wordInaddr_eq_some_iff.1 hread⟩
  have hcheck := hiff.2 ⟨by decide +kernel, hlisted⟩
  exact absurd hcheck (by decide +kernel)

end Nufw
