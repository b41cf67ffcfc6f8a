import Nufw.Nuauth.PasswordCheck

/-!
# Addresses with a port

`parse_addr_port` of `auth_common.c` reads `[ipv6]:port`, `[ipv6]`, `ipv4:port` or `ipv4`; the same
function stands in `emc_server.c`. A text with brackets is cut at the first closing bracket, any
other at the first colon.

The first branch looks for a port that is missing, the second does not, and none looks for an
address that is missing. A bracket that is not closed, or an IPv6 address without brackets, ends in
the second branch too. These are all the texts that are taken for an address and are none
(`parsesAddrPort_iff`).
-/

namespace Nufw

/-- What `addr` and `port` point to. -/
structure AddrPort where
  addr : Option Bytes
  port : Option Bytes
  deriving DecidableEq

/-- `parse_addr_port`: what is returned, and the two results. -/
def parseAddrPort (text defaultPort : Bytes) (out : AddrPort) : Bool × AddrPort :=
  let pos := if text.head? = some 91 then strchr (text.drop 1) 93 else none
  match pos with
  | some (addr, behind) =>
    match behind with
    | [] => (true, ⟨some addr, some defaultPort⟩)
    | c :: port =>
      -- "[ipv6]port", and "[ipv6]:"
      if c ≠ 58 then (false, out)
      else if port = [] then (false, out)
      else (true, ⟨some addr, some port⟩)
  | none =>
    match strsplitMax text 58 2 with
    | [] => (false, out)
    | [addr] => (true, ⟨some addr, some defaultPort⟩)
    | addr :: port :: _ => (true, ⟨some addr, some port⟩)

/-! ### What is documented -/

/-- The text is written for the address and the port. -/
inductive AddrPortText (defaultPort : Bytes) : Bytes → Bytes → Bytes → Prop
  | ipv6Port {addr port : Bytes} (haddr : addr ≠ []) (hclosed : 93 ∉ addr) (hport : port ≠ []) :
    AddrPortText defaultPort (91 :: addr ++ 93 :: 58 :: port) addr port
  | ipv6 {addr : Bytes} (haddr : addr ≠ []) (hclosed : 93 ∉ addr) :
    AddrPortText defaultPort (91 :: addr ++ [93]) addr defaultPort
  | ipv4Port {addr port : Bytes} (haddr : addr ≠ []) (hopen : addr.head? ≠ some 91)
    (hcolon : 58 ∉ addr) (hport : port ≠ []) (hport' : 58 ∉ port) :
    AddrPortText defaultPort (addr ++ 58 :: port) addr port
  | ipv4 {addr : Bytes} (haddr : addr ≠ []) (hopen : addr.head? ≠ some 91) (hcolon : 58 ∉ addr) :
    AddrPortText defaultPort addr addr defaultPort

/-- The text is accepted just if it is written for an address and a port, and these are the
results; otherwise they are left alone. -/
def ParsesAddrPort (defaultPort text : Bytes) : Prop :=
  ∀ out, let r := parseAddrPort text defaultPort out
    (r.1 = true ↔ ∃ addr port, AddrPortText defaultPort text addr port) ∧
      (∀ addr port, AddrPortText defaultPort text addr port → r.2 = ⟨some addr, some port⟩) ∧
      (r.1 = false → r.2 = out)

/-- **A text that is taken for an address** and is none. -/
inductive TakenForAddr : Bytes → Prop
  /-- `[abc` -/
  | unclosed {rest : Bytes} (h : 93 ∉ rest) : TakenForAddr (91 :: rest)
  /-- `[]` -/
  | emptyBrackets : TakenForAddr [91, 93]
  /-- `[]:80` -/
  | emptyBracketsPort {port : Bytes} (h : port ≠ []) : TakenForAddr (91 :: 93 :: 58 :: port)
  /-- `:80` -/
  | noAddr (rest : Bytes) : TakenForAddr (58 :: rest)
  /-- `abc:` -/
  | noPort {addr : Bytes} (hopen : addr.head? ≠ some 91) (h : 58 ∉ addr) :
    TakenForAddr (addr ++ [58])
  /-- `fe80::1` -/
  | bareIpv6 {text : Bytes} (hopen : text.head? ≠ some 91) (h : 2 ≤ text.count 58) :
    TakenForAddr text

/-! ### The two branches -/

section

variable {text addr behind defaultPort : Bytes} {out : AddrPort}

/-- A bracket that is closed. -/
theorem parseAddrPort_bracket (hclosed : 93 ∉ addr) :
    parseAddrPort (91 :: addr ++ 93 :: behind) defaultPort out =
      match behind with
      | [] => (true, ⟨some addr, some defaultPort⟩)
      | c :: port =>
        if c ≠ 58 then (false, out)
        else if port = [] then (false, out)
        else (true, ⟨some addr, some port⟩) := by
  have hpos : strchr ((91 :: addr ++ 93 :: behind).drop 1) 93 = some (addr, behind) :=
    strchr_append hclosed behind
  rw [parseAddrPort, hpos]
  rfl

/-- No bracket, or one that is not closed. -/
theorem parseAddrPort_plain (hpos : text.head? = some 91 → 93 ∉ text.drop 1) :
    parseAddrPort text defaultPort out =
      match strsplitMax text 58 2 with
      | [] => (false, out)
      | [addr] => (true, ⟨some addr, some defaultPort⟩)
      | addr :: port :: _ => (true, ⟨some addr, some port⟩) := by
  have hnone : (if text.head? = some 91 then strchr (text.drop 1) 93 else none) = none := by
    split_ifs with hopen
    · rw [strchr, if_neg (hpos hopen)]
    · rfl
  rw [parseAddrPort, hnone]

theorem strsplitMax_cut (hcolon : 58 ∉ addr) (port : Bytes) :
    strsplitMax (addr ++ 58 :: port) 58 2 = [addr, port] := by
  rw [strsplitMax, if_neg (by simp), strsplitFrom, strchr_append hcolon]
  rfl

theorem strsplitMax_whole (hne : text ≠ []) (hcolon : 58 ∉ text) :
    strsplitMax text 58 2 = [text] := by
  rw [strsplitMax, if_neg hne, strsplitFrom, strchr, if_neg hcolon]

/-- A text that is written for an address is read. -/
theorem AddrPortText.parse {port : Bytes} (h : AddrPortText defaultPort text addr port) :
    parseAddrPort text defaultPort out = (true, ⟨some addr, some port⟩) := by
  cases h with
  | ipv6Port haddr hclosed hport =>
    rw [parseAddrPort_bracket hclosed]
    dsimp only
    rw [if_neg (fun hne ↦ hne rfl), if_neg hport]
  | ipv6 haddr hclosed => rw [parseAddrPort_bracket hclosed]
  | @ipv4Port addr port haddr hopen hcolon hport hport' =>
    have hhead : (addr ++ 58 :: port).head? ≠ some 91 := by
      rw [List.head?_append_of_ne_nil _ haddr]
      exact hopen
    rw [parseAddrPort_plain fun h91 ↦ absurd h91 hhead, strsplitMax_cut hcolon]
  | ipv4 haddr hopen hcolon =>
    rw [parseAddrPort_plain fun h91 ↦ absurd h91 hopen, strsplitMax_whole haddr hcolon]

/-- A text has a bracket that is closed, or is read in the second branch. -/
theorem bracket_or_plain (text : Bytes) :
    (∃ addr behind, text = 91 :: addr ++ 93 :: behind ∧ 93 ∉ addr) ∨
      (text.head? = some 91 → 93 ∉ text.drop 1) := by
  rcases text with _ | ⟨c, rest⟩
  · exact Or.inr fun h ↦ by cases h
  by_cases hopen : c = 91
  · by_cases hclosed : 93 ∈ rest
    · obtain ⟨addr, behind, rfl, haddr⟩ := List.eq_append_cons_of_mem hclosed
      exact Or.inl ⟨addr, behind, by rw [hopen, List.cons_append], haddr⟩
    · exact Or.inr fun _ ↦ hclosed
  · exact Or.inr fun h ↦ absurd (Option.some.inj h) hopen

/-- The second branch takes every text but the empty one. -/
theorem parseAddrPort_plain_ne (hpos : text.head? = some 91 → 93 ∉ text.drop 1)
    (hne : text ≠ []) : (parseAddrPort text defaultPort out).1 = true := by
  rw [parseAddrPort_plain hpos, strsplitMax, if_neg hne, strsplitFrom]
  cases strchr text 58 with
  | none => rfl
  | some cut => rfl

/-- On failure nothing is written. -/
theorem parseAddrPort_of_false (h : (parseAddrPort text defaultPort out).1 = false) :
    (parseAddrPort text defaultPort out).2 = out := by
  obtain ⟨addr, behind, rfl, hclosed⟩ | hpos := bracket_or_plain text
  · rw [parseAddrPort_bracket hclosed] at h ⊢
    rcases behind with _ | ⟨c, port⟩
    · cases h
    · dsimp only at h ⊢
      split_ifs at h ⊢
      · rfl
      · rfl
  · by_cases hne : text = []
    · subst hne
      rfl
    · rw [parseAddrPort_plain_ne hpos hne] at h
      cases h

/-- These texts are taken, -/
theorem TakenForAddr.accepted (h : TakenForAddr text) :
    (parseAddrPort text defaultPort out).1 = true := by
  cases h with
  | unclosed h => exact parseAddrPort_plain_ne (fun _ ↦ h) (List.cons_ne_nil _ _)
  | emptyBrackets => rfl
  | @emptyBracketsPort port h =>
    rw [show (91 :: 93 :: 58 :: port : Bytes) = 91 :: [] ++ 93 :: 58 :: port from rfl,
      parseAddrPort_bracket List.not_mem_nil]
    dsimp only
    rw [if_neg (fun hne ↦ hne rfl), if_neg h]
  | noAddr rest =>
    refine parseAddrPort_plain_ne (fun h ↦ ?_) (List.cons_ne_nil _ _)
    exact absurd (Option.some.inj h) (by decide)
  | @noPort addr hopen h =>
    refine parseAddrPort_plain_ne (fun h91 ↦ ?_) (by simp)
    rcases addr with _ | ⟨c, addr⟩
    · exact absurd h91 (by decide)
    · exact absurd h91 hopen
  | bareIpv6 hopen h =>
    refine parseAddrPort_plain_ne (fun h91 ↦ absurd h91 hopen) ?_
    rintro rfl
    cases h

theorem AddrPortText.addr_ne_nil {port : Bytes} (h : AddrPortText defaultPort text addr port) :
    addr ≠ [] := by
  cases h with
  | ipv6Port haddr => exact haddr
  | ipv6 haddr => exact haddr
  | ipv4Port haddr => exact haddr
  | ipv4 haddr => exact haddr

theorem AddrPortText.closed {port : Bytes} (h : AddrPortText defaultPort text addr port)
    (hopen : text.head? = some 91) : 93 ∈ text.drop 1 := by
  cases h with
  | ipv6Port haddr hclosed hport => simp
  | ipv6 haddr hclosed => simp
  | ipv4Port haddr hopen' =>
    rw [List.head?_append_of_ne_nil _ haddr] at hopen
    exact absurd hopen hopen'
  | ipv4 haddr hopen' => exact absurd hopen hopen'

theorem AddrPortText.colons {port : Bytes} (h : AddrPortText defaultPort text addr port)
    (hopen : text.head? ≠ some 91) : text.count 58 ≤ 1 ∧ text.getLast? ≠ some 58 := by
  cases h with
  | ipv6Port haddr hclosed hport => exact absurd rfl hopen
  | ipv6 haddr hclosed => exact absurd rfl hopen
  | @ipv4Port addr port haddr hopen' hcolon hport hport' =>
    constructor
    · rw [List.count_append, List.count_cons_self, List.count_eq_zero.2 hcolon,
        List.count_eq_zero.2 hport']
    · obtain hnil | ⟨port, last, rfl⟩ := List.eq_nil_or_concat port
      · exact absurd hnil hport
      · intro hlast
        have hend : addr ++ 58 :: port.concat last = (addr ++ 58 :: port) ++ [last] := by simp
        rw [hend, List.getLast?_concat] at hlast
        obtain rfl := Option.some.inj hlast
        exact hport' (by simp)
  | ipv4 haddr hopen' hcolon =>
    refine ⟨by rw [List.count_eq_zero.2 hcolon]; exact Nat.zero_le 1, fun hlast ↦ hcolon ?_⟩
    exact List.mem_of_getLast? hlast

/-- and none of them is written for an address. -/
theorem TakenForAddr.not_addrPortText (h : TakenForAddr text) {addr port : Bytes} :
    ¬AddrPortText defaultPort text addr port := by
  intro htext
  have hparse : parseAddrPort text defaultPort ⟨none, none⟩ = (true, ⟨some addr, some port⟩) :=
    htext.parse
  have haddr := htext.addr_ne_nil
  cases h with
  | unclosed h => exact h (htext.closed rfl)
  | emptyBrackets => exact haddr (Option.some.inj (congrArg (·.2.addr) hparse)).symm
  | @emptyBracketsPort port' h =>
    rw [show (91 :: 93 :: 58 :: port' : Bytes) = 91 :: [] ++ 93 :: 58 :: port' from rfl,
      parseAddrPort_bracket List.not_mem_nil] at hparse
    dsimp only at hparse
    rw [if_neg (fun hne ↦ hne rfl), if_neg h] at hparse
    exact haddr (Option.some.inj (congrArg (·.2.addr) hparse)).symm
  | noAddr rest =>
    have hhead : (58 :: rest).head? ≠ some 91 := fun h ↦ absurd (Option.some.inj h) (by decide)
    rw [parseAddrPort_plain fun h ↦ absurd h hhead,
      show (58 :: rest : Bytes) = [] ++ 58 :: rest from rfl,
      strsplitMax_cut List.not_mem_nil] at hparse
    exact haddr (Option.some.inj (congrArg (·.2.addr) hparse)).symm
  | @noPort addr' hopen h =>
    have hhead : (addr' ++ [58]).head? ≠ some 91 := by
      rcases addr' with _ | ⟨c, addr'⟩
      · exact fun h91 ↦ absurd (Option.some.inj h91) (by decide)
      · exact hopen
    exact (htext.colons hhead).2 (by simp)
  | bareIpv6 hopen h => exact absurd (htext.colons hopen).1 (by omega)

/-- Every other text that is taken is written for an address. -/
theorem exists_addrPortText (h : (parseAddrPort text defaultPort out).1 = true)
    (htaken : ¬TakenForAddr text) : ∃ addr port, AddrPortText defaultPort text addr port := by
  obtain ⟨addr, behind, rfl, hclosed⟩ | hpos := bracket_or_plain text
  · rw [parseAddrPort_bracket hclosed] at h
    rcases behind with _ | ⟨c, port⟩
    · have haddr : addr ≠ [] := by
        rintro rfl
        exact htaken .emptyBrackets
      exact ⟨addr, defaultPort, .ipv6 haddr hclosed⟩
    · dsimp only at h
      split_ifs at h with hcolon hport
      obtain rfl := not_not.1 hcolon
      have haddr : addr ≠ [] := by
        rintro rfl
        exact htaken (.emptyBracketsPort hport)
      exact ⟨addr, port, .ipv6Port haddr hclosed hport⟩
  · have hne : text ≠ [] := by
      rintro rfl
      cases h
    have hopen : text.head? ≠ some 91 := by
      intro hopen
      rcases text with _ | ⟨c, rest⟩
      · cases hopen
      · obtain rfl := Option.some.inj hopen
        exact htaken (.unclosed (hpos rfl))
    by_cases hcolon : 58 ∈ text
    · obtain ⟨addr, port, rfl, haddr⟩ := List.eq_append_cons_of_mem hcolon
      have hne' : addr ≠ [] := by
        rintro rfl
        exact htaken (.noAddr port)
      rw [List.head?_append_of_ne_nil _ hne'] at hopen
      have hport : port ≠ [] := by
        rintro rfl
        exact htaken (.noPort hopen haddr)
      refine ⟨addr, port, .ipv4Port hne' hopen haddr hport fun hport' ↦ htaken (.bareIpv6 ?_ ?_)⟩
      · rw [List.head?_append_of_ne_nil _ hne']
        exact hopen
      · rw [List.count_append, List.count_cons_self]
        have := List.count_pos_iff.2 hport'
        omega
    · exact ⟨text, defaultPort, .ipv4 hne hopen hcolon⟩

end

/-- **A text is accepted as documented exactly if** it is none of those that are taken for an
address. -/
theorem parsesAddrPort_iff (defaultPort text : Bytes) :
    ParsesAddrPort defaultPort text ↔ ¬TakenForAddr text := by
  constructor
  · intro h htaken
    obtain ⟨addr, port, htext⟩ := (h ⟨none, none⟩).1.1 htaken.accepted
    exact htaken.not_addrPortText htext
  · intro htaken out
    refine ⟨⟨fun h ↦ exists_addrPortText h htaken, ?_⟩, fun addr port htext ↦ ?_,
      parseAddrPort_of_false⟩
    · rintro ⟨addr, port, htext⟩
      rw [htext.parse]
    · rw [htext.parse]

/-- A port without an address. -/
theorem noAddr_not_parsed : ¬ParsesAddrPort (ascii "4129") (ascii ":80") := by
  intro h
  obtain ⟨addr, port, htext⟩ := (h ⟨none, none⟩).1.1 (by decide +kernel)
  exact (TakenForAddr.noAddr (ascii "80")).not_addrPortText htext

end Nufw
