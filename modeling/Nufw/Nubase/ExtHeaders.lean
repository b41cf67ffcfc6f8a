import Nufw.Nubase.PacketParser

/-!
# Extension headers

The loop of `get_ip_headers` over the extension headers of IPv6, as a walk: where it ends, if it
ends (`Ends`), and the chain of headers that a packet has (`HeaderChain`), with the lengths of RFC
2460 and RFC 4302.

A length byte counts units of eight bytes behind the first eight, and for an authentication header
units of four behind the first eight. The loop takes eight times the length byte for all of them. So
of the headers of a chain it takes only the fragment headers for what they are, and the
authentication headers of sixteen bytes (`chain_skipped_iff`).
-/

namespace Nufw

/-! ### The loop -/

/-- The loop over extension headers ends, with this protocol and at this offset. -/
def Ends (dgram : Memory) (protocol : UInt8) (offset : ℕ) (r : UInt8 × ℕ) : Prop :=
  ∃ fuel, skipExtHeaders dgram fuel protocol offset = some r

/-- The four protocols that share the generic extension header. -/
def GenericHeader (protocol : UInt8) : Prop :=
  protocol = ipprotoHopopts ∨ protocol = ipprotoRouting ∨ protocol = ipprotoDstopts ∨
    protocol = ipprotoAh

section Loop

variable {dgram : Memory} {protocol : UInt8} {offset : ℕ} {r r' : UInt8 × ℕ}

theorem nextExtHeader_generic (dgram : Memory) (offset : ℕ) (h : GenericHeader protocol) :
    nextExtHeader dgram protocol offset =
      some (dgram offset, offset + (dgram (offset + 1)).toNat * 8) := by
  rw [nextExtHeader]
  exact if_pos h

theorem nextExtHeader_fragment (dgram : Memory) (offset : ℕ) (h : protocol = ipprotoFragment) :
    nextExtHeader dgram protocol offset = some (dgram offset, offset + 8) := by
  have hne : ¬GenericHeader protocol := by
    rw [h]
    unfold GenericHeader
    decide
  rw [nextExtHeader]
  exact (if_neg hne).trans (if_pos h)

theorem nextExtHeader_none (dgram : Memory) (offset : ℕ) (h : ¬GenericHeader protocol)
    (h' : protocol ≠ ipprotoFragment) : nextExtHeader dgram protocol offset = none := by
  rw [nextExtHeader]
  exact (if_neg h).trans (if_neg h')

theorem ends_next {protocol' : UInt8} {offset' : ℕ}
    (h : nextExtHeader dgram protocol offset = some (protocol', offset')) :
    Ends dgram protocol offset r ↔ Ends dgram protocol' offset' r := by
  constructor
  · rintro ⟨fuel | fuel, hr⟩
    · cases hr
    · rw [skipExtHeaders, h] at hr
      exact ⟨fuel, hr⟩
  · rintro ⟨fuel, hr⟩
    refine ⟨fuel + 1, ?_⟩
    rw [skipExtHeaders, h]
    exact hr

theorem ends_last (h : nextExtHeader dgram protocol offset = none) :
    Ends dgram protocol offset r ↔ r = (protocol, offset) := by
  constructor
  · rintro ⟨fuel | fuel, hr⟩
    · cases hr
    · rw [skipExtHeaders, h] at hr
      exact (Option.some.inj hr).symm
  · rintro rfl
    refine ⟨1, ?_⟩
    rw [skipExtHeaders, h]

/-- The loop ends in one way. -/
theorem Ends.unique (h : Ends dgram protocol offset r) (h' : Ends dgram protocol offset r') :
    r = r' := by
  obtain ⟨fuel, h⟩ := h
  induction fuel generalizing protocol offset with
  | zero => cases h
  | succ fuel ih =>
    rw [skipExtHeaders] at h
    cases hnext : nextExtHeader dgram protocol offset with
    | none =>
      rw [hnext] at h
      rw [(ends_last hnext).1 h']
      exact (Option.some.inj h).symm
    | some next =>
      rw [hnext] at h
      exact ih ((ends_next hnext).1 h') h

end Loop

/-! ### Chains of headers -/

/-- The five extension headers. -/
def ExtHeader (protocol : UInt8) : Prop := GenericHeader protocol ∨ protocol = ipprotoFragment

/-- How long a header is: RFC 4302 for the authentication header, RFC 2460 for the others. -/
def rfcExtent (protocol length : UInt8) : ℕ :=
  if protocol = ipprotoFragment then 8
  else if protocol = ipprotoAh then (length.toNat + 2) * 4
  else (length.toNat + 1) * 8

/-- How far the loop goes. -/
def loopExtent (protocol length : UInt8) : ℕ :=
  if protocol = ipprotoFragment then 8 else length.toNat * 8

/-- **A chain of extension headers** within the first `size` bytes, from one of `protocol` at
`offset` on: the headers, and the protocol and the offset of what follows them. -/
inductive HeaderChain (dgram : Memory) (size : ℕ) :
    UInt8 → ℕ → List (UInt8 × ℕ) → UInt8 → ℕ → Prop
  | last {protocol : UInt8} {offset : ℕ} (h : ¬ExtHeader protocol) :
    HeaderChain dgram size protocol offset [] protocol offset
  | next {protocol protocol' : UInt8} {offset offset' : ℕ} {headers : List (UInt8 × ℕ)}
    (h : ExtHeader protocol)
    (hsize : offset + rfcExtent protocol (dgram (offset + 1)) ≤ size)
    (hrest : HeaderChain dgram size (dgram offset)
      (offset + rfcExtent protocol (dgram (offset + 1))) headers protocol' offset') :
    HeaderChain dgram size protocol offset ((protocol, offset) :: headers) protocol' offset'

/-- A fragment header, or an authentication header of sixteen bytes. -/
def IsExact (dgram : Memory) (header : UInt8 × ℕ) : Prop :=
  header.1 = ipprotoFragment ∨ header.1 = ipprotoAh ∧ dgram (header.2 + 1) = 2

section Chain

variable {dgram : Memory} {size offset offset' : ℕ} {protocol protocol' : UInt8}
  {headers : List (UInt8 × ℕ)}

theorem eight_le_rfcExtent (protocol length : UInt8) : 8 ≤ rfcExtent protocol length := by
  rw [rfcExtent]
  split_ifs <;> omega

/-- The loop goes as far as the header only if it is one of these. -/
theorem loopExtent_eq_iff (dgram : Memory) (protocol : UInt8) (offset : ℕ) :
    loopExtent protocol (dgram (offset + 1)) = rfcExtent protocol (dgram (offset + 1)) ↔
      IsExact dgram (protocol, offset) := by
  have htwo : dgram (offset + 1) = 2 ↔ (dgram (offset + 1)).toNat = 2 := UInt8.toNat_inj.symm
  rw [loopExtent, rfcExtent, IsExact, htwo]
  split_ifs with hfragment hah
  · exact iff_of_true rfl (Or.inl hfragment)
  · rw [or_iff_right hfragment, and_iff_right hah]
    omega
  · rw [or_iff_right hfragment]
    exact iff_of_false (by omega) fun h ↦ hah h.1

/-- A turn of the loop. -/
theorem nextExtHeader_eq (dgram : Memory) (offset : ℕ) (h : ExtHeader protocol) :
    nextExtHeader dgram protocol offset =
      some (dgram offset, offset + loopExtent protocol (dgram (offset + 1))) := by
  rw [loopExtent]
  split_ifs with hfragment
  · exact nextExtHeader_fragment dgram offset hfragment
  · exact nextExtHeader_generic dgram offset (h.resolve_right hfragment)

theorem nextExtHeader_eq_none (dgram : Memory) (offset : ℕ) (h : ¬ExtHeader protocol) :
    nextExtHeader dgram protocol offset = none :=
  nextExtHeader_none dgram offset (fun hgeneric ↦ h (Or.inl hgeneric)) fun hfragment ↦
    h (Or.inr hfragment)

theorem HeaderChain.not_extHeader
    (h : HeaderChain dgram size protocol offset headers protocol' offset') :
    ¬ExtHeader protocol' := by
  induction h with
  | last h => exact h
  | next _ _ _ ih => exact ih

/-- **A chain of exact headers** is skipped. -/
theorem HeaderChain.ends (h : HeaderChain dgram size protocol offset headers protocol' offset')
    (hexact : ∀ header ∈ headers, IsExact dgram header) :
    Ends dgram protocol offset (protocol', offset') := by
  induction h with
  | last h => exact (ends_last (nextExtHeader_eq_none dgram _ h)).2 rfl
  | next h _ _ ih =>
    obtain ⟨hhead, hrest⟩ := List.forall_mem_cons.1 hexact
    rw [ends_next (nextExtHeader_eq dgram _ h), (loopExtent_eq_iff dgram _ _).2 hhead]
    exact ih hrest

/-- The packet in which `protocol'` follows the header at `offset`. -/
def cutAfter (dgram : Memory) (protocol' : UInt8) (header : UInt8 × ℕ) : Memory :=
  Function.update dgram header.2 protocol'

theorem cutAfter_of_lt {i : ℕ} (h : i < offset) :
    cutAfter dgram protocol' (protocol, offset) i = dgram i :=
  Function.update_of_ne (Nat.ne_of_lt h) _ _

theorem cutAfter_self : cutAfter dgram protocol' (protocol, offset) offset = protocol' :=
  Function.update_self _ _ _

theorem cutAfter_succ :
    cutAfter dgram protocol' (protocol, offset) (offset + 1) = dgram (offset + 1) :=
  Function.update_of_ne (Nat.succ_ne_self offset) _ _

/-- Where the headers end, if that header is the last one. -/
def headerEnd (dgram : Memory) (header : UInt8 × ℕ) : ℕ :=
  header.2 + rfcExtent header.1 (dgram (header.2 + 1))

/-- **A header that is the last one is skipped if and only if it is exact.** The packet has been
walked up to it from `protocol₀` and `offset₀`, reading nothing behind. -/
theorem ends_cutAfter_iff {protocol₀ : UInt8} {offset₀ : ℕ} (h : ExtHeader protocol)
    (hlast : ¬ExtHeader protocol')
    (hreach : ∀ copy : Memory, (∀ i < offset, copy i = dgram i) → ∀ r,
      Ends copy protocol₀ offset₀ r ↔ Ends copy protocol offset r) :
    Ends (cutAfter dgram protocol' (protocol, offset)) protocol₀ offset₀
        (protocol', headerEnd dgram (protocol, offset)) ↔ IsExact dgram (protocol, offset) := by
  have hturn := nextExtHeader_eq (cutAfter dgram protocol' (protocol, offset)) offset h
  rw [cutAfter_self, cutAfter_succ] at hturn
  rw [hreach _ fun i ↦ cutAfter_of_lt, ends_next hturn, ends_last (nextExtHeader_eq_none _ _ hlast),
    headerEnd, ← loopExtent_eq_iff, Prod.mk.injEq]
  constructor
  · rintro ⟨-, heq⟩
    exact (Nat.add_left_cancel heq).symm
  · intro heq
    exact ⟨rfl, by rw [heq]⟩

/-- **All beginnings of a chain are skipped if and only if its headers are exact.** -/
theorem HeaderChain.forall_cutAfter_iff {protocol₀ : UInt8} {offset₀ : ℕ}
    (h : HeaderChain dgram size protocol offset headers protocol' offset')
    (hreach : ∀ copy : Memory, (∀ i < offset, copy i = dgram i) → ∀ r,
      Ends copy protocol₀ offset₀ r ↔ Ends copy protocol offset r) :
    (∀ header ∈ headers, Ends (cutAfter dgram protocol' header) protocol₀ offset₀
        (protocol', headerEnd dgram header)) ↔ ∀ header ∈ headers, IsExact dgram header := by
  induction h with
  | last h => simp
  | @next protocol protocol' offset offset' headers h _ hrest ih =>
    rw [List.forall_mem_cons, List.forall_mem_cons,
      ends_cutAfter_iff h hrest.not_extHeader hreach]
    refine and_congr_right fun hexact ↦ ih fun copy hcopy r ↦ ?_
    have hlong := eight_le_rfcExtent protocol (dgram (offset + 1))
    have hturn := nextExtHeader_eq copy offset h
    rw [hcopy offset (by omega), hcopy (offset + 1) (by omega),
      (loopExtent_eq_iff dgram protocol offset).2 hexact] at hturn
    rw [hreach copy (fun i hi ↦ hcopy i (by omega)), ends_next hturn]

theorem HeaderChain.le_offset
    (h : HeaderChain dgram size protocol offset headers protocol' offset') :
    ∀ header ∈ headers, offset ≤ header.2 := by
  induction h with
  | last h => simp
  | @next protocol protocol' offset offset' headers _ _ _ ih =>
    refine List.forall_mem_cons.2 ⟨Nat.le_refl _, fun header hheader ↦ ?_⟩
    exact Nat.le_trans (Nat.le_add_right _ _) (ih header hheader)

/-- **A beginning of a chain is a chain.** -/
theorem HeaderChain.cutAfter {protocol₀ : UInt8} {offset₀ : ℕ}
    (h : HeaderChain dgram size protocol offset headers protocol' offset')
    (hreach : ∀ copy : Memory, (∀ i < offset, copy i = dgram i) → ∀ headers₁ protocol₁ offset₁,
      HeaderChain copy size protocol offset headers₁ protocol₁ offset₁ →
        ∃ headers₂, HeaderChain copy size protocol₀ offset₀ headers₂ protocol₁ offset₁) :
    ∀ header ∈ headers, ∃ headers₁, HeaderChain (cutAfter dgram protocol' header) size protocol₀
      offset₀ headers₁ protocol' (headerEnd dgram header) := by
  induction h with
  | last h => simp
  | @next protocol protocol' offset offset' headers h hsize hrest ih =>
    have hlong := eight_le_rfcExtent protocol (dgram (offset + 1))
    refine List.forall_mem_cons.2 ⟨?_, ih fun copy hcopy headers₁ protocol₁ offset₁ hchain ↦ ?_⟩
    · refine hreach _ (fun i ↦ cutAfter_of_lt) [(protocol, offset)] _ _ (.next h ?_ ?_)
      · rw [cutAfter_succ]
        exact hsize
      · rw [cutAfter_self, cutAfter_succ]
        exact .last hrest.not_extHeader
    · refine hreach copy (fun i hi ↦ hcopy i (by omega)) ((protocol, offset) :: headers₁) _ _
        (.next h ?_ ?_)
      · rw [hcopy _ (by omega)]
        exact hsize
      · rw [hcopy _ (by omega), hcopy _ (by omega)]
        exact hchain

end Chain

/-! ### The headers of a packet -/

/-- `get_ip_headers` returns the offset, and sets the protocol. -/
def Skipped (t : Tracking) (dgram : Memory) (size : ℕ) (protocol : UInt8) (offset : ℕ) : Prop :=
  ∃ fuel t', getIpHeaders fuel t dgram size = some (t', offset) ∧ t'.protocol = protocol

/-- For IPv6 it is the loop that counts. -/
theorem skipped_iff {t : Tracking} {dgram : Memory} {size offset : ℕ} {protocol : UInt8}
    (hversion : dgram 0 / 16 = 6) (hsize : 40 ≤ size) :
    Skipped t dgram size protocol offset ↔ Ends dgram (dgram 6) 40 (protocol, offset) := by
  refine exists_congr fun fuel ↦ ?_
  rw [getIpHeaders_ipv6 t fuel hversion hsize]
  simp only [Option.map_eq_some_iff]
  constructor
  · rintro ⟨t', ⟨⟨protocol', offset'⟩, hskip, heq⟩, rfl⟩
    obtain ⟨rfl, rfl⟩ := Prod.mk.inj heq
    exact hskip
  · intro hskip
    exact ⟨_, ⟨_, hskip, rfl⟩, rfl⟩

/-- **Which extension headers are skipped.** Of a packet with a chain of extension headers, the
chain and each of its beginnings (the packet in which the protocol behind the chain follows one of
the headers) are skipped if and only if all headers are fragment headers, or authentication headers
of sixteen bytes. -/
theorem chain_skipped_iff {t : Tracking} {dgram : Memory} {size offset : ℕ} {protocol : UInt8}
    {headers : List (UInt8 × ℕ)} (hversion : dgram 0 / 16 = 6) (hsize : 40 ≤ size)
    (h : HeaderChain dgram size (dgram 6) 40 headers protocol offset) :
    (∀ header ∈ headers, (cutAfter dgram protocol header 0 / 16 = 6) ∧
      ∃ headers₁, HeaderChain (cutAfter dgram protocol header) size
        (cutAfter dgram protocol header 6) 40 headers₁ protocol (headerEnd dgram header)) ∧
    ((Skipped t dgram size protocol offset ∧ ∀ header ∈ headers,
        Skipped t (cutAfter dgram protocol header) size protocol (headerEnd dgram header)) ↔
      ∀ header ∈ headers, IsExact dgram header) := by
  have hfixed : ∀ header ∈ headers, ∀ i < 40, cutAfter dgram protocol header i = dgram i := by
    intro header hheader i hi
    have hle := h.le_offset header hheader
    exact Function.update_of_ne (by omega) _ _
  have hversion' : ∀ header ∈ headers, cutAfter dgram protocol header 0 / 16 = 6 := by
    intro header hheader
    rw [hfixed header hheader 0 (by omega), hversion]
  have hcut := h.forall_cutAfter_iff fun _ _ _ ↦ Iff.rfl
  have hskipped : (∀ header ∈ headers,
      Skipped t (cutAfter dgram protocol header) size protocol (headerEnd dgram header)) ↔
      ∀ header ∈ headers, IsExact dgram header := by
    rw [← hcut]
    refine forall₂_congr fun header hheader ↦ ?_
    rw [skipped_iff (hversion' header hheader) hsize, hfixed header hheader 6 (by omega)]
  refine ⟨fun header hheader ↦ ⟨hversion' header hheader, ?_⟩, ?_⟩
  · rw [hfixed header hheader 6 (by omega)]
    exact h.cutAfter (fun _ _ _ _ _ hchain ↦ ⟨_, hchain⟩) header hheader
  · rw [hskipped, and_iff_right_iff_imp]
    intro hexact
    exact (skipped_iff hversion hsize).2 (h.ends hexact)

/-- An IPv6 packet from `::` to `::`. -/
def ipv6Dgram (next : UInt8) (rest : Bytes) : Memory :=
  Memory.ofBytes ([0x60, 0, 0, 0, 0, 0, next, 64] ++ List.replicate 32 0 ++ rest)

/-- A UDP packet that is a fragment, authenticated. -/
def fragmentDgram : Memory :=
  ipv6Dgram 51 ([44, 2, 0, 0] ++ List.replicate 12 0 ++ [17, 0, 0, 0, 0, 0, 0, 1] ++
    [0, 53, 0, 53, 0, 8, 0, 0])

theorem fragmentDgram_skipped : Skipped Tracking.zero fragmentDgram 72 17 64 := by
  have hchain : HeaderChain fragmentDgram 72 (fragmentDgram 6) 40 [(51, 40), (44, 56)] 17 64 :=
    .next (Or.inl (by unfold GenericHeader; decide)) (by decide)
      (.next (Or.inr (by decide)) (by decide) (.last (by unfold ExtHeader GenericHeader; decide)))
  refine ((chain_skipped_iff (by decide) (by decide) hchain).2.2 ?_).1
  unfold IsExact
  decide

/-- A UDP packet with hop-by-hop options, eight bytes of padding. -/
def optionsDgram : Memory :=
  ipv6Dgram 0 ([17, 0, 1, 4, 0, 0, 0, 0] ++ [0, 53, 0, 53, 0, 8, 0, 0])

/-- **The ports of a packet with options are looked for in the options.** -/
theorem optionsDgram_not_skipped :
    HeaderChain optionsDgram 56 (optionsDgram 6) 40 [(0, 40)] 17 48 ∧
      Skipped Tracking.zero optionsDgram 56 17 40 ∧
        ¬Skipped Tracking.zero optionsDgram 56 17 48 := by
  have hversion : optionsDgram 0 / 16 = 6 := by decide
  have hends : Ends optionsDgram (optionsDgram 6) 40 (17, 40) := ⟨2, by decide⟩
  refine ⟨.next (Or.inl (by unfold GenericHeader; decide)) (by decide)
    (.last (by unfold ExtHeader GenericHeader; decide)), ?_, fun hskipped ↦ ?_⟩
  · exact (skipped_iff hversion (by decide)).2 hends
  · have heq := hends.unique ((skipped_iff hversion (by decide)).1 hskipped)
    exact absurd heq (by decide)

end Nufw
