import Nufw.Emc.Directory

/-!
# The networks of the data file

What a line means: a network and a server (`networkOf`). EMC routes a file if it loads, and passes a
request on to just the connected servers for which some line has a network with the host in it
(`Routed`).

A line that is not well formed does not get skipped, it makes EMC crash; and of the others not all
have an effect. IPv6 networks are never compared. A network whose address has bits behind its length
has no host in it. A line replaces an earlier one with the same address. And lengths are taken
modulo 2^16. So a file is routed if and only if it loads and, for every server, the lines that have
an effect cover the same hosts as the lines that are well formed (`emc_routed_iff`).
-/

namespace Nufw.Emc

/-! ### What a line means -/

namespace IpAddr

/-- The number of bits of an address. -/
def width : IpAddr → ℕ
  | inet _ => 32
  | inet6 _ => 128

/-- The address as a number. -/
def toNat : IpAddr → ℕ
  | inet u4 => u4.toNat
  | inet6 addr => ofBigEndian addr.toList

end IpAddr

/-- A network, and the server for its hosts. -/
structure Network where
  addr : IpAddr
  length : ℕ
  server : Bytes
  deriving DecidableEq

/-- The first `length` bits of the address of the host are those of the network. -/
def Network.Contains (net : Network) (host : IpAddr) : Prop :=
  host.family = net.addr.family ∧ host.toNat / 2 ^ (net.addr.width - net.length) =
    net.addr.toNat / 2 ^ (net.addr.width - net.length)

/-- The network of a line, if it is well formed: an address, a length that is a number and not
larger than the width of the address, and a server. -/
def networkOf (resolve : Resolver) (line : Bytes) : Option Network :=
  match fields line with
  | field :: server :: _ => do
    let (mask, number) ← splitMask field
    let info ← resolve mask
    match info, scanNumber number with
    | .ip addr, some (false, n, []) => if n ≤ addr.width then some ⟨addr, n, server⟩ else none
    | _, _ => none
  | _ => none

/-- The lines of a file, however long they are. -/
def lines (file : Bytes) : List Bytes := (readAll file.length file.length file).map cString

/-- Some line has a network for the server with the host in it. -/
def Covered (resolve : Resolver) (file : Bytes) (server : Bytes) (host : IpAddr) : Prop :=
  ∃ line ∈ lines file, ∃ net, networkOf resolve line = some net ∧ net.server = server ∧
    net.Contains host

/-- **The file is routed**: it loads, and a request goes to just the connected servers for which
some line has a network with the host in it. -/
def Routed (resolve : Resolver) (file : Bytes) : Prop :=
  ∃ directory, emcParseDatafile resolve file = some directory ∧
    ∀ clients hostname, ∀ ctx ∈ clients,
      (ctx ∈ emcDispatchAuthRequests resolve directory clients hostname ↔
        ∃ host, resolve hostname = some (.ip host) ∧ Covered resolve file ctx.address host)

/-! ### The order of the tree -/

theorem orderWords_eq {l m : List ℕ} (h : l.length = m.length) : orderWords l m = compare l m := by
  induction l generalizing m with
  | nil =>
    obtain rfl := List.length_eq_zero_iff.1 h.symm
    rfl
  | cons a l ih =>
    obtain _ | ⟨b, m⟩ := m
    · cases h
    · rw [orderWords, List.compare_cons_cons, ih (Nat.succ.inj h)]
      split
      · rename_i hlt
        rw [Nat.compare_eq_lt.2 hlt]
        rfl
      · split
        · rename_i hgt
          rw [Nat.compare_eq_gt.2 hgt]
          rfl
        · obtain rfl : a = b := by omega
          rw [Nat.compare_eq_eq.2 rfl]
          rfl

/-- What the networks are ordered by. -/
def key (n : Netmask) : List ℕ := n.ip.family :: n.ip.words

theorem emcNetmaskOrderFunc_eq (m n : Netmask) :
    emcNetmaskOrderFunc m n = compare (key m) (key n) := by
  have hlength : m.ip.family = n.ip.family → m.ip.words.length = n.ip.words.length := by
    cases m.ip <;> cases n.ip <;> simp [IpAddr.family, IpAddr.words]
  rw [emcNetmaskOrderFunc, key, key, List.compare_cons_cons]
  split
  · rename_i hlt
    rw [Nat.compare_eq_lt.2 hlt]
    rfl
  · split
    · rename_i hgt
      rw [Nat.compare_eq_gt.2 hgt]
      rfl
    · have heq : m.ip.family = n.ip.family := by omega
      rw [orderWords_eq (hlength heq), Nat.compare_eq_eq.2 heq]
      rfl

instance transCmpOrder : Std.TransCmp emcNetmaskOrderFunc := by
  have h : emcNetmaskOrderFunc = compareOn key := by
    funext m n
    exact emcNetmaskOrderFunc_eq m n
  rw [h]
  infer_instance

/-- An IPv4 network is replaced by one with the same address. -/
theorem order_eq_iff {m n : Netmask} {u4 : BitVec 32} (h : n.ip = .inet u4) :
    emcNetmaskOrderFunc m n = .eq ↔ m.ip = .inet u4 := by
  rw [emcNetmaskOrderFunc_eq, Std.LawfulEqCmp.compare_eq_iff_eq, key, key, h]
  cases m.ip with
  | inet u => simp [IpAddr.family, IpAddr.words, BitVec.toNat_inj]
  | inet6 addr => simp [IpAddr.family]

/-! ### What EMC makes of a line -/

/-- The network that EMC takes a line for: any number is a length, modulo 2^16. -/
def takenFor (resolve : Resolver) (line : Bytes) : Option Network :=
  match fields line with
  | field :: server :: _ => do
    let (mask, masklen) ← extractIpMask field
    match resolve mask with
    | some (.ip addr) => some ⟨addr, masklen, server⟩
    | _ => none
  | _ => none

/-- The shift for the mask of an IPv4 network is defined. -/
def Network.Shiftable (net : Network) : Prop :=
  net.addr.family = 2 → 1 ≤ net.length ∧ net.length ≤ 32

instance decidableShiftable (net : Network) : Decidable net.Shiftable :=
  inferInstanceAs (Decidable (_ → _))

/-- **A line that does not make EMC crash**: there is nothing in it, or an address, a number and a
server. -/
def Loadable (resolve : Resolver) (line : Bytes) : Prop :=
  line = [] ∨ ∃ net, takenFor resolve line = some net ∧ net.Shiftable

/-- The network as it is put into the tree. -/
def Network.netmask (net : Network) : Netmask where
  ip := net.addr
  mask := match net.addr with
    | .inet _ => some (0xffffffff#32 <<< (32 - net.length))
    | .inet6 _ => none
  length := net.length
  nuauthServer := some net.server

theorem fields_eq_nil {line : Bytes} : fields line = [] ↔ line = [] := by
  rw [fields]
  split
  · rename_i h
    simp [h]
  · rename_i h
    rw [strsplitSet]
    split <;> simp [h]

theorem convertStrToNetmask_eq {resolve : Resolver} {mask : Bytes} {addr : IpAddr}
    (h : resolve mask = some (.ip addr)) (masklen : ℕ) (server : Bytes) :
    (convertStrToNetmask resolve mask masklen).map
        (Option.map fun n ↦ { n with nuauthServer := some server }) =
      if (Network.mk addr masklen server).Shiftable then
        some (some (Network.mk addr masklen server).netmask)
      else none := by
  rw [convertStrToNetmask, h]
  cases addr with
  | inet u4 =>
    by_cases hs : (Network.mk (.inet u4) masklen server).Shiftable
    · obtain ⟨hpos, hle⟩ : 1 ≤ masklen ∧ masklen ≤ 32 := hs rfl
      rw [if_pos hs]
      dsimp only
      rw [if_neg (by omega)]
      rfl
    · have hlen : masklen = 0 ∨ 32 < masklen := by
        by_contra hlen
        have hrange : 1 ≤ masklen ∧ masklen ≤ 32 := by omega
        exact hs fun _ ↦ hrange
      rw [if_neg hs]
      dsimp only
      rw [if_pos hlen]
      rfl
  | inet6 addr =>
    have hs : (Network.mk (.inet6 addr) masklen server).Shiftable := by
      intro hf
      cases hf
    rw [if_pos hs]
    rfl

/-- **`_emc_parse_line`, line by line.** -/
theorem emcParseLine_eq (resolve : Resolver) (line : Bytes) :
    emcParseLine resolve line =
      if line = [] then some none
      else match takenFor resolve line with
        | some net => if net.Shiftable then some (some net.netmask) else none
        | none => none := by
  by_cases hline : line = []
  · rw [if_pos hline, emcParseLine, fields_eq_nil.2 hline]
  rw [if_neg hline]
  obtain ⟨field, rest, hfields⟩ := List.exists_cons_of_ne_nil (mt fields_eq_nil.1 hline)
  simp only [emcParseLine, takenFor, hfields]
  cases hext : extractIpMask field with
  | none => cases rest <;> simp [hext]
  | some p =>
    obtain ⟨mask, masklen⟩ := p
    obtain _ | ⟨server, rest⟩ := rest
    · simp
    · cases hres : resolve mask with
      | none => simp [hext, hres, convertStrToNetmask]
      | some info =>
        cases info with
        | other => simp [hext, hres, convertStrToNetmask]
        | ip addr =>
          have hconv := convertStrToNetmask_eq hres masklen server
          simp only [hext, hres, Option.bind_eq_bind, Option.bind_some]
          rcases hc : convertStrToNetmask resolve mask masklen with _ | _ | netmask
          · rw [hc] at hconv
            exact hconv
          · rw [hc] at hconv
            split at hconv <;> cases hconv
          · rw [hc] at hconv
            exact hconv

/-- The networks that EMC reads from a file, in their order. -/
def networks (resolve : Resolver) (file : Bytes) : List Network :=
  (buffers file).filterMap (takenFor resolve)

theorem takenFor_nil (resolve : Resolver) : takenFor resolve [] = none := rfl

/-- **A file that loads**: its networks are put into the tree one after the other. -/
theorem foldlM_insertLine_eq_some {resolve : Resolver} {bufs : List Bytes}
    {directory directory' : List Netmask} :
    bufs.foldlM (insertLine resolve) directory = some directory' ↔
      (∀ line ∈ bufs, Loadable resolve line) ∧
      directory' = (bufs.filterMap (takenFor resolve)).foldl
        (fun t net ↦ SearchTree.insert emcNetmaskOrderFunc net.netmask t) directory := by
  induction bufs generalizing directory with
  | nil => simp [eq_comm]
  | cons line bufs ih =>
    rw [List.foldlM_cons, Option.bind_eq_bind, Option.bind_eq_some_iff, List.forall_mem_cons,
      insertLine, emcParseLine_eq]
    by_cases hline : line = []
    · subst hline
      rw [if_pos rfl, List.filterMap_cons, takenFor_nil]
      simp only [Option.some.injEq, exists_eq_left', ih]
      exact and_congr_left fun _ ↦ ⟨fun h ↦ ⟨Or.inl rfl, h⟩, And.right⟩
    · rw [if_neg hline, List.filterMap_cons]
      cases htaken : takenFor resolve line with
      | none =>
        refine iff_of_false (by simp) fun h ↦ ?_
        obtain hnil | ⟨net, hnet, -⟩ := h.1.1
        · exact hline hnil
        · rw [htaken] at hnet
          cases hnet
      | some net =>
        by_cases hs : net.Shiftable
        · have hload : Loadable resolve line := Or.inr ⟨net, htaken, hs⟩
          simp only [if_pos hs, Option.some.injEq, exists_eq_left', ih, List.foldl_cons]
          exact and_congr_left fun _ ↦ ⟨fun h ↦ ⟨hload, h⟩, And.right⟩
        · refine iff_of_false (by simp [if_neg hs]) fun h ↦ ?_
          obtain hnil | ⟨net', hnet, hs'⟩ := h.1.1
          · exact hline hnil
          · rw [htaken] at hnet
            cases hnet
            exact hs hs'

theorem emcParseDatafile_eq_some {resolve : Resolver} {file : Bytes} {directory : List Netmask} :
    emcParseDatafile resolve file = some directory ↔
      (∀ line ∈ buffers file, Loadable resolve line) ∧ directory =
        SearchTree.build emcNetmaskOrderFunc ((networks resolve file).map Network.netmask) := by
  rw [emcParseDatafile, foldlM_insertLine_eq_some, SearchTree.build, networks, List.foldl_map]

/-! ### What EMC compares -/

/-- The mask cuts off the bits behind the length. -/
theorem and_mask_eq_iff (ipv4 u4 : BitVec 32) (k : ℕ) :
    ipv4 &&& 0xffffffff#32 <<< k = u4 ↔
      2 ^ k ∣ u4.toNat ∧ ipv4.toNat / 2 ^ k = u4.toNat / 2 ^ k := by
  have hones : 0xffffffff#32 = BitVec.allOnes 32 := rfl
  have hle : ipv4.toNat / 2 ^ k * 2 ^ k ≤ ipv4.toNat := Nat.div_mul_le_self _ _
  have hlt : ipv4.toNat / 2 ^ k * 2 ^ k < 2 ^ 32 := Nat.lt_of_le_of_lt hle ipv4.isLt
  rw [hones, ← BitVec.shiftLeft_ushiftRight, ← BitVec.toNat_inj, BitVec.toNat_shiftLeft,
    BitVec.toNat_ushiftRight, Nat.shiftRight_eq_div_pow, Nat.shiftLeft_eq, Nat.mod_eq_of_lt hlt]
  constructor
  · intro h
    rw [← h, Nat.mul_div_cancel _ (Nat.two_pow_pos k)]
    exact ⟨Nat.dvd_mul_left _ _, rfl⟩
  · rintro ⟨hdvd, hdiv⟩
    rw [hdiv, Nat.div_mul_cancel hdvd]

/-- **A network has an effect**: it is one of IPv4, and its address has no bits behind its
length. -/
def Network.Compared (net : Network) : Prop :=
  net.addr.family = 2 ∧ 2 ^ (32 - net.length) ∣ net.addr.toNat

theorem isIncluded_iff {resolve : Resolver} {net : Network} {hostname : Bytes} :
    emcNetmaskIsIncluded resolve net.netmask hostname = true ↔
      ∃ host, resolve hostname = some (.ip host) ∧ net.Compared ∧ net.Contains host := by
  obtain ⟨addr, length, server⟩ := net
  cases addr with
  | inet6 addr =>
    refine iff_of_false ?_ fun h ↦ ?_
    · rw [emcNetmaskIsIncluded]
      simp [Network.netmask]
    · obtain ⟨host, -, hcompared, -⟩ := h
      cases hcompared.1
  | inet u4 =>
    rcases hres : resolve hostname with _ | (host | _)
    · simp [emcNetmaskIsIncluded, hres]
    · cases host with
      | inet6 addr =>
        refine iff_of_false (by simp [emcNetmaskIsIncluded, hres]) ?_
        rintro ⟨host, hhost, -, hfamily, -⟩
        cases hhost
        cases hfamily
      | inet ipv4 =>
        have hincluded : emcNetmaskIsIncluded resolve (Network.mk (.inet u4) length server).netmask
            hostname = decide (ipv4 &&& 0xffffffff#32 <<< (32 - length) = u4) := by
          rw [emcNetmaskIsIncluded, hres]
          rfl
        rw [hincluded, decide_eq_true_eq, and_mask_eq_iff]
        constructor
        · rintro ⟨hdvd, hdiv⟩
          exact ⟨.inet ipv4, rfl, ⟨rfl, hdvd⟩, rfl, hdiv⟩
        · rintro ⟨host, hhost, ⟨-, hdvd⟩, -, hdiv⟩
          cases hhost
          exact ⟨hdvd, hdiv⟩
    · simp [emcNetmaskIsIncluded, hres]

/-- **Some line with an effect has a network for the server with the host in it**: an IPv4 network
without bits behind its length, that no later line with the same address replaces. -/
def Served (resolve : Resolver) (file : Bytes) (server : Bytes) (host : IpAddr) : Prop :=
  ∃ l₁ net l₂, networks resolve file = l₁ ++ net :: l₂ ∧ (∀ net' ∈ l₂, net'.addr ≠ net.addr) ∧
    net.Compared ∧ net.server = server ∧ net.Contains host

theorem Network.Compared.order_eq_iff {net net' : Network} (h : net.Compared) :
    emcNetmaskOrderFunc net'.netmask net.netmask = .eq ↔ net'.addr = net.addr := by
  obtain ⟨addr, length, server⟩ := net
  cases addr with
  | inet u4 => exact Emc.order_eq_iff rfl
  | inet6 addr => cases h.1

theorem mem_dispatch_iff {resolve : Resolver} {file : Bytes} {clients : List ClientContext}
    {hostname : Bytes} {ctx : ClientContext} (hctx : ctx ∈ clients) :
    ctx ∈ emcDispatchAuthRequests resolve (SearchTree.build emcNetmaskOrderFunc
        ((networks resolve file).map Network.netmask)) clients hostname ↔
      ∃ host, resolve hostname = some (.ip host) ∧ Served resolve file ctx.address host := by
  rw [emcDispatchAuthRequests, List.mem_flatMap]
  constructor
  · rintro ⟨n, hn, hsend⟩
    obtain ⟨l₁, l₂, hl, hlast⟩ := SearchTree.mem_build.1 hn
    obtain ⟨m₁, m₂, hm, rfl, hm₂⟩ := List.map_eq_append_iff.1 hl
    obtain ⟨net, m₂, rfl, rfl, rfl⟩ := List.map_eq_cons_iff.1 hm₂
    rw [emcCheckSendAuthRequest] at hsend
    split at hsend
    · rename_i hincluded
      obtain ⟨host, hhost, hcompared, hcontains⟩ := isIncluded_iff.1 hincluded
      refine ⟨host, hhost, m₁, net, m₂, hm, fun net' hnet' haddr ↦ ?_, hcompared, ?_, hcontains⟩
      · exact hlast _ (List.mem_map_of_mem hnet') (hcompared.order_eq_iff.2 haddr)
      · exact Option.some.inj (of_decide_eq_true (List.mem_filter.1 hsend).2)
    · cases hsend
  · rintro ⟨host, hhost, l₁, net, l₂, hl, hlast, hcompared, hserver, hcontains⟩
    refine ⟨net.netmask, SearchTree.mem_build.2
      ⟨l₁.map Network.netmask, l₂.map Network.netmask, ?_, fun n hn ↦ ?_⟩, ?_⟩
    · rw [hl, List.map_append, List.map_cons]
    · obtain ⟨net', hnet', rfl⟩ := List.mem_map.1 hn
      exact mt hcompared.order_eq_iff.1 (hlast net' hnet')
    · rw [emcCheckSendAuthRequest, if_pos (isIncluded_iff.2 ⟨host, hhost, hcompared, hcontains⟩)]
      exact List.mem_filter.2 ⟨hctx, decide_eq_true (congrArg some hserver)⟩

/-- **When a file is routed.** -/
theorem routed_iff_same {resolve : Resolver} {file : Bytes} :
    Routed resolve file ↔ (∀ line ∈ buffers file, Loadable resolve line) ∧
      ∀ hostname host server, resolve hostname = some (.ip host) →
        (Served resolve file server host ↔ Covered resolve file server host) := by
  constructor
  · rintro ⟨directory, hparse, hroute⟩
    obtain ⟨hload, rfl⟩ := emcParseDatafile_eq_some.1 hparse
    refine ⟨hload, fun hostname host server hhost ↦ ?_⟩
    -- one server is connected, under that name
    have hctx : ClientContext.mk 0 server ∈ [ClientContext.mk 0 server] := List.mem_singleton.2 rfl
    have h := hroute [⟨0, server⟩] hostname ⟨0, server⟩ hctx
    rw [mem_dispatch_iff hctx, hhost] at h
    simpa using h
  · rintro ⟨hload, hsame⟩
    refine ⟨_, emcParseDatafile_eq_some.2 ⟨hload, rfl⟩, fun clients hostname ctx hctx ↦ ?_⟩
    rw [mem_dispatch_iff hctx]
    exact exists_congr fun host ↦ and_congr_right fun hhost ↦ hsame hostname host ctx.address hhost

/-! ### Tidy files -/

/-- **A tidy file**: the lines fit into the buffer of `fgets`, each has nothing in it or an IPv4
network, of a positive length and without bits behind it, and two lines with the same address have
the same network and server. -/
structure Tidy (resolve : Resolver) (file : Bytes) : Prop where
  short : ∀ line ∈ readAll file.length file.length file, line.length ≤ 1023
  network : ∀ line ∈ lines file, line = [] ∨
    ∃ net, networkOf resolve line = some net ∧ net.Compared ∧ 1 ≤ net.length
  same : ∀ line ∈ lines file, ∀ line' ∈ lines file, ∀ net net',
    networkOf resolve line = some net → networkOf resolve line' = some net' →
    net.addr = net'.addr → net = net'

section

variable {resolve : Resolver} {file line : Bytes} {net : Network}

/-- EMC reads a well-formed line as it is meant. -/
theorem takenFor_of_networkOf (h : networkOf resolve line = some net) :
    takenFor resolve line = some net ∧ net.length ≤ net.addr.width := by
  rw [networkOf] at h
  split at h
  · rename_i field server rest hfields
    obtain ⟨⟨mask, number⟩, hsplit, h⟩ := Option.bind_eq_some_iff.1 h
    obtain ⟨info, hres, h⟩ := Option.bind_eq_some_iff.1 h
    split at h
    · rename_i addr n hscan
      split at h
      · rename_i hle
        cases h
        have hwidth : addr.width ≤ 128 := by cases addr <;> simp [IpAddr.width]
        have hn : n % 2 ^ 16 = n := Nat.mod_eq_of_lt (by omega)
        have hstrtoul : strtoul number = (n, []) := by
          rw [strtoul, hscan]
          dsimp only
          rw [if_neg (by omega), if_neg Bool.false_ne_true]
        have hextract : extractIpMask field = some (mask, n) := by
          rw [extractIpMask, hsplit, Option.bind_eq_bind, Option.bind_some]
          dsimp only
          rw [hstrtoul, if_pos rfl, hn]
        refine ⟨?_, hle⟩
        rw [takenFor, hfields]
        simp only [hextract, Option.bind_eq_bind, Option.bind_some, hres]
      · cases h
    · cases h
  · cases h

theorem fgets_of_length_le {n m : ℕ} {data : Bytes} (hm : data.length ≤ m)
    (h : (fgets m data).1.length ≤ n) : fgets n data = fgets m data := by
  induction data generalizing n m with
  | nil => cases n <;> cases m <;> rfl
  | cons c data ih =>
    obtain _ | m := m
    · cases hm
    · rw [fgets] at h ⊢
      split at h
      · obtain _ | n := n
        · cases h
        · rename_i hc
          rw [fgets, if_pos hc, if_pos hc]
      · obtain _ | n := n
        · cases h
        · rename_i hc
          rw [fgets, if_neg hc, if_neg hc, ih (Nat.le_of_succ_le_succ hm)
            (Nat.le_of_succ_le_succ h)]

theorem readAll_of_short {n m : ℕ} {fuel : ℕ} {data : Bytes} (hm : data.length ≤ m)
    (h : ∀ line ∈ readAll m fuel data, line.length ≤ n) :
    readAll n fuel data = readAll m fuel data := by
  induction fuel generalizing data with
  | zero => rfl
  | succ fuel ih =>
    obtain _ | ⟨c, data⟩ := data
    · rfl
    · rw [readAll] at h
      obtain ⟨hline, hrest⟩ := List.forall_mem_cons.1 h
      have hle := length_snd_fgets_le m (c :: data)
      rw [readAll, readAll, fgets_of_length_le hm hline, ih (Nat.le_trans hle hm) hrest]

theorem Tidy.buffers_eq (h : Tidy resolve file) : buffers file = lines file := by
  rw [buffers, lines, readAll_of_short (Nat.le_refl _) h.short]

theorem shiftable_of_networkOf (hnet : networkOf resolve line = some net)
    (hpos : 1 ≤ net.length) : net.Shiftable := by
  intro hfamily
  have hle := (takenFor_of_networkOf hnet).2
  cases haddr : net.addr with
  | inet u4 =>
    rw [haddr] at hle
    exact ⟨hpos, hle⟩
  | inet6 addr =>
    rw [haddr] at hfamily
    cases hfamily

/-- The last element with a property. -/
theorem exists_last {α : Type*} {p : α → Prop} {l : List α} (h : ∃ a ∈ l, p a) :
    ∃ l₁ a l₂, l = l₁ ++ a :: l₂ ∧ p a ∧ ∀ b ∈ l₂, ¬p b := by
  induction l with
  | nil => simp at h
  | cons a l ih =>
    by_cases hl : ∃ b ∈ l, p b
    · obtain ⟨l₁, b, l₂, rfl, hb, hl₂⟩ := ih hl
      exact ⟨a :: l₁, b, l₂, rfl, hb, hl₂⟩
    · push Not at hl
      obtain ⟨b, hb, hpb⟩ := h
      obtain rfl | hb := List.mem_cons.1 hb
      · exact ⟨[], b, l, rfl, hpb, hl⟩
      · exact absurd hpb (hl b hb)

/-- **A tidy file is routed.** -/
theorem Tidy.routed (h : Tidy resolve file) : Routed resolve file := by
  have hmem {net : Network} : net ∈ networks resolve file ↔
      ∃ line ∈ lines file, networkOf resolve line = some net := by
    rw [networks, h.buffers_eq, List.mem_filterMap]
    refine exists_congr fun line ↦ and_congr_right fun hline ↦ ?_
    refine ⟨fun htaken ↦ ?_, fun hnet ↦ (takenFor_of_networkOf hnet).1⟩
    obtain rfl | ⟨net', hnet', -⟩ := h.network line hline
    · cases htaken
    · rw [(takenFor_of_networkOf hnet').1] at htaken
      cases htaken
      exact hnet'
  refine routed_iff_same.2 ⟨fun line hline ↦ ?_, fun hostname host server _ ↦ ⟨?_, ?_⟩⟩
  · rw [h.buffers_eq] at hline
    obtain hnil | ⟨net, hnet, -, hpos⟩ := h.network line hline
    · exact Or.inl hnil
    · exact Or.inr ⟨net, (takenFor_of_networkOf hnet).1, shiftable_of_networkOf hnet hpos⟩
  · rintro ⟨l₁, net, l₂, hl, -, -, hserver, hcontains⟩
    obtain ⟨line, hline, hnet⟩ := hmem.1 (by rw [hl]; simp : net ∈ networks resolve file)
    exact ⟨line, hline, net, hnet, hserver, hcontains⟩
  · rintro ⟨line, hline, net, hnet, hserver, hcontains⟩
    obtain ⟨l₁, net', l₂, hl, haddr, hlast⟩ :=
      exists_last (p := fun net' ↦ net'.addr = net.addr) ⟨net, hmem.2 ⟨line, hline, hnet⟩, rfl⟩
    obtain ⟨line', hline', hnet'⟩ := hmem.1 (by rw [hl]; simp : net' ∈ networks resolve file)
    obtain rfl := h.same line' hline' line hline net' net hnet' hnet haddr
    obtain rfl | ⟨net'', hnet'', hcompared, -⟩ := h.network line hline
    · cases hnet
    · rw [hnet] at hnet''
      cases hnet''
      exact ⟨l₁, net', l₂, hl, hlast, hcompared, hserver, hcontains⟩

end

/-- **When EMC routes each request to every right server.** A file loads, and every request goes to
just the connected servers for which some line has a network with the host in it, if and only if no
line makes EMC crash and the lines that have an effect cover the same hosts, for every server, as
the lines that are well formed. A tidy file is routed. -/
theorem emc_routed_iff (resolve : Resolver) (file : Bytes) :
    (Routed resolve file ↔ (∀ line ∈ buffers file, Loadable resolve line) ∧
      ∀ hostname host server, resolve hostname = some (.ip host) →
        (Served resolve file server host ↔ Covered resolve file server host)) ∧
    (Tidy resolve file → Routed resolve file) :=
  ⟨routed_iff_same, Tidy.routed⟩

/-- A resolver that knows two addresses. -/
def tenResolver : Resolver := fun text ↦
  if text = ascii "10.0.0.0" then some (.ip (.inet 0x0a000000#32))
  else if text = ascii "10.1.2.3" then some (.ip (.inet 0x0a010203#32))
  else none

/-- A file with one network. -/
theorem one_network_routed : Routed tenResolver (ascii "10.0.0.0/8 nuauth1\n") := by
  refine (emc_routed_iff tenResolver _).2 ⟨by decide, fun line hline ↦ ?_, ?_⟩
  · obtain rfl : line = ascii "10.0.0.0/8 nuauth1\n" := List.mem_singleton.1 hline
    exact Or.inr ⟨⟨.inet 0x0a000000#32, 8, ascii "nuauth1"⟩, by decide, ⟨rfl, by decide⟩, by decide⟩
  · intro line hline line' hline' net net' hnet hnet' _
    obtain rfl : line = ascii "10.0.0.0/8 nuauth1\n" := List.mem_singleton.1 hline
    obtain rfl : line' = ascii "10.0.0.0/8 nuauth1\n" := List.mem_singleton.1 hline'
    rw [hnet] at hnet'
    exact Option.some.inj hnet'

/-- **An empty line makes EMC crash, and a network replaces another one with the same address**: the
server of the larger one does not get the request. -/
theorem networks_not_routed :
    emcParseDatafile tenResolver (ascii "\n") = none ∧
    ¬Routed tenResolver (ascii "10.0.0.0/8 nuauth1\n10.0.0.0/16 nuauth2\n") := by
  refine ⟨by decide, ?_⟩
  rintro ⟨directory, hparse, hroute⟩
  have hload : emcParseDatafile tenResolver (ascii "10.0.0.0/8 nuauth1\n10.0.0.0/16 nuauth2\n") =
      some [Network.netmask ⟨.inet 0x0a000000#32, 16, ascii "nuauth2"⟩] := by decide
  rw [hload] at hparse
  cases hparse
  have h := hroute [⟨4, ascii "nuauth1"⟩] (ascii "10.1.2.3") ⟨4, ascii "nuauth1"⟩
    (List.mem_singleton.2 rfl)
  have hcovered : Covered tenResolver (ascii "10.0.0.0/8 nuauth1\n10.0.0.0/16 nuauth2\n")
      (ascii "nuauth1") (.inet 0x0a010203#32) :=
    ⟨ascii "10.0.0.0/8 nuauth1\n", by decide, ⟨.inet 0x0a000000#32, 8, ascii "nuauth1"⟩,
      by decide, rfl, rfl, by decide⟩
  exact absurd (h.2 ⟨_, rfl, hcovered⟩) (by decide)

end Nufw.Emc
