import Mathlib.Data.List.TakeWhile
import Nufw.Clients.Sending
import Nufw.Nuauth.UserAuthsrv

/-!
# Announcements reach the server

The message of `send_user_pckt`, delivered whole to `treat_user_request` and decoded by
`user_request`, gives back the connections of the client. `announcements_accepted_iff` says when.

The parser rewrites the lengths in place, so a step of it changes the memory; it does so only within
the field or the request that it reads, and what follows is where the client has put it. One field
(`userFields_field`), one request (`userFields_item`, `userRequestLoop_item`), then all of them by
induction.

Client and server do not agree on what is too long. The client stays below `PACKET_SIZE`, which is
3084, and the longest message it can build has 1936 bytes; the server refuses what announces
`MAX_NUFW_PACKET_SIZE`, which is 1800, or more. An empty name and the source address `::` are
refused on purpose: one such item costs the whole message.
-/

namespace Nufw

open Memory

/-! ### What is announced -/

/-- A connection as it is announced. -/
structure Announcement where
  saddr : In6Addr
  daddr : In6Addr
  protocol : UInt8
  source : UInt16
  dest : UInt16
  appName : Option Bytes
  appSig : Option Bytes
  deriving DecidableEq

/-- The signature of an item, if it has one. -/
def itemSig (cache : PrgCache) (hash : Bool) (c : ConnT) : Option Bytes :=
  if hash ∧ cache.getsig c.inode ≠ [] then some (cache.getsig c.inode) else none

/-- What a client announces. -/
def ConnT.announcement (conf : Params) (env : UserEnv) (cache : PrgCache) (hash : Bool)
    (c : ConnT) : Announcement where
  saddr := c.ipSrc
  daddr := c.ipDst
  protocol := c.protocol.toUInt8
  source := c.portSrc
  dest := c.portDst
  appName := some (stringEscape conf env (cache.get c.inode))
  appSig := itemSig cache hash c

/-- What a server understands. -/
def Connection.announcement (c : Connection) : Announcement where
  saddr := c.tracking.saddr
  daddr := c.tracking.daddr
  protocol := c.tracking.protocol
  source := c.tracking.source
  dest := c.tracking.dest
  appName := c.appName
  appSig := c.appSig

/-- An item that the server does not refuse. -/
def ConnT.Announceable (cache : PrgCache) (c : ConnT) : Prop :=
  cache.get c.inode ≠ [] ∧ c.ipSrc ≠ in6addrAny

/-- The length of an item. -/
def itemLength (cache : PrgCache) (hash : Bool) (c : ConnT) : ℕ :=
  4 + 44 + (4 + 4 * (((cache.get c.inode).length + 2) / 3)) +
    if hash then 4 + (cache.getsig c.inode).length else 0

/-- The length of the whole message. -/
def announcedLength (cache : PrgCache) (hash : Bool) (carray : List ConnT) : ℕ :=
  4 + (carray.map (itemLength cache hash)).sum

/-! ### Lengths -/

theorem IsSignature.length_le {sig : Bytes} (h : IsSignature sig) : sig.length ≤ 136 := by
  obtain rfl | rfl | ⟨digits, hdigits, -, rfl⟩ := h
  · decide
  · decide
  · rw [List.length_append, hdigits]
    exact Nat.le_refl _

theorem IsSignature.zero_notMem {sig : Bytes} (h : IsSignature sig) : 0 ∉ sig := by
  obtain rfl | rfl | ⟨digits, -, hhex, rfl⟩ := h
  · exact List.not_mem_nil
  · decide
  · rw [List.mem_append, not_or]
    refine ⟨by decide, fun hzero ↦ ?_⟩
    have := hhex 0 hzero
    revert this
    unfold IsHexDigit
    decide

section

variable {cache : PrgCache} {hash : Bool} {c : ConnT} (conf : Params) {env : UserEnv}

theorem length_saslEncode64_get (cache : PrgCache) (inode : UInt64) :
    (saslEncode64 (cache.get inode)).length ≤ 84 := by
  have hlength := cache.length_get inode
  rw [prognameWidth] at hlength
  rw [length_saslEncode64]
  omega

theorem length_authfieldIpv6 (c : ConnT) : (authfieldIpv6 c).length = 44 := by
  simp [authfieldIpv6]

theorem length_authfieldApp (type option : UInt8) (content : Bytes) :
    (authfieldApp type option content).length = 4 + content.length := by
  simp only [authfieldApp, List.length_append, length_htons, List.length_cons, List.length_nil]

theorem length_itemFields (cache : PrgCache) (hash : Bool) (c : ConnT) :
    4 + (itemFields cache hash c).length = itemLength cache hash c := by
  rw [itemFields, itemLength, List.length_append, List.length_append, length_authfieldIpv6,
    length_authfieldApp, length_saslEncode64]
  cases hash with
  | false =>
    simp only [Bool.false_eq_true, if_false, List.length_nil]
    omega
  | true =>
    simp only [if_true, length_authfieldApp]
    omega

theorem itemLength_le (cache : PrgCache) (hash : Bool) (c : ConnT) :
    itemLength cache hash c ≤ 276 := by
  have hname := length_saslEncode64_get cache c.inode
  have hsig := (cache.isSignature_getsig c.inode).length_le
  rw [length_saslEncode64] at hname
  rw [itemLength]
  split
  · omega
  · omega

theorem length_authreqItem (order : ByteOrder) (cache : PrgCache) (hash : Bool) (seq : UInt32)
    (c : ConnT) : (authreqItem order cache hash seq c).length = itemLength cache hash c := by
  have hseq : (hostBytes16 order seq.toUInt16).length = 2 := by
    cases order with
    | little => rfl
    | big => rfl
  rw [authreqItem, List.length_append, List.length_append, hseq, length_htons]
  have := length_itemFields cache hash c
  omega

/-- The items, one after the other. -/
def authreqItems (order : ByteOrder) (cache : PrgCache) (hash : Bool) :
    UInt32 → List ConnT → Bytes
  | _, [] => []
  | seq, c :: carray =>
    authreqItem order cache hash seq c ++ authreqItems order cache hash (seq + 1) carray

theorem length_authreqItems (order : ByteOrder) (cache : PrgCache) (hash : Bool) (seq : UInt32)
    (carray : List ConnT) :
    (authreqItems order cache hash seq carray).length =
      (carray.map (itemLength cache hash)).sum := by
  induction carray generalizing seq with
  | nil => rfl
  | cons c carray ih =>
    rw [authreqItems, List.length_append, length_authreqItem, ih, List.map_cons, List.sum_cons]

theorem sum_itemLength_le (cache : PrgCache) (hash : Bool) (carray : List ConnT) :
    (carray.map (itemLength cache hash)).sum ≤ 276 * carray.length := by
  induction carray with
  | nil => exact Nat.le_refl _
  | cons c carray ih =>
    rw [List.map_cons, List.sum_cons, List.length_cons]
    have := itemLength_le cache hash c
    omega

/-- **The assertion does not fail** while there are at most `CONN_MAX` items. -/
theorem sendLoop_eq (order : ByteOrder) (cache : PrgCache) (hash : Bool) (seq : UInt32)
    (data : Bytes) (carray : List ConnT) (h : data.length + 276 * carray.length ≤ 276 * connMax) :
    sendLoop order cache hash seq data carray =
      some (data ++ authreqItems order cache hash seq carray) := by
  induction carray generalizing seq data with
  | nil => rw [sendLoop, authreqItems, List.append_nil]
  | cons c carray ih =>
    have hlength : (data ++ authreqItem order cache hash seq c).length + 276 * carray.length ≤
        276 * connMax := by
      rw [List.length_append, length_authreqItem]
      rw [List.length_cons] at h
      have := itemLength_le cache hash c
      omega
    have hassert : (4 + (data ++ authreqItem order cache hash seq c).length) % 65536 <
        packetSize := by
      have hsize : packetSize = 3084 := rfl
      have hmax : connMax = 7 := rfl
      rw [hmax] at hlength
      rw [hsize]
      omega
    rw [sendLoop, if_pos hassert, ih _ _ hlength, authreqItems, List.append_assoc]

/-- **The message** of `send_user_pckt`. -/
theorem sendUserPckt_eq (order : ByteOrder) (cache : PrgCache) (hash : Bool) (packetSeq : UInt32)
    {carray : List ConnT} (h : carray.length ≤ connMax) :
    sendUserPckt order cache hash packetSeq carray =
      some ([0x36, 0] ++ htons (UInt16.ofNat (announcedLength cache hash carray)) ++
        authreqItems order cache hash packetSeq carray) := by
  rw [sendUserPckt, List.take_of_length_le h, sendLoop_eq]
  · rw [Option.map_some, List.nil_append, length_authreqItems, announcedLength]
  · rw [List.length_nil]
    omega

/-! ### One field -/

/-- A field that the client has put in memory, once its length has been rewritten. -/
structure FieldAt (env : UserEnv) (m : Memory) (o : ℕ) (type : UInt8) (content : Bytes) : Prop where
  type_eq : (m.swap16 env.order (o + 2)).drop o 0 = type
  length_eq : (((m.swap16 env.order (o + 2)).drop o).host16 env.order 2).toNat = 4 + content.length
  content : ((m.swap16 env.order (o + 2)).drop o).Holds 4 content
  frame : ∀ i, i < o ∨ o + 4 ≤ i → m.swap16 env.order (o + 2) i = m i

theorem fieldAt_of_holds {m : Memory} {o : ℕ} {type option : UInt8} {content : Bytes}
    (hlength : 4 + content.length < 65536) (h : m.Holds o (authfieldApp type option content)) :
    FieldAt env m o type content := by
  rw [authfieldApp, holds_append, holds_append] at h
  obtain ⟨⟨⟨htype, -⟩, hlen⟩, hcontent⟩ := h
  have hframe : ∀ i, i < o ∨ o + 4 ≤ i → m.swap16 env.order (o + 2) i = m i :=
    fun i hi ↦ swap16_of_ne _ _ (by omega) (by omega)
  refine ⟨?_, ?_, ?_, hframe⟩
  · show m.swap16 env.order (o + 2) (o + 0) = type
    rw [swap16_of_ne _ _ (by omega) (by omega)]
    exact htype
  · rw [host16_drop, Holds.host16_swap16 (o := o + 2) env.order hlen,
      UInt16.toNat_ofNat_of_lt' hlength]
  · rw [holds_drop]
    refine hcontent.of_eq fun i hi _ ↦ hframe i (Or.inr ?_)
    exact hi

/-- **One field** is read, and nothing but its length is touched. -/
theorem userFields_field {m : Memory} {o : ℕ} {type option : UInt8} {content : Bytes}
    (hlength : 4 + content.length < 65536) (hm : m.Holds o (authfieldApp type option content))
    (rest : ℕ) {c c' : Connection}
    (hc : FieldAt env m o type content →
      userProcessFieldType conf env c ((4 + content.length + rest : ℕ) : Int)
        ((m.swap16 env.order (o + 2)).drop o) = some c') :
    ∃ m', (∀ fuel, userFields conf env (fuel + 1) m o ((4 + content.length + rest : ℕ) : Int) c =
        userFields conf env fuel m' (o + (4 + content.length)) (rest : ℕ) c') ∧
      ∀ i, i < o ∨ o + (4 + content.length) ≤ i → m' i = m i := by
  have h : FieldAt env m o type content := fieldAt_of_holds hlength hm
  have hfield : userProcessField conf env c ((4 + content.length + rest : ℕ) : Int) m o =
      some (4 + content.length, m.swap16 env.order (o + 2), c') := by
    rw [userProcessField, h.length_eq, if_neg (by omega), hc h]
    rfl
  refine ⟨m.swap16 env.order (o + 2), fun fuel ↦ ?_, fun i hi ↦ h.frame i (by omega)⟩
  rw [Nufw.userFields, if_neg (by omega), if_neg (by omega), hfield]
  dsimp only
  congr 1
  omega

theorem userFields_done (fuel : ℕ) (m : Memory) (o : ℕ) (c : Connection) :
    userFields conf env (fuel + 1) m o ((0 : ℕ) : Int) c = some (some (m, c)) := by
  rw [userFields, if_pos (by omega)]

theorem contentLength_of_fieldAt {m : Memory} {o : ℕ} {type : UInt8} {content : Bytes}
    (h : FieldAt env m o type content) (hlength : 4 + content.length < 65536) :
    contentLength env ((m.swap16 env.order (o + 2)).drop o) = content.length := by
  rw [contentLength, h.length_eq]
  omega

/-! ### The fields of an item -/

/-- The content of the IPv6 field. -/
def ipv6Content (c : ConnT) : Bytes :=
  c.ipSrc.toList ++ (c.ipDst.toList ++ ([c.protocol.toUInt8, 0, 0, 0] ++
    (htons c.portSrc ++ htons c.portDst)))

theorem length_ipv6Content (c : ConnT) : (ipv6Content c).length = 40 := by
  simp [ipv6Content]

theorem authfieldIpv6_eq (c : ConnT) : authfieldIpv6 c = authfieldApp 2 0 (ipv6Content c) := by
  rw [authfieldIpv6, authfieldApp, length_ipv6Content]
  simp only [ipv6Content, List.append_assoc]
  rfl

/-- The tracking of an item. -/
def ConnT.tracking (c : ConnT) : Tracking :=
  { Tracking.zero with
    saddr := c.ipSrc
    daddr := c.ipDst
    protocol := c.protocol.toUInt8
    source := c.portSrc
    dest := c.portDst }

/-- The name of the application of an item, if it has one. -/
def itemName (conf : Params) (env : UserEnv) (cache : PrgCache) (c : ConnT) : Option Bytes :=
  if cache.get c.inode = [] then none else some (stringEscape conf env (cache.get c.inode))

/-- `IPPROTO_TCP` or `IPPROTO_UDP`. -/
def ConnT.HasPorts (c : ConnT) : Prop :=
  c.protocol.toUInt8 = ipprotoTcp ∨ c.protocol.toUInt8 = ipprotoUdp

theorem FieldAt.ipv6 {m : Memory} {o : ℕ} (h : FieldAt env m o ipv6Field (ipv6Content c))
    (hports : c.HasPorts) (data : TlsBufferRead) (rest : ℕ) :
    userProcessFieldType conf env (newUserConnection data)
        ((4 + (ipv6Content c).length + rest : ℕ) : Int) ((m.swap16 env.order (o + 2)).drop o) =
      some { newUserConnection data with tracking := c.tracking } := by
  have hcontent := h.content
  have htype := h.type_eq
  generalize (m.swap16 env.order (o + 2)).drop o = field at *
  rw [ipv6Content, holds_append, holds_append, holds_append, holds_append] at hcontent
  obtain ⟨hsrc, hdst, ⟨hproto, -⟩, hsport, hdport⟩ := hcontent
  rw [Vector.length_toList] at hdst hproto hsport hdport
  rw [Vector.length_toList] at hproto hsport hdport
  have hfields : userProcessFieldIpv6 (newUserConnection data) field =
      some { newUserConnection data with tracking := c.tracking } := by
    rw [userProcessFieldIpv6]
    dsimp only
    rw [hsrc.bytes_eq, Holds.bytes_eq (o := 20) hdst, hproto, if_pos (show _ ∨ _ from hports),
      Holds.be16_eq (o := 40) hsport, Holds.be16_eq (o := 42) hdport]
    rfl
  rw [userProcessFieldType]
  dsimp only
  rw [htype, if_pos rfl, length_ipv6Content, if_neg (by omega), hfields]

theorem FieldAt.app {m : Memory} {o : ℕ}
    (h : FieldAt env m o appField (saslEncode64 (cache.get c.inode)))
    (hdecode : env.saslDecode64 (saslEncode64 (cache.get c.inode)) = some (cache.get c.inode))
    (connection : Connection) (rest : ℕ) :
    userProcessFieldType conf env connection
        ((4 + (saslEncode64 (cache.get c.inode)).length + rest : ℕ) : Int)
        ((m.swap16 env.order (o + 2)).drop o) =
      some { connection with appName := itemName conf env cache c } := by
  have hmax := length_saslEncode64_get cache c.inode
  have hlen := contentLength_of_fieldAt h (by omega)
  have hcontent := h.content.toList_bytes rfl
  have htype := h.type_eq
  have hlength := h.length_eq
  generalize (m.swap16 env.order (o + 2)).drop o = field at *
  have happ : userProcessFieldApp conf env connection
      (4 + (saslEncode64 (cache.get c.inode)).length) field =
        some { connection with appName := itemName conf env cache c } := by
    rw [userProcessFieldApp, hlength, hlen, if_neg (Nat.lt_irrefl _), itemName]
    by_cases hempty : cache.get c.inode = []
    · have hzero : (saslEncode64 (cache.get c.inode)).length = 0 := by
        rw [hempty]
        rfl
      rw [if_pos hempty, if_pos (Or.inr hzero)]
    · have hpos : (cache.get c.inode).length ≠ 0 := by
        rwa [ne_eq, List.length_eq_zero_iff]
      rw [if_neg hempty, hcontent, hdecode, if_neg]
      · dsimp only
        rw [cString_of_notMem (cache.zero_notMem_get c.inode)]
      · rw [length_saslEncode64] at hmax ⊢
        omega
  rw [userProcessFieldType, htype, hlength, if_neg (by decide), if_neg (by decide), if_pos rfl,
    if_neg (by omega), happ]

theorem FieldAt.sig {m : Memory} {o : ℕ} (h : FieldAt env m o hashField (cache.getsig c.inode))
    (connection : Connection) (rest : ℕ) :
    userProcessFieldType conf env connection
        ((4 + (cache.getsig c.inode).length + rest : ℕ) : Int)
        ((m.swap16 env.order (o + 2)).drop o) =
      some { connection with appSig := itemSig cache true c } := by
  have hmax := (cache.isSignature_getsig c.inode).length_le
  have hlen := contentLength_of_fieldAt h (by omega)
  have hcontent := h.content.toList_bytes rfl
  have htype := h.type_eq
  have hlength := h.length_eq
  generalize (m.swap16 env.order (o + 2)).drop o = field at *
  have hhash : userProcessFieldHash env connection (4 + (cache.getsig c.inode).length) field =
      { connection with appSig := itemSig cache true c } := by
    rw [userProcessFieldHash, hlength, hlen, if_neg (Nat.lt_irrefl _), itemSig]
    by_cases hempty : cache.getsig c.inode = []
    · rw [if_pos (Or.inr (by rw [hempty]; rfl)), if_neg (fun h ↦ h.2 hempty)]
    · have hpos : (cache.getsig c.inode).length ≠ 0 := by
        rwa [ne_eq, List.length_eq_zero_iff]
      rw [if_neg (by omega), if_pos ⟨rfl, hempty⟩, hcontent,
        cString_of_notMem (cache.isSignature_getsig c.inode).zero_notMem]
  rw [userProcessFieldType, htype, hlength, if_neg (by decide), if_neg (by decide),
    if_neg (by decide), if_pos rfl, if_neg (by omega), hhash]

/-- The connection of an item, before the session gives its part. -/
def filledConnection (conf : Params) (env : UserEnv) (cache : PrgCache) (hash : Bool)
    (data : TlsBufferRead) (c : ConnT) : Connection :=
  { newUserConnection data with
    tracking := c.tracking
    appName := itemName conf env cache c
    appSig := itemSig cache hash c }

/-- **All the fields of an item** are read, and only their memory is touched. -/
theorem userFields_item {m : Memory} {o : ℕ} (hm : m.Holds o (itemFields cache hash c))
    (hports : c.HasPorts)
    (hdecode : env.saslDecode64 (saslEncode64 (cache.get c.inode)) = some (cache.get c.inode))
    (data : TlsBufferRead) :
    ∃ m', (∀ fuel, userFields conf env (fuel + 4) m o ((itemFields cache hash c).length : Int)
        (newUserConnection data) =
          some (some (m', filledConnection conf env cache hash data c))) ∧
      ∀ i, i < o ∨ o + (itemFields cache hash c).length ≤ i → m' i = m i := by
  have hname := length_saslEncode64_get cache c.inode
  have hsig := (cache.isSignature_getsig c.inode).length_le
  have hipv6 := length_ipv6Content c
  rw [itemFields, authfieldIpv6_eq] at hm ⊢
  rw [holds_append, holds_append, List.length_append, length_authfieldApp,
    length_authfieldApp] at hm
  obtain ⟨⟨hm₁, hm₂⟩, hm₃⟩ := hm
  rw [List.length_append, List.length_append, length_authfieldApp, length_authfieldApp]
  generalize hsigfield : (if hash = true then authfieldApp 9 0 (cache.getsig c.inode) else []) = sig
    at hm₃ ⊢
  obtain ⟨m₁, hstep₁, hframe₁⟩ := userFields_field conf (by omega) hm₁
    (4 + (saslEncode64 (cache.get c.inode)).length + sig.length) (fun h ↦ h.ipv6 conf hports data _)
  have hm₂' : m₁.Holds (o + (4 + (ipv6Content c).length))
      (authfieldApp 3 1 (saslEncode64 (cache.get c.inode))) :=
    hm₂.of_eq fun i hi _ ↦ hframe₁ i (Or.inr hi)
  obtain ⟨m₂, hstep₂, hframe₂⟩ := userFields_field conf (by omega) hm₂' sig.length
    (fun h ↦ h.app conf hdecode { newUserConnection data with tracking := c.tracking } _)
  have hsum : 4 + (ipv6Content c).length + (4 + (saslEncode64 (cache.get c.inode)).length) +
      sig.length = 4 + (ipv6Content c).length +
        (4 + (saslEncode64 (cache.get c.inode)).length + sig.length) := by omega
  rw [hsum]
  have htwo := fun fuel ↦ (hstep₁ (fuel + 3)).trans (hstep₂ (fuel + 2))
  simp only [htwo]
  by_cases hhash : hash = true
  · subst hhash
    rw [if_pos rfl] at hsigfield
    subst hsigfield
    have hm₃' : m₂.Holds (o + (4 + (ipv6Content c).length) +
        (4 + (saslEncode64 (cache.get c.inode)).length))
        (authfieldApp 9 0 (cache.getsig c.inode)) := by
      rw [Nat.add_assoc o]
      refine hm₃.of_eq fun i hi _ ↦ ?_
      rw [hframe₂ i (Or.inr (by omega)), hframe₁ i (Or.inr (by omega))]
    obtain ⟨m₃, hstep₃, hframe₃⟩ := userFields_field conf (by omega) hm₃' 0
      (fun h ↦ h.sig conf { newUserConnection data with
        tracking := c.tracking, appName := itemName conf env cache c } _)
    rw [length_authfieldApp]
    refine ⟨m₃, fun fuel ↦ ?_, fun i hi ↦ ?_⟩
    · exact (hstep₃ _).trans (userFields_done conf _ _ _ _)
    · rw [hframe₃ i (by omega), hframe₂ i (by omega), hframe₁ i (by omega)]
  · rw [if_neg hhash] at hsigfield
    subst hsigfield
    refine ⟨m₂, fun fuel ↦ ?_, fun i hi ↦ ?_⟩
    · rw [Bool.not_eq_true] at hhash
      rw [hhash]
      exact userFields_done conf _ _ _ _
    · rw [hframe₂ i (by omega), hframe₁ i (by omega)]

/-! ### The items of a message -/

theorem userRequestEnd_eq {data : TlsBufferRead} (connection : Connection)
    (hsane : ¬((ipv6Equal connection.tracking.saddr in6addrAny = true ∨
      connection.appName = none) ∧ connection.packetId = []))
    (hgroups : copyGroups conf data.groups ≠ []) (now : Int) :
    ∃ connection', userRequestEnd conf data now connection = some connection' ∧
      connection'.announcement = connection.announcement := by
  rw [userRequestEnd, if_neg hsane]
  dsimp only
  rw [if_neg hgroups]
  exact ⟨_, rfl, rfl⟩

/-- **The end of an item**: it is refused when it has no name or no source address. -/
theorem userRequestEnd_filled (env : UserEnv) (cache : PrgCache) (hash : Bool) (c : ConnT)
    {data : TlsBufferRead} (hgroups : copyGroups conf data.groups ≠ []) (now : Int) :
    (c.Announceable cache → ∃ connection,
      userRequestEnd conf data now (filledConnection conf env cache hash data c) = some connection ∧
        connection.announcement = c.announcement conf env cache hash) ∧
    (¬c.Announceable cache →
      userRequestEnd conf data now (filledConnection conf env cache hash data c) = none) := by
  have hany : ipv6Equal c.ipSrc in6addrAny = true ↔ c.ipSrc = in6addrAny := ipv6Equal_iff
  constructor
  · rintro ⟨hname, hsrc⟩
    have happ : itemName conf env cache c = some (stringEscape conf env (cache.get c.inode)) :=
      if_neg hname
    have hsane : ¬((ipv6Equal c.ipSrc in6addrAny = true ∨ itemName conf env cache c = none) ∧
        ([] : List PacketId) = []) := by
      rw [hany, happ]
      rintro ⟨h | h, -⟩
      · exact hsrc h
      · exact Option.some_ne_none _ h
    obtain ⟨connection, hend, hannouncement⟩ := userRequestEnd_eq conf
      (filledConnection conf env cache hash data c) hsane hgroups now
    refine ⟨connection, hend, ?_⟩
    rw [hannouncement, ConnT.announcement, ← happ]
    rfl
  · intro hbad
    have hsane : (ipv6Equal c.ipSrc in6addrAny = true ∨ itemName conf env cache c = none) ∧
        ([] : List PacketId) = [] := by
      refine ⟨?_, rfl⟩
      rw [hany, itemName]
      by_cases hname : cache.get c.inode = []
      · exact Or.inr (if_pos hname)
      · exact Or.inl (by_contra fun hsrc ↦ hbad ⟨hname, hsrc⟩)
    exact if_pos hsane

/-- **One item.** -/
theorem userRequestLoop_item {order : ByteOrder} {m : Memory} {start : ℕ} {seq : UInt32}
    (hm : m.Holds start (authreqItem order cache hash seq c)) (hports : c.HasPorts)
    (hdecode : env.saslDecode64 (saslEncode64 (cache.get c.inode)) = some (cache.get c.inode))
    (data : TlsBufferRead) (clock : ℕ → Int) (rest : ℕ) :
    ∃ m', (∀ fuel connElts, userRequestLoop conf env data clock (fuel + 5) m start
        ((itemLength cache hash c + rest : ℕ) : Int) connElts =
        match userRequestEnd conf data (clock start)
            (filledConnection conf env cache hash data c) with
          | none => some []
          | some connection => userRequestLoop conf env data clock (fuel + 4) m'
              (start + itemLength cache hash c) (rest : ℕ) (connection :: connElts)) ∧
      ∀ i, start + itemLength cache hash c ≤ i → m' i = m i := by
  have hlength := length_itemFields cache hash c
  have hmax := itemLength_le cache hash c
  rw [authreqItem, holds_append, holds_append] at hm
  obtain ⟨⟨-, hlen⟩, hfields⟩ := hm
  have hseq : (hostBytes16 order seq.toUInt16).length = 2 := by
    cases order with
    | little => rfl
    | big => rfl
  rw [List.length_append, hseq, length_htons] at hfields
  rw [hseq] at hlen
  have hpacket : ((m.swap16 env.order (start + 2)).host16 env.order (start + 2)).toNat =
      itemLength cache hash c := by
    rw [hlen.host16_swap16 env.order, hlength]
    exact UInt16.toNat_ofNat_of_lt' (Nat.lt_of_le_of_lt hmax (by decide))
  have hfields' : (m.swap16 env.order (start + 2)).Holds (start + 4) (itemFields cache hash c) :=
    hfields.of_eq fun i hi _ ↦ swap16_of_ne _ _ (by omega) (by omega)
  obtain ⟨m', hread, hframe⟩ := userFields_item conf hfields' hports hdecode data
  refine ⟨m', fun fuel connElts ↦ ?_, fun i hi ↦ ?_⟩
  · have hpacket' : (m'.host16 env.order (start + 2)).toNat = itemLength cache hash c := by
      rw [← hpacket, host16_congr env.order (hframe _ (by omega)) (hframe _ (by omega))]
    have hsub :
        ((itemLength cache hash c : ℕ) : Int) - 4 = ((itemFields cache hash c).length : ℕ) := by
      omega
    rw [userRequestLoop, if_neg (by omega), if_neg (by omega)]
    dsimp only
    rw [hpacket, if_neg (by omega), hsub, hread]
    dsimp only
    have hrest : ((itemLength cache hash c + rest : ℕ) : Int) - (itemLength cache hash c : ℕ) =
        (rest : ℕ) := by omega
    cases userRequestEnd conf data (clock start) (filledConnection conf env cache hash data c) with
    | none => rfl
    | some connection =>
      dsimp only
      rw [hpacket', hrest]
  · rw [hframe i (by omega), swap16_of_ne _ _ (by omega) (by omega)]

/-- **All the items** are understood, when none of them is refused. -/
theorem userRequestLoop_items {order : ByteOrder} {carray : List ConnT} {m : Memory} {start : ℕ}
    {seq : UInt32} (hm : m.Holds start (authreqItems order cache hash seq carray))
    (hports : ∀ c ∈ carray, c.HasPorts)
    (hdecode : ∀ c ∈ carray,
      env.saslDecode64 (saslEncode64 (cache.get c.inode)) = some (cache.get c.inode))
    {data : TlsBufferRead} (hgroups : copyGroups conf data.groups ≠ []) (clock : ℕ → Int) :
    ((∀ c ∈ carray, c.Announceable cache) → ∃ conns,
      (∀ fuel connElts, carray.length ≤ fuel →
        userRequestLoop conf env data clock (fuel + 5) m start
          (((carray.map (itemLength cache hash)).sum : ℕ) : Int) connElts =
            some (conns ++ connElts)) ∧
      conns.reverse.map Connection.announcement =
        carray.map (ConnT.announcement conf env cache hash)) ∧
    ((∃ c ∈ carray, ¬c.Announceable cache) → ∀ fuel connElts, carray.length ≤ fuel →
      userRequestLoop conf env data clock (fuel + 5) m start
          (((carray.map (itemLength cache hash)).sum : ℕ) : Int) connElts = some []) := by
  induction carray generalizing m start seq with
  | nil =>
    refine ⟨fun _ ↦ ⟨[], fun fuel connElts _ ↦ ?_, rfl⟩,
      fun ⟨_, hc, _⟩ ↦ absurd hc List.not_mem_nil⟩
    exact if_pos (Int.le_refl 0)
  | cons c carray ih =>
    obtain ⟨hports₀, hports⟩ := List.forall_mem_cons.1 hports
    obtain ⟨hdecode₀, hdecode⟩ := List.forall_mem_cons.1 hdecode
    rw [authreqItems, holds_append, length_authreqItem] at hm
    simp only [List.map_cons, List.sum_cons]
    obtain ⟨m', hitem, hframe⟩ := userRequestLoop_item conf hm.1 hports₀ hdecode₀ data clock
      (carray.map (itemLength cache hash)).sum
    have hm' : m'.Holds (start + itemLength cache hash c)
        (authreqItems order cache hash (seq + 1) carray) :=
      hm.2.of_eq fun i hi _ ↦ hframe i hi
    obtain ⟨haccept, hrefuse⟩ := userRequestEnd_filled conf env cache hash c hgroups (clock start)
    by_cases hc : c.Announceable cache
    · obtain ⟨connection, hend, hannouncement⟩ := haccept hc
      -- one turn of the loop, and the others behind it
      have hturn : ∀ fuel connElts, (c :: carray).length ≤ fuel → ∃ fuel', carray.length ≤ fuel' ∧
          userRequestLoop conf env data clock (fuel + 5) m start ((itemLength cache hash c +
            (carray.map (itemLength cache hash)).sum : ℕ) : Int) connElts =
          userRequestLoop conf env data clock (fuel' + 5) m' (start + itemLength cache hash c)
            (((carray.map (itemLength cache hash)).sum : ℕ) : Int) (connection :: connElts) := by
        intro fuel connElts hfuel
        rw [List.length_cons] at hfuel
        refine ⟨fuel - 1, by omega, ?_⟩
        rw [hitem, hend, show fuel - 1 + 5 = fuel + 4 by omega]
      obtain ⟨hall, hsome⟩ := ih hm' hports hdecode
      constructor
      · intro h
        obtain ⟨conns, hloop, hconns⟩ := hall (List.forall_mem_cons.1 h).2
        refine ⟨conns ++ [connection], fun fuel connElts hfuel ↦ ?_, ?_⟩
        · obtain ⟨fuel', hfuel', hstep⟩ := hturn fuel connElts hfuel
          rw [hstep, hloop _ _ hfuel', List.append_assoc]
          rfl
        · rw [List.reverse_append, List.map_append, hconns]
          exact congrArg₂ List.cons hannouncement rfl
      · rintro ⟨c', hc', hbad⟩ fuel connElts hfuel
        obtain ⟨fuel', hfuel', hstep⟩ := hturn fuel connElts hfuel
        rw [hstep]
        obtain rfl | hc' := List.mem_cons.1 hc'
        · exact absurd hc hbad
        · exact hsome ⟨c', hc', hbad⟩ _ _ hfuel'
    · refine ⟨fun h ↦ absurd (h c List.mem_cons_self) hc, fun _ fuel connElts _ ↦ ?_⟩
      rw [hitem, hrefuse hc]

end

/-! ### The whole message -/

/-- The reads of a message that arrives whole: its header, and then the rest. -/
def wholeReads (message : Bytes) : ℕ → Read
  | 0 => .data (message.take 4)
  | _ => .data (message.drop 4)

/-- **The server accepts a message** and understands what the client has announced: one connection
for each item, the last one first. -/
def AcceptedAs (conf : Params) (env : UserEnv) (now : Int) (clock : ℕ → Int) (heap : Memory)
    (session : UserSession) (message : Bytes) (announced : List Announcement) : Prop :=
  ∃ session' data,
    treatUserRequest conf now (wholeReads message) heap session =
      (session', .continue, some data) ∧
    ∃ n conns, (∀ fuel, n ≤ fuel → userpcktDecode conf env clock fuel data = some (.ok, conns)) ∧
      conns ≠ [] ∧ conns.reverse.map Connection.announcement = announced

/-- **A message is read** when it is not too long, and refused when it is. -/
theorem treatUserRequest_message (conf : Params) (now : Int) (heap : Memory) (session : UserSession)
    {length : UInt16} {items : Bytes} (hlength : 4 + items.length = length.toNat)
    (hitems : items ≠ []) :
    (length.toNat < maxNufwPacketSize → ∃ session' buffer,
      treatUserRequest conf now (wholeReads ([0x36, 0] ++ htons length ++ items)) heap session =
        (session', .continue, some (session.bufferRead conf buffer length.toNat)) ∧
      buffer.Holds 0 ([0x36, 0] ++ htons length ++ items)) ∧
    (maxNufwPacketSize ≤ length.toNat → ∃ session',
      treatUserRequest conf now (wholeReads ([0x36, 0] ++ htons length ++ items)) heap session =
        (session', .error, none)) := by
  obtain ⟨header, hheader⟩ : ∃ header, header = [0x36, 0] ++ htons length := ⟨_, rfl⟩
  have hfour : header.length = 4 := by rw [hheader]; rfl
  rw [← hheader]
  have hread : wholeReads (header ++ items) 0 = .data header := by
    rw [wholeReads, ← hfour, List.take_left]
  have hrest : wholeReads (header ++ items) 1 = .data items := by
    show Read.data ((header ++ items).drop 4) = _
    rw [← hfour, List.drop_left]
  obtain ⟨buffer, hbuffer⟩ : ∃ buffer, buffer = Memory.write
      (fun i ↦ if i < classicNufwPacketSize then 0 else heap i) 0 header := ⟨_, rfl⟩
  have hholds : buffer.Holds 0 header := by
    rw [hbuffer]
    exact Holds.write_append (show Holds _ 0 [] from trivial)
  have hannounced : (buffer.be16 2).toNat = length.toNat := by
    rw [hheader, holds_append] at hholds
    rw [Holds.be16_eq (o := 2) hholds.2]
  have hpos : 0 < items.length := List.length_pos_iff.2 hitems
  rw [treatUserRequest, hread]
  dsimp only
  rw [List.take_of_length_le (Nat.le_of_eq hfour), if_neg (not_not_intro hfour), ← hbuffer,
    hannounced]
  constructor
  · intro hshort
    have hbody : readBody (wholeReads (header ++ items)) length.toNat 3 1 buffer 4 =
        some (buffer.write 4 items) := by
      rw [readBody, hrest]
      dsimp only
      rw [List.take_of_length_le (by omega), if_pos (by omega)]
    have hholds' : (buffer.write 4 items).Holds 0 (header ++ items) := by
      rw [← hfour]
      exact hholds.write_append
    have hbytes : (buffer.write 4 items) 0 = 0x36 ∧ (buffer.write 4 items) 1 = 0 := by
      rw [hheader] at hholds'
      exact ⟨hholds'.1, hholds'.2.1⟩
    rw [if_neg (Nat.not_le.2 hshort), if_pos (by omega), hbody]
    dsimp only
    rw [treatUserMessage]
    dsimp only
    rw [hbytes.1, hbytes.2, if_neg (by decide), if_pos rfl]
    exact ⟨_, buffer.write 4 items, rfl, hholds'⟩
  · intro hlong
    rw [if_pos hlong]
    exact ⟨_, rfl⟩

/-- **A message is decoded**: the connections of its items, or none. -/
theorem userpcktDecode_message (conf : Params) (env : UserEnv) (clock : ℕ → Int)
    (data : TlsBufferRead) {length : UInt16} {items : Bytes}
    (hbuffer : data.buffer.Holds 0 ([0x36, 0] ++ htons length ++ items))
    (hlength : 4 + items.length = length.toNat) (hlen : data.bufferLen = length.toNat)
    (hshort : length.toNat < maxNufwPacketSize) :
    ∃ m : Memory, m.Holds 4 items ∧ ∀ fuel, userpcktDecode conf env clock fuel data =
      (userRequestLoop conf env { data with buffer := m } clock fuel m 4 (items.length : ℕ) []).map
        fun conns ↦ (.ok, conns) := by
  rw [holds_append, holds_append] at hbuffer
  obtain ⟨⟨⟨hzero, -⟩, hfield⟩, hitems⟩ := hbuffer
  have htype : data.buffer.swap16 env.order 2 0 / 16 = userRequestType := by
    rw [swap16_of_ne _ _ (by decide) (by decide), hzero]
    rfl
  have hannounced : (data.buffer.swap16 env.order 2).host16 env.order 2 = length :=
    Holds.host16_swap16 (o := 2) env.order hfield
  refine ⟨data.buffer.swap16 env.order 2, ?_, fun fuel ↦ ?_⟩
  · exact Holds.of_eq (o := 4) hitems fun i hi _ ↦ swap16_of_ne _ _ (by omega) (by omega)
  · rw [userpcktDecode, if_neg (by omega), hzero, if_neg (by decide)]
    dsimp only
    rw [hannounced, if_neg (by omega), if_pos htype, userRequest]
    dsimp only
    rw [show (data.bufferLen : Int) - 4 = (items.length : ℕ) by omega]

/-- A group of the session is a group of the message. -/
theorem copyGroups_ne_nil {conf : Params} {groups : List GroupData} (h : groups ≠ []) :
    copyGroups conf groups ≠ [] := by
  rw [copyGroups]
  split
  · rw [duplicateStrList, ne_eq, List.reverse_eq_nil_iff]
    exact h
  · exact h

theorem toNat_announcedLength (cache : PrgCache) (hash : Bool) {carray : List ConnT}
    (hmax : carray.length ≤ connMax) :
    (UInt16.ofNat (announcedLength cache hash carray)).toNat =
      announcedLength cache hash carray := by
  have hsum := sum_itemLength_le cache hash carray
  have hseven : connMax = 7 := rfl
  refine UInt16.toNat_ofNat_of_lt' (Nat.lt_of_le_of_lt (m := 1936) ?_ (by decide))
  rw [announcedLength]
  omega

theorem authreqItems_ne_nil (order : ByteOrder) (cache : PrgCache) (hash : Bool) (seq : UInt32)
    {carray : List ConnT} (hsome : carray ≠ []) :
    authreqItems order cache hash seq carray ≠ [] := by
  obtain ⟨c, carray, rfl⟩ := List.exists_cons_of_ne_nil hsome
  intro hnil
  have hlength := length_authreqItems order cache hash seq (c :: carray)
  rw [hnil, List.map_cons, List.sum_cons, itemLength, List.length_nil] at hlength
  omega

/-- **A message that is too long** is refused. -/
theorem not_acceptedAs_of_long {length : UInt16} {items : Bytes}
    (hlength : 4 + items.length = length.toNat) (hitems : items ≠ [])
    (hlong : maxNufwPacketSize ≤ length.toNat) (conf : Params) (env : UserEnv) (now : Int)
    (clock : ℕ → Int) (heap : Memory) (session : UserSession) (announced : List Announcement) :
    ¬AcceptedAs conf env now clock heap session ([0x36, 0] ++ htons length ++ items) announced := by
  rintro ⟨session'', data, htreat, -⟩
  obtain ⟨session', hrefuse⟩ :=
    (treatUserRequest_message conf now heap session hlength hitems).2 hlong
  rw [hrefuse, Prod.mk.injEq, Prod.mk.injEq] at htreat
  exact absurd htreat.2.1 (by decide)

/-- **The server accepts what a client announces, and understands it, exactly when the message is
shorter than `MAX_NUFW_PACKET_SIZE`, every application has a name and every source address is not
`::`.** -/
theorem announcements_accepted_iff (order : ByteOrder) (cache : PrgCache) (hash : Bool)
    (packetSeq : UInt32) {carray : List ConnT} (hsome : carray ≠ [])
    (hmax : carray.length ≤ connMax) (hports : ∀ c ∈ carray, c.HasPorts) (conf : Params)
    {env : UserEnv}
    (hdecode : ∀ c ∈ carray,
      env.saslDecode64 (saslEncode64 (cache.get c.inode)) = some (cache.get c.inode))
    (now : Int) (clock : ℕ → Int) (heap : Memory) {session : UserSession}
    (hgroups : session.groups ≠ []) :
    ∃ message, sendUserPckt order cache hash packetSeq carray = some message ∧
      (AcceptedAs conf env now clock heap session message
          (carray.map (ConnT.announcement conf env cache hash)) ↔
        announcedLength cache hash carray < maxNufwPacketSize ∧
        (∀ c ∈ carray, cache.get c.inode ≠ []) ∧ ∀ c ∈ carray, c.ipSrc ≠ in6addrAny) := by
  refine ⟨_, sendUserPckt_eq order cache hash packetSeq hmax, ?_⟩
  have htotal := toNat_announcedLength cache hash hmax
  have hitems : 4 + (authreqItems order cache hash packetSeq carray).length =
      (UInt16.ofNat (announcedLength cache hash carray)).toNat := by
    rw [htotal, length_authreqItems, announcedLength]
  have hne := authreqItems_ne_nil order cache hash packetSeq hsome
  have hboth : ((∀ c ∈ carray, cache.get c.inode ≠ []) ∧ ∀ c ∈ carray, c.ipSrc ≠ in6addrAny) ↔
      ∀ c ∈ carray, c.Announceable cache :=
    ⟨fun h c hc ↦ ⟨h.1 c hc, h.2 c hc⟩, fun h ↦ ⟨fun c hc ↦ (h c hc).1, fun c hc ↦ (h c hc).2⟩⟩
  rw [hboth]
  by_cases hshort : announcedLength cache hash carray < maxNufwPacketSize
  · obtain ⟨session', buffer, htreat, hbuffer⟩ :=
      (treatUserRequest_message conf now heap session hitems hne).1 (by rw [htotal]; exact hshort)
    rw [htotal] at htreat
    obtain ⟨m, hm, hdecoded⟩ := userpcktDecode_message conf env clock
      (session.bufferRead conf buffer (announcedLength cache hash carray)) hbuffer hitems
      htotal.symm (by rw [htotal]; exact hshort)
    rw [length_authreqItems] at hdecoded
    obtain ⟨data, hdata⟩ : ∃ data, data = session.bufferRead conf buffer
      (announcedLength cache hash carray) := ⟨_, rfl⟩
    rw [← hdata] at htreat hdecoded
    have hgroups' : copyGroups conf { data with buffer := m }.groups ≠ [] := by
      rw [hdata]
      exact copyGroups_ne_nil (copyGroups_ne_nil hgroups)
    obtain ⟨haccept, hrefuse⟩ := userRequestLoop_items conf hm hports hdecode hgroups' clock
    constructor
    · rintro ⟨session'', data', htreat', n, conns, hconns, hsome', -⟩
      refine ⟨hshort, by_contra fun hbad ↦ ?_⟩
      rw [htreat, Prod.mk.injEq, Prod.mk.injEq] at htreat'
      obtain rfl := Option.some.inj htreat'.2.2
      have hnone := hrefuse (by simpa using hbad) (n + carray.length) [] (Nat.le_add_left _ _)
      have hdecoded' := hconns (n + carray.length + 5) (by omega)
      rw [hdecoded, hnone, Option.map_some] at hdecoded'
      exact hsome' (Prod.mk.inj (Option.some.inj hdecoded')).2.symm
    · rintro ⟨-, hall⟩
      obtain ⟨conns, hloop, hconns⟩ := haccept hall
      refine ⟨session', data, htreat, carray.length + 5, conns, fun fuel hfuel ↦ ?_, ?_, hconns⟩
      · obtain ⟨fuel, rfl⟩ := Nat.exists_eq_add_of_le' (Nat.le_of_add_left_le hfuel)
        rw [hdecoded, hloop fuel [] (by omega), List.append_nil, Option.map_some]
      · rintro rfl
        rw [List.reverse_nil, List.map_nil, eq_comm, List.map_eq_nil_iff] at hconns
        exact hsome hconns
  · refine iff_of_false ?_ fun h ↦ hshort h.1
    refine not_acceptedAs_of_long hitems hne ?_ conf env now clock heap session _
    rw [htotal]
    exact Nat.not_lt.1 hshort

/-- A cache that has one name and one signature for everything. -/
def PrgCache.const (name sig : Bytes) (hlength : name.length < prognameWidth) (hzero : 0 ∉ name)
    (hsig : IsSignature sig) : PrgCache where
  get _ := name
  getsig _ := sig
  length_get _ := hlength
  zero_notMem_get _ := hzero
  isSignature_getsig _ := hsig

/-- A connection to port 22. -/
def ConnT.ssh : ConnT where
  protocol := 6
  ipSrc := clientAddr
  portSrc := 40000
  ipDst := serverAddr
  portDst := 22
  inode := 1

/-- The application `abc`, without a signature. -/
def PrgCache.abc : PrgCache :=
  .const [97, 98, 99] [] (by decide) (by decide) (Or.inl rfl)

theorem abc_accepted :
    ∃ message, sendUserPckt .little .abc true 0 [.ssh] = some message ∧
      AcceptedAs Params.default UserEnv.sample 0 (fun _ ↦ 0) (fun _ ↦ 0) UserSession.sample message
        [ConnT.ssh.announcement Params.default UserEnv.sample .abc true] := by
  obtain ⟨message, hsend, hiff⟩ := announcements_accepted_iff .little .abc true 0
    (List.cons_ne_nil ConnT.ssh []) (by decide) (fun c hc ↦ Or.inl (List.mem_singleton.1 hc ▸ rfl))
    Params.default (fun _ _ ↦ show UserEnv.sample.saslDecode64 (saslEncode64 [97, 98, 99]) =
      some [97, 98, 99] by decide)
    0 (fun _ ↦ 0) (fun _ ↦ 0) (show UserSession.sample.groups ≠ [] by decide)
  refine ⟨message, hsend, hiff.2 ⟨by decide, fun c _ ↦ List.cons_ne_nil _ _, fun c hc ↦ ?_⟩⟩
  rw [List.mem_singleton.1 hc]
  decide

/-- A name of 63 bytes. -/
def longName : Bytes := List.replicate 63 97

/-- A signature of 136 bytes. -/
def longSig : Bytes := sha512Prefix ++ List.replicate 128 97

/-- The longest that the cache gives. -/
def PrgCache.long : PrgCache :=
  .const longName longSig (by decide) (by decide)
    (Or.inr (Or.inr ⟨List.replicate 128 97, List.length_replicate,
      fun d hd ↦ by rw [List.eq_of_mem_replicate hd]; unfold IsHexDigit; decide, rfl⟩))

/-- The environment of the server, for that name. -/
def UserEnv.long : UserEnv :=
  { UserEnv.sample with
    saslDecode64 := fun bs ↦ if bs = saslEncode64 longName then some longName else none }

/-- **Seven connections with the longest names and signatures** are refused: 1936 bytes. -/
theorem seven_long_refused :
    (∀ c ∈ List.replicate 7 ConnT.ssh, UserEnv.long.saslDecode64
      (saslEncode64 (PrgCache.long.get c.inode)) = some (PrgCache.long.get c.inode)) ∧
    ∃ message, sendUserPckt .little .long true 0 (List.replicate 7 .ssh) = some message ∧
      ¬AcceptedAs Params.default UserEnv.long 0 (fun _ ↦ 0) (fun _ ↦ 0) UserSession.sample message
        ((List.replicate 7 ConnT.ssh).map
          (ConnT.announcement Params.default UserEnv.long .long true)) := by
  have hmax : (List.replicate 7 ConnT.ssh).length ≤ connMax := by decide
  have hlength : announcedLength .long true (List.replicate 7 ConnT.ssh) = 1936 := by decide
  have htotal := toNat_announcedLength .long true hmax
  have hdecode : UserEnv.long.saslDecode64 (saslEncode64 longName) = some longName := by
    show (if saslEncode64 longName = saslEncode64 longName then some longName else none) = _
    rw [if_pos rfl]
  refine ⟨fun _ _ ↦ hdecode, _, sendUserPckt_eq .little .long true 0 hmax, ?_⟩
  refine not_acceptedAs_of_long ?_ (authreqItems_ne_nil _ _ _ _ (by decide)) ?_ _ _ _ _ _ _ _
  · rw [htotal, length_authreqItems, announcedLength]
  · rw [htotal, hlength]
    decide

end Nufw
