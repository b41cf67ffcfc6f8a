import Nufw.Nuauth.SendAuthResponse

/-!
# The connections hash

`auth_hash.c`: the key of `conn_list`, and what happens when a connection `new` comes out of
`connections_queue` and the hash already holds a `packet` with the same tracking.

The functions of the source change both connections in place, and some of them hand `new` over to
the ACL checkers or go on to take a decision. `Filled` gathers what they leave: the entry as it is
then in the hash, the connection handed to the checkers if any, whether `take_decision` is called
on the entry, and the warnings logged on the way. A `new` that is not handed over is freed.
-/

namespace Nufw

/-! ### The key -/

/-- `__jhash_mix`, on the three words of its state. -/
def jhashMix (a b c : UInt32) : UInt32 × UInt32 × UInt32 :=
  let a := (a - b - c) ^^^ (c >>> 13)
  let b := (b - c - a) ^^^ (a <<< 8)
  let c := (c - a - b) ^^^ (b >>> 13)
  let a := (a - b - c) ^^^ (c >>> 12)
  let b := (b - c - a) ^^^ (a <<< 16)
  let c := (c - a - b) ^^^ (b >>> 5)
  let a := (a - b - c) ^^^ (c >>> 3)
  let b := (b - c - a) ^^^ (a <<< 10)
  let c := (c - a - b) ^^^ (b >>> 15)
  (a, b, c)

/-- `JHASH_GOLDEN_RATIO`. -/
def jhashGoldenRatio : UInt32 := 0x9e3779b9

/-- The loop of `jhash2` over blocks of three words, and its end. -/
def jhash2Loop (length : UInt32) : List UInt32 → UInt32 → UInt32 → UInt32 → UInt32
  | k₀ :: k₁ :: k₂ :: k, a, b, c =>
    let (a, b, c) := jhashMix (a + k₀) (b + k₁) (c + k₂)
    jhash2Loop length k a b c
  | [k₀, k₁], a, b, c => (jhashMix (a + k₀) (b + k₁) (c + length * 4)).2.2
  | [k₀], a, b, c => (jhashMix (a + k₀) b (c + length * 4)).2.2
  | [], a, b, c => (jhashMix a b (c + length * 4)).2.2

/-- `jhash2`. -/
def jhash2 (k : List UInt32) (initval : UInt32) : UInt32 :=
  jhash2Loop (UInt32.ofNat k.length) k jhashGoldenRatio jhashGoldenRatio initval

/-- An address as four words of the host. -/
def In6Addr.words (order : ByteOrder) (a : In6Addr) : List UInt32 :=
  let m : Memory := fun i ↦ a.toList.getD i 0
  [m.host32 order 0, m.host32 order 4, m.host32 order 8, m.host32 order 12]

/-- `hash_connection`. -/
def hashConnection (order : ByteOrder) (tracking : Tracking) : UInt32 :=
  jhash2 (In6Addr.words order tracking.saddr) tracking.source.toUInt32

/-- `tracking_equal`: the ports count for TCP and UDP, the type and code for ICMP and ICMPv6, and
no other protocol has equal trackings. -/
def trackingEqual (trck1 trck2 : Tracking) : Bool :=
  if trck1.protocol ≠ trck2.protocol then false
  else if trck1.protocol = ipprotoTcp ∨ trck1.protocol = ipprotoUdp then
    trck1.source = trck2.source ∧ trck1.dest = trck2.dest ∧
      ipv6Equal trck1.daddr trck2.daddr ∧ ipv6Equal trck1.saddr trck2.saddr
  else if trck1.protocol = ipprotoIcmp ∨ trck1.protocol = ipprotoIcmpv6 then
    trck1.type = trck2.type ∧ trck1.code = trck2.code ∧
      ipv6Equal trck1.daddr trck2.daddr ∧ ipv6Equal trck1.saddr trck2.saddr
  else false

/-- The entry is the one `conn_list` has for the key. -/
def hasKey (order : ByteOrder) (key : Tracking) (entry : Connection) : Bool :=
  hashConnection order entry.tracking = hashConnection order key ∧
    trackingEqual entry.tracking key

/-! ### Filling an entry -/

/-- What the log reports when something that should not happen does. -/
inductive Warning where
  /-- `SEARCH_AND_FILL_CATCHALL`, with the states of the new and of the existing packet. -/
  | catchall (new packet : AuthState)
  /-- "BUG: Should not be in apply_decision for user only packet". -/
  | userOnlyPacket
  /-- "Removal of conn in hash failed". -/
  | removalFailed
  /-- "Unable to suppress packet from hash". -/
  | unableToSuppress
  /-- "Clean connection: no entry found in hash". -/
  | noEntry
  deriving DecidableEq

/-- The outcome of `search_and_fill_update`. -/
structure Filled where
  sessions : Sessions
  /-- The entry of the hash. -/
  packet : Connection
  /-- The connection pushed to `acl_checkers`. -/
  checked : Option Connection
  /-- `take_decision` is called on the entry. -/
  decide : Bool
  answers : List Answer
  warnings : List Warning

/-- The entry as it is, and `new` freed. -/
def Filled.keep (h : Sessions) (packet : Connection) : Filled := ⟨h, packet, none, false, [], []⟩

/-- `SEARCH_AND_FILL_CATCHALL`, and `new` freed. -/
def searchAndFillCatchall (h : Sessions) (new packet : Connection) : Filled :=
  { Filled.keep h packet with warnings := [.catchall new.state packet.state] }

/-- `packet->packet_id = g_slist_prepend (packet->packet_id, new->packet_id->data)`. -/
def prependPacketId (new packet : Connection) : Connection :=
  { packet with packetId := new.packetId.head?.toList ++ packet.packetId }

/-- The entry of a gateway, completed by what the user sent. -/
def completedByUser (new packet : Connection) : Connection :=
  { packet with
    state := .completing
    userGroups := new.userGroups
    userId := new.userId
    username := new.username
    appName := new.appName
    appSig := new.appSig
    osSysname := new.osSysname
    osRelease := new.osRelease
    osVersion := new.osVersion
    protoVersion := new.protoVersion
    authQuality := new.authQuality
    cacheduserdatas := new.cacheduserdatas }

/-- The packet of the user, as it goes to the ACL checkers: it gets the interfaces. -/
def copyOfUser (new packet : Connection) : Connection :=
  { new with state := .completing, userGroups := [], ifaceNfo := packet.ifaceNfo }

/-- `search_and_fill_complete_of_authreq`. -/
def searchAndFillCompleteOfAuthreq (h : Sessions) (new packet : Connection) : Filled :=
  match new.state with
  | .authreq =>
    let (h, packet) := mergeNufwSession h packet new
    Filled.keep h (prependPacketId new packet)
  | .userpckt =>
    { Filled.keep h (completedByUser new packet) with checked := some (copyOfUser new packet) }
  | _ => searchAndFillCatchall h new packet

/-- The entry of a user, completed by the request of the gateway. -/
def completedByGateway (new packet : Connection) : Connection :=
  { packet with
    state := .completing
    ifaceNfo := new.ifaceNfo
    packetId := new.packetId
    mark := new.mark
    socket := new.socket
    tls := new.tls
    nufwVersion := new.nufwVersion
    payloadLen := new.payloadLen
    payload := copyPayload packet.payload new.payload new.payloadLen }

/-- The request of the gateway, as it goes to the ACL checkers: it gets the application and the
system of the user, and leaves its identifiers and its session to the entry. -/
def copyOfGateway (new packet : Connection) : Connection :=
  { new with
    state := .completing
    appName := packet.appName
    appSig := packet.appSig
    osSysname := packet.osSysname
    osRelease := packet.osRelease
    osVersion := packet.osVersion
    protoVersion := packet.protoVersion
    authQuality := packet.authQuality
    packetId := []
    tls := none }

/-- `search_and_fill_complete_of_userpckt`. -/
def searchAndFillCompleteOfUserpckt (h : Sessions) (new packet : Connection) : Filled :=
  match new.state with
  | .authreq =>
    { Filled.keep h (completedByGateway new packet) with
      checked := some (copyOfGateway new packet) }
  | .userpckt => Filled.keep h packet
  | _ => searchAndFillCatchall h new packet

/-- `search_and_fill_done`. -/
def searchAndFillDone (host : Host) (h : Sessions) (new packet : Connection) : Filled :=
  match new.state with
  | .authreq =>
    let (h, answers) := sendAuthResponses host packet new.packetId h
    { Filled.keep h packet with answers := answers }
  | .userpckt => Filled.keep h packet
  | _ => searchAndFillCatchall h new packet

/-- `search_and_fill_completing`. -/
def searchAndFillCompleting (h : Sessions) (new packet : Connection) : Filled :=
  match new.state with
  | .completing =>
    -- the return of the ACL search
    { Filled.keep h { packet with aclGroups := new.aclGroups, state := .ready } with
      decide := true }
  | .authreq => Filled.keep h (prependPacketId new packet)
  | .userpckt => Filled.keep h packet
  | _ => searchAndFillCatchall h new packet

/-- `search_and_fill_ready`. -/
def searchAndFillReady (h : Sessions) (new packet : Connection) : Filled :=
  match new.state with
  | .authreq => Filled.keep h (prependPacketId new packet)
  | .userpckt => Filled.keep h packet
  | _ => searchAndFillCatchall h new packet

/-- `search_and_fill_update`. -/
def searchAndFillUpdate (host : Host) (h : Sessions) (new packet : Connection) : Filled :=
  match packet.state with
  | .authreq => searchAndFillCompleteOfAuthreq h new packet
  | .userpckt => searchAndFillCompleteOfUserpckt h new packet
  | .done => searchAndFillDone host h new packet
  | .completing => searchAndFillCompleting h new packet
  | .ready => searchAndFillReady h new packet
  | _ => searchAndFillCatchall h new packet

/-! ### The pairs of states -/

section

variable (host : Host) (h : Sessions) {new packet : Connection}

theorem searchAndFillUpdate_authreq_authreq (hp : packet.state = .authreq)
    (hn : new.state = .authreq) :
    searchAndFillUpdate host h new packet =
      Filled.keep (mergeNufwSession h packet new).1
        (prependPacketId new (mergeNufwSession h packet new).2) := by
  simp only [searchAndFillUpdate, hp, searchAndFillCompleteOfAuthreq, hn]

theorem searchAndFillUpdate_authreq_userpckt (hp : packet.state = .authreq)
    (hn : new.state = .userpckt) :
    searchAndFillUpdate host h new packet =
      ⟨h, completedByUser new packet, some (copyOfUser new packet), false, [], []⟩ := by
  simp only [searchAndFillUpdate, hp, searchAndFillCompleteOfAuthreq, hn, Filled.keep]

theorem searchAndFillUpdate_userpckt_authreq (hp : packet.state = .userpckt)
    (hn : new.state = .authreq) :
    searchAndFillUpdate host h new packet =
      ⟨h, completedByGateway new packet, some (copyOfGateway new packet), false, [], []⟩ := by
  simp only [searchAndFillUpdate, hp, searchAndFillCompleteOfUserpckt, hn, Filled.keep]

theorem searchAndFillUpdate_completing_completing (hp : packet.state = .completing)
    (hn : new.state = .completing) :
    searchAndFillUpdate host h new packet =
      ⟨h, { packet with aclGroups := new.aclGroups, state := .ready }, none, true, [], []⟩ := by
  simp only [searchAndFillUpdate, hp, searchAndFillCompleting, hn, Filled.keep]

/-- A request that meets an entry on its way to a decision leaves its identifier there, and its
session behind. -/
theorem searchAndFillUpdate_decided_authreq
    (hp : packet.state = .completing ∨ packet.state = .ready) (hn : new.state = .authreq) :
    searchAndFillUpdate host h new packet = Filled.keep h (prependPacketId new packet) := by
  rcases hp with hp | hp
  · simp only [searchAndFillUpdate, hp, searchAndFillCompleting, hn]
  · simp only [searchAndFillUpdate, hp, searchAndFillReady, hn]

/-- A second packet of the user changes nothing. -/
theorem searchAndFillUpdate_userpckt
    (hp : packet.state = .userpckt ∨ packet.state = .completing ∨ packet.state = .ready)
    (hn : new.state = .userpckt) :
    searchAndFillUpdate host h new packet = Filled.keep h packet := by
  rcases hp with hp | hp | hp
  · simp only [searchAndFillUpdate, hp, searchAndFillCompleteOfUserpckt, hn]
  · simp only [searchAndFillUpdate, hp, searchAndFillCompleting, hn]
  · simp only [searchAndFillUpdate, hp, searchAndFillReady, hn]

end

/-! ### The comparison of trackings -/

theorem trackingEqual_symm {t t' : Tracking} (h : trackingEqual t t' = true) :
    trackingEqual t' t = true := by
  unfold trackingEqual at h ⊢
  split_ifs at h ⊢ <;> grind [ipv6Equal_iff]

theorem trackingEqual_trans {t t' t'' : Tracking} (h : trackingEqual t t' = true)
    (h' : trackingEqual t' t'' = true) : trackingEqual t t'' = true := by
  unfold trackingEqual at h h' ⊢
  split_ifs at h h' ⊢ <;> grind [ipv6Equal_iff]

/-- Nothing equals a tracking of a protocol that `tracking_equal` does not know. -/
theorem supported_of_trackingEqual {t t' : Tracking} (h : trackingEqual t t' = true) :
    t.Supported := by
  unfold trackingEqual at h
  split_ifs at h with hp htcp hicmp
  · exact htcp.elim Or.inl fun hp ↦ Or.inr (Or.inl hp)
  · exact Or.inr (Or.inr hicmp)

/-! ### The key of canonical trackings -/

/-- `tracking_equal` is equality on trackings that have the fields in common which it does not look
at. -/
theorem trackingEqual_iff_eq {t t' : Tracking}
    (hmem : t.protocol = ipprotoTcp ∨ t.protocol = ipprotoUdp ∨ t.protocol = ipprotoIcmp ∨
      t.protocol = ipprotoIcmpv6)
    (hpadding : t.padding = t'.padding)
    (htypeCode : t.protocol = t'.protocol → t.protocol = ipprotoTcp ∨ t.protocol = ipprotoUdp →
      t.type = t'.type ∧ t.code = t'.code)
    (hports : t.protocol = t'.protocol → t.protocol = ipprotoIcmp ∨ t.protocol = ipprotoIcmpv6 →
      t.source = t'.source ∧ t.dest = t'.dest) :
    trackingEqual t t' = true ↔ t = t' := by
  constructor
  · intro heq
    rw [trackingEqual] at heq
    obtain ⟨saddr, daddr, protocol, padding, dest, source, type, code⟩ := t
    obtain ⟨saddr', daddr', protocol', padding', dest', source', type', code'⟩ := t'
    simp only at heq hpadding htypeCode hports
    split_ifs at heq with hp htcp hicmp
    · have hp' : protocol = protocol' := by simpa using hp
      obtain ⟨hs, hd, hda, hsa⟩ : source = source' ∧ dest = dest' ∧ daddr = daddr' ∧
          saddr = saddr' := by simpa using heq
      obtain ⟨ht, hc⟩ := htypeCode hp' htcp
      simp [hp', hs, hd, hda, hsa, hpadding, ht, hc]
    · have hp' : protocol = protocol' := by simpa using hp
      obtain ⟨ht, hc, hda, hsa⟩ : type = type' ∧ code = code' ∧ daddr = daddr' ∧
          saddr = saddr' := by simpa using heq
      obtain ⟨hs, hd⟩ := hports hp' hicmp
      simp [hp', ht, hc, hda, hsa, hpadding, hs, hd]
  · rintro rfl
    rw [trackingEqual]
    rcases hmem with hp | hp | hp | hp <;>
      simp [hp, ipprotoTcp, ipprotoUdp, ipprotoIcmp, ipprotoIcmpv6]

/-- On trackings as the parsers leave them, `tracking_equal` is equality. -/
theorem trackingEqual_iff {t t' : Tracking} (h : t.Canonical) (h' : t'.Canonical) :
    trackingEqual t t' = true ↔ t = t' := by
  refine trackingEqual_iff_eq h.protocol_mem (h.padding_eq.trans h'.padding_eq.symm)
    (fun hp htcp ↦ ?_) fun hp hicmp ↦ ?_
  · obtain ⟨ht, hc⟩ := h.type_code_eq htcp
    obtain ⟨ht', hc'⟩ := h'.type_code_eq (hp ▸ htcp)
    exact ⟨ht.trans ht'.symm, hc.trans hc'.symm⟩
  · obtain ⟨hs, hd⟩ := h.ports_eq hicmp
    obtain ⟨hs', hd'⟩ := h'.ports_eq (hp ▸ hicmp)
    exact ⟨hs.trans hs'.symm, hd.trans hd'.symm⟩

theorem hasKey_iff {order : ByteOrder} {key : Tracking} {entry : Connection}
    (h : entry.tracking.Canonical) (hkey : key.Canonical) :
    hasKey order key entry = true ↔ entry.tracking = key := by
  rw [hasKey, decide_eq_true_eq, trackingEqual_iff h hkey]
  constructor
  · exact fun h ↦ h.2
  · rintro rfl
    exact ⟨rfl, rfl⟩

end Nufw
