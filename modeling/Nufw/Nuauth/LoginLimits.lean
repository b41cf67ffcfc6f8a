import Mathlib.Data.List.Perm.Subperm
import Nufw.Nuauth.ClientTables
import Nufw.Nuauth.TlsSasl

/-!
# Login limits

There should be no more than `single_user_client_limit` sessions of a user at a time, and no more
than `single_ip_client_limit` at an address. A login is tested against the sessions that are
registered, and is registered itself only later. In between, other logins are tested, and they are
not counted; so two logins of the same user can both pass where there is room for one. Besides, the
name that is tested is the one with the realm, whereas the sessions are registered without it if
`log_users_without_realm` is set: then such a name is never found.

The limits hold in a run in which this does not matter (`Logins.Serial`): the names have no realm to
be taken off, and whenever there is room for a login beside the registered sessions, there is room
for it beside those that are under way, too. In particular this is so if the logins of a user, and
those at an address, come one after the other. What the runs preserve is a bound on the registered
sessions and the logins under way together (`Limits`).
-/

namespace Nufw

namespace Clients

variable {w w' w'' : Clients} {s t : ClientId}

/-! ### Removing sessions -/

/-- Sessions have been taken out of `client_conn_hash`, or changed in nothing that matters here. -/
structure Fewer (w w' : Clients) : Prop where
  sound : Sound w'
  connHash : w'.connHash.Sublist w.connHash
  addr : ∀ t, (w'.heap t).addr = (w.heap t).addr
  socket : ∀ t, (w'.heap t).socket = (w.heap t).socket
  userName : ∀ t, (w'.heap t).userName = (w.heap t).userName

theorem Fewer.refl (hw : Sound w) : Fewer w w :=
  ⟨hw, List.Sublist.refl _, fun _ ↦ rfl, fun _ ↦ rfl, fun _ ↦ rfl⟩

theorem Fewer.trans (h : Fewer w w') (h' : Fewer w' w'') : Fewer w w'' where
  sound := h'.sound
  connHash := h'.connHash.trans h.connHash
  addr t := (h'.addr t).trans (h.addr t)
  socket t := (h'.socket t).trans (h.socket t)
  userName t := (h'.userName t).trans (h.userName t)

theorem Fewer.modify (hw : Sound w) {f : ClientSession → ClientSession}
    (haddr : (f (w.heap s)).addr = (w.heap s).addr)
    (hsocket : (f (w.heap s)).socket = (w.heap s).socket)
    (huser : (f (w.heap s)).userName = (w.heap s).userName) : Fewer w (w.modify s f) where
  sound := Sound.of_heap (fun e _ ↦ ⟨apply_heap_modify ClientSession.addr haddr e.2,
    apply_heap_modify ClientSession.socket hsocket e.2⟩) hw
  connHash := List.Sublist.refl _
  addr := apply_heap_modify ClientSession.addr haddr
  socket := apply_heap_modify ClientSession.socket hsocket
  userName := apply_heap_modify ClientSession.userName huser

theorem Fewer.unregister (hw : Sound w) (hs : w.Registered s) : Fewer w (w.unregister s) := by
  have hheap := hw.heap_unregister hs
  have hkeep : ∀ {β : Type} (g : ClientSession → β),
      g { w.heap s with destroyed := true } = g (w.heap s) →
        ∀ t, g ((w.unregister s).heap t) = g (w.heap t) := by
    intro β g hg t
    rw [hheap]
    exact apply_heap_modify (f := fun c ↦ { c with destroyed := true }) g hg t
  refine ⟨hw.unregister hs, ?_, hkeep _ rfl, hkeep _ rfl, hkeep _ rfl⟩
  rw [hw.connHash_unregister hs]
  exact List.eraseP_sublist

theorem Fewer.deleteClientBySocketExt (hw : Sound w) (socket : ℕ) :
    Fewer w (w.deleteClientBySocketExt socket).2 := by
  cases hlookup : w.getClientDatasBySocket socket with
  | none =>
    rw [Clients.deleteClientBySocketExt, hlookup]
    exact .refl hw
  | some s =>
    obtain ⟨hs, hsocket⟩ := hw.registered_of_lookup hlookup
    rw [hsocket, hw.deleteClientBySocketExt_eq hs]
    exact .unregister hw hs

/-- A function that does this to one entry, and leaves the other entries there, is called for some
of them. -/
theorem Fewer.foldl {f : ℕ × ClientId → Clients → Clients}
    (hf : ∀ {w e}, Sound w → e ∈ w.connHash → Fewer w (f e w))
    (hother : ∀ {w e e'}, Sound w → e ∈ w.connHash → e' ∈ w.connHash → e'.1 ≠ e.1 →
      e' ∈ (f e w).connHash)
    {l : List (ℕ × ClientId)} (hl : (l.map Prod.fst).Nodup) (hw : Sound w)
    (hmem : ∀ e ∈ l, e ∈ w.connHash) : Fewer w (l.foldl (fun w e ↦ f e w) w) := by
  induction l generalizing w with
  | nil => exact .refl hw
  | cons e l ih =>
    obtain ⟨hnot, hl⟩ := List.nodup_cons.1 hl
    have he := hmem e List.mem_cons_self
    have hstep := hf hw he
    refine hstep.trans (ih hl hstep.sound fun e' he' ↦ ?_)
    refine hother hw he (hmem e' (List.mem_cons_of_mem _ he')) fun hkey ↦ hnot ?_
    exact hkey ▸ List.mem_map_of_mem he'

theorem Fewer.killAllClients (hw : Sound w) : Fewer w w.killAllClients := by
  refine Fewer.foldl (fun {w e} hw he ↦ ?_) (fun _ _ he' hne ↦ mem_connHash_killClient he' hne)
    hw.keys hw fun _ ↦ id
  rw [hw.killClient_eq he]
  split
  · exact .modify hw rfl rfl rfl
  · exact .unregister hw (hw.registered_of_mem he)

theorem Fewer.killExpiredClientsSession (hw : Sound w) (now : Int)
    (trylock : ClientId → Bool × Bool) : Fewer w (w.killExpiredClientsSession now trylock) := by
  refine Fewer.foldl (fun {w e} hw he ↦ ?_)
    (fun hw he he' hne ↦ (hw.killExpiredClient_of_ne now trylock he he' hne).1) hw.keys hw
    fun _ ↦ id
  obtain ⟨hsound, -⟩ := hw.killExpiredClient now trylock he
  obtain ⟨b, heq⟩ := hw.killExpiredClient_eq now trylock he
  rw [heq] at hsound ⊢
  split
  · rename_i hexp
    rw [if_pos hexp] at hsound
    have hkeep : ∀ {β : Type} (g : ClientSession → β),
        g { w.heap e.2 with pendingDisconnect := b, destroyed := true } = g (w.heap e.2) → ∀ t,
        g (Function.update w.heap e.2
          { w.heap e.2 with pendingDisconnect := b, destroyed := true } t) = g (w.heap t) :=
      fun g hg t ↦ apply_heap_modify g (w := w) (s := e.2)
        (f := fun c ↦ { c with pendingDisconnect := b, destroyed := true }) hg t
    exact ⟨hsound, List.eraseP_sublist, hkeep _ rfl, hkeep _ rfl, hkeep _ rfl⟩
  · exact .modify hw rfl rfl rfl

end Clients

/-! ### The bound -/

/-- The sessions among some that have a name. -/
def Clients.namedAmong (w : Clients) (l : List ClientId) (username : Bytes) : ℕ :=
  l.countP fun s ↦ (w.heap s).userName = username

/-- The sessions among some that have an address. -/
def Clients.addressedAmong (w : Clients) (l : List ClientId) (a : In6Addr) : ℕ :=
  l.countP fun s ↦ (w.heap s).addr = a

section

variable {w : Clients} {s : ClientId} {f : ClientSession → ClientSession}

theorem Clients.userCount_modify (hs : ∀ e ∈ w.connHash, e.2 ≠ s) (n : Bytes) :
    (w.modify s f).userCount n = w.userCount n :=
  List.countP_congr fun e he ↦ by simp only [heap_modify_of_ne (hs e he)]

theorem Clients.addrCount_modify (hs : ∀ e ∈ w.connHash, e.2 ≠ s) (a : In6Addr) :
    (w.modify s f).addrCount a = w.addrCount a :=
  List.countP_congr fun e he ↦ by simp only [heap_modify_of_ne (hs e he)]

theorem Clients.namedAmong_modify {l : List ClientId}
    (h : ∀ t ∈ l, ((w.modify s f).heap t).userName = (w.heap t).userName) (n : Bytes) :
    (w.modify s f).namedAmong l n = w.namedAmong l n :=
  List.countP_congr fun t ht ↦ by simp only [h t ht]

theorem Clients.addressedAmong_modify {l : List ClientId}
    (h : ∀ t ∈ l, ((w.modify s f).heap t).addr = (w.heap t).addr) (a : In6Addr) :
    (w.modify s f).addressedAmong l a = w.addressedAmong l a :=
  List.countP_congr fun t ht ↦ by simp only [h t ht]

end

/-- **The registered sessions and the logins under way keep within the limits.** `underway` are the
logins that have passed the test of the address, and `pending` are those that have passed the test
of the user, too. -/
structure Limits (conf : LoginConf) (w : Clients) (underway pending : List ClientId) : Prop where
  sound : w.Sound
  sockets : (underway.map fun s ↦ (w.heap s).socket).Nodup
  unregistered : ∀ s ∈ underway, ∀ e ∈ w.connHash, e.1 ≠ (w.heap s).socket ∧ e.2 ≠ s
  included : ∀ s ∈ pending, s ∈ underway
  users : 0 < conf.singleUserClientLimit → ∀ n,
    ((w.userCount n + w.namedAmong pending n : ℕ) : Int) ≤ conf.singleUserClientLimit
  addrs : 0 < conf.singleIpClientLimit → ∀ a,
    w.addrCount a + w.addressedAmong underway a ≤ conf.singleIpClientLimit

namespace Limits

variable {conf : LoginConf} {w w' : Clients} {underway pending under pend : List ClientId}
  {s t : ClientId}

theorem nodup (h : Limits conf w underway pending) : underway.Nodup :=
  List.Nodup.of_map _ h.sockets

/-- Logins are forgotten, or their order is. -/
theorem subperm (h : Limits conf w underway pending) (hunder : under.Subperm underway)
    (hpend : pend.Subperm pending) (hsub : ∀ s ∈ pend, s ∈ under) : Limits conf w under pend where
  sound := h.sound
  sockets := by
    obtain ⟨l, hperm, hsublist⟩ := hunder
    exact (hperm.map _).nodup_iff.1 (h.sockets.sublist (hsublist.map _))
  unregistered s hs := h.unregistered s (hunder.subset hs)
  included := hsub
  users hpos n := by
    have hle : w.namedAmong pend n ≤ w.namedAmong pending n := hpend.countP_le _
    have := h.users hpos n
    omega
  addrs hpos a := by
    have hle : w.addressedAmong under a ≤ w.addressedAmong underway a := hunder.countP_le _
    have := h.addrs hpos a
    omega

/-- Registered sessions are removed. -/
theorem fewer (h : Limits conf w underway pending) (hw : Clients.Fewer w w') :
    Limits conf w' underway pending := by
  have hsocket : (fun s ↦ (w'.heap s).socket) = fun s ↦ (w.heap s).socket := funext hw.socket
  refine ⟨hw.sound, hsocket ▸ h.sockets, fun s hs e he ↦ ?_, h.included, fun hpos n ↦ ?_,
    fun hpos a ↦ ?_⟩
  · rw [hw.socket]
    exact h.unregistered s hs e (hw.connHash.subset he)
  · have hle : w'.userCount n ≤ w.userCount n := by
      simp only [Clients.userCount, hw.userName]
      exact hw.connHash.countP_le
    have hsame : w'.namedAmong pending n = w.namedAmong pending n := by
      simp only [Clients.namedAmong, hw.userName]
    have := h.users hpos n
    omega
  · have hle : w'.addrCount a ≤ w.addrCount a := by
      simp only [Clients.addrCount, hw.addr]
      exact hw.connHash.countP_le
    have hsame : w'.addressedAmong underway a = w.addressedAmong underway a := by
      simp only [Clients.addressedAmong, hw.addr]
    have := h.addrs hpos a
    omega

/-- A session changes that is not registered: its name may, if it is not pending or the number of
the sessions of a user is not limited. -/
theorem modify (h : Limits conf w underway pending) {f : ClientSession → ClientSession}
    (hs : ∀ e ∈ w.connHash, e.2 ≠ s)
    (haddr : ∀ t ∈ underway, ((w.modify s f).heap t).addr = (w.heap t).addr)
    (hsocket : ∀ t ∈ underway, ((w.modify s f).heap t).socket = (w.heap t).socket)
    (hpend : 0 < conf.singleUserClientLimit → ∀ t ∈ pending,
      ((w.modify s f).heap t).userName = (w.heap t).userName) :
    Limits conf (w.modify s f) underway pending := by
  refine ⟨Clients.Sound.of_heap (Clients.heap_allocate hs f) h.sound, ?_, fun t ht e he ↦ ?_,
    h.included, fun hpos n ↦ ?_, fun hpos a ↦ ?_⟩
  · exact (List.map_congr_left hsocket).symm ▸ h.sockets
  · rw [hsocket t ht]
    exact h.unregistered t ht e he
  · rw [Clients.userCount_modify hs, Clients.namedAmong_modify (hpend hpos)]
    exact h.users hpos n
  · rw [Clients.addrCount_modify hs, Clients.addressedAmong_modify haddr]
    exact h.addrs hpos a

/-- A login passes the test of the address. -/
theorem enter (h : Limits conf w underway pending)
    (hfree : ∀ e ∈ w.connHash, e.1 ≠ (w.heap s).socket ∧ e.2 ≠ s)
    (hother : ∀ t ∈ underway, (w.heap t).socket ≠ (w.heap s).socket)
    (hroom : 0 < conf.singleIpClientLimit →
      w.addrCount (w.heap s).addr + w.addressedAmong underway (w.heap s).addr <
        conf.singleIpClientLimit) :
    Limits conf w (s :: underway) pending := by
  refine ⟨h.sound, ?_, fun t ht ↦ ?_, fun t ht ↦ List.mem_cons_of_mem _ (h.included t ht), h.users,
    fun hpos a ↦ ?_⟩
  · refine List.nodup_cons.2 ⟨fun hmem ↦ ?_, h.sockets⟩
    obtain ⟨t, ht, hkey⟩ := List.mem_map.1 hmem
    exact hother t ht hkey
  · rcases List.mem_cons.1 ht with rfl | ht
    · exact hfree
    · exact h.unregistered t ht
  · rw [Clients.addressedAmong, List.countP_cons]
    have hold := h.addrs hpos a
    rw [Clients.addressedAmong] at hold
    split
    · rename_i ha
      have hroom := hroom hpos
      rw [of_decide_eq_true ha, Clients.addressedAmong] at hroom
      omega
    · exact hold

/-- A login passes the test of the user. -/
theorem accept (h : Limits conf w underway pending) (hs : s ∈ underway)
    (hroom : 0 < conf.singleUserClientLimit →
      ((w.userCount (w.heap s).userName + w.namedAmong pending (w.heap s).userName : ℕ) : Int) <
        conf.singleUserClientLimit) :
    Limits conf w underway (s :: pending) := by
  refine ⟨h.sound, h.sockets, h.unregistered, fun t ht ↦ ?_, fun hpos n ↦ ?_, h.addrs⟩
  · rcases List.mem_cons.1 ht with rfl | ht
    · exact hs
    · exact h.included t ht
  · rw [Clients.namedAmong, List.countP_cons]
    have hold := h.users hpos n
    rw [Clients.namedAmong] at hold
    split
    · rename_i hn
      have hroom := hroom hpos
      rw [of_decide_eq_true hn, Clients.namedAmong] at hroom
      omega
    · exact hold

/-- A login is registered. -/
theorem register (h : Limits conf w (s :: underway) (s :: pending))
    (hsub : ∀ t ∈ pending, t ∈ underway) :
    Limits conf (w.addClient (w.heap s).socket s) underway pending := by
  have hfree := h.unregistered s List.mem_cons_self
  have hheap := Clients.heap_addClient hfree
  have hconn := Clients.connHash_addClient hfree
  obtain ⟨hnot, hnodup⟩ := List.nodup_cons.1 h.sockets
  refine ⟨h.sound.addClient hfree, ?_, fun t ht e he ↦ ?_, hsub, fun hpos n ↦ ?_, fun hpos a ↦ ?_⟩
  · rw [hheap]
    exact hnodup
  · rw [hheap]
    rw [hconn] at he
    rcases List.mem_cons.1 he with rfl | he
    · have hne : (w.heap s).socket ≠ (w.heap t).socket := fun hkey ↦
        hnot (List.mem_map.2 ⟨t, ht, hkey.symm⟩)
      exact ⟨hne, fun hst ↦ hne (congrArg (fun u ↦ (w.heap u).socket) hst)⟩
    · exact h.unregistered t (List.mem_cons_of_mem _ ht) e he
  · have hold := h.users hpos n
    rw [Clients.namedAmong, List.countP_cons] at hold
    rw [Clients.userCount, Clients.namedAmong, hheap, hconn, List.countP_cons]
    rw [Clients.userCount] at hold
    dsimp only
    omega
  · have hold := h.addrs hpos a
    rw [Clients.addressedAmong, List.countP_cons] at hold
    rw [Clients.addrCount, Clients.addressedAmong, hheap, hconn, List.countP_cons]
    rw [Clients.addrCount] at hold
    dsimp only
    omega

end Limits

namespace Clients

variable {w : Clients}

/-- The list of an address has all the registered sessions there. -/
theorem Sound.addrCount_le (hw : Sound w) (a : In6Addr) :
    w.addrCount a ≤ (w.sessionsAt a).length := by
  have hinj : ∀ e ∈ w.connHash, ∀ e' ∈ w.connHash, e.2 = e'.2 → e = e' := by
    intro e he e' he' h
    refine List.inj_on_of_nodup_map hw.keys he he' ?_
    rw [hw.sockets e he, hw.sockets e' he', h]
  have hnodup : ((w.connHash.filter fun e ↦ (w.heap e.2).addr = a).map Prod.snd).Nodup := by
    refine List.Nodup.map_on (fun e he e' he' ↦ ?_) ((List.Nodup.of_map _ hw.keys).filter _)
    exact hinj e (List.mem_filter.1 he).1 e' (List.mem_filter.1 he').1
  have hsub : (w.connHash.filter fun e ↦ (w.heap e.2).addr = a).map Prod.snd ⊆ w.sessionsAt a := by
    intro s hs
    obtain ⟨e, he, rfl⟩ := List.mem_map.1 hs
    obtain ⟨he, ha⟩ := List.mem_filter.1 he
    rw [← of_decide_eq_true ha]
    exact hw.listed e.2 (hw.registered_of_mem he)
  have hle := (List.subperm_of_subset hnodup hsub).length_le
  rw [List.length_map] at hle
  rw [addrCount, List.countP_eq_length_filter]
  exact hle

end Clients

namespace Logins

variable {conf : LoginConf} {w : Logins} {s t : ClientId}

/-- **The logins under way make no difference to the tests**, and the name that is tested is the one
that is registered. -/
def Serial (conf : LoginConf) (w : Logins) : LoginEvent → Prop
  | .connect _ c => w.clients.addrCount c.addr < conf.singleIpClientLimit →
    w.clients.addrCount c.addr + w.clients.addressedAmong w.underway c.addr <
      conf.singleIpClientLimit
  | .check _ (some username) => 0 < conf.singleUserClientLimit →
    registeredName conf username = username ∧
    ((w.clients.userCount username : Int) < conf.singleUserClientLimit →
      ((w.clients.userCount username + w.clients.namedAmong w.pending username : ℕ) : Int) <
        conf.singleUserClientLimit)
  | _ => True

/-- The bound, and the names of the logins that have passed both tests. -/
structure Inv (conf : LoginConf) (w : Logins) : Prop where
  limits : Limits conf w.clients w.underway w.pending
  names : 0 < conf.singleUserClientLimit → ∀ s ∈ w.accepted,
    registeredName conf (w.clients.heap s).userName = (w.clients.heap s).userName

theorem inv_start (conf : LoginConf) (heap : ClientId → ClientSession) :
    Inv conf (start heap) where
  limits := {
    sound := (Clients.agree_start heap).sound
    sockets := List.nodup_nil
    unregistered := fun _ hs ↦ absurd hs List.not_mem_nil
    included := fun _ hs ↦ absurd hs List.not_mem_nil
    users := fun hpos _ ↦ Int.le_of_lt hpos
    addrs := fun hpos _ ↦ Nat.le_of_lt hpos }
  names _ _ hs := absurd hs List.not_mem_nil

theorem mem_underway_of_mem_pending (h : s ∈ w.pending) : s ∈ w.underway :=
  List.mem_append_right _ h

theorem Inv.connect (hw : Inv conf w) {c : ClientSession} (he : w.enabled (.connect s c))
    (hok : Serial conf w (.connect s c)) : Inv conf (w.connect conf s c) := by
  obtain ⟨hfree, hother⟩ := he
  have hself : (w.clients.modify s fun _ ↦ c).heap s = c := Clients.heap_modify_self s _ w.clients
  have hnew : ∀ e ∈ w.clients.connHash, e.2 ≠ s := fun e he ↦ (hfree e he).2
  have hunder : ∀ t ∈ w.underway, (w.clients.modify s fun _ ↦ c).heap t = w.clients.heap t :=
    fun t ht ↦ Clients.heap_modify_of_ne (hother t ht).2 _ _
  have haddr : ∀ t ∈ w.underway, ((w.clients.modify s fun _ ↦ c).heap t).addr =
      (w.clients.heap t).addr := fun t ht ↦ congrArg ClientSession.addr (hunder t ht)
  have hlimits : Limits conf (w.clients.modify s fun _ ↦ c) w.underway w.pending := by
    refine hw.limits.modify hnew haddr (fun t ht ↦ ?_) fun _ t ht ↦ ?_
    · rw [hunder t ht]
    · rw [hunder t (mem_underway_of_mem_pending ht)]
  have hnames : 0 < conf.singleUserClientLimit → ∀ t ∈ w.accepted,
      registeredName conf ((w.clients.modify s fun _ ↦ c).heap t).userName =
        ((w.clients.modify s fun _ ↦ c).heap t).userName := by
    intro hpos t ht
    rw [hunder t (mem_underway_of_mem_pending (List.mem_append_left _ ht))]
    exact hw.names hpos t ht
  rw [Logins.connect]
  split
  · exact ⟨hlimits, hnames⟩
  · rename_i hroom
    refine ⟨?_, hnames⟩
    have hperm : (w.authenticating ++ [s] ++ w.pending).Perm (s :: w.underway) := by
      rw [List.append_assoc]
      exact List.perm_middle
    refine (hlimits.enter (s := s) ?_ (fun t ht ↦ ?_) fun hpos ↦ ?_).subperm hperm.subperm
      (List.Subperm.refl _) fun t ht ↦ List.mem_append_right _ ht
    · rw [hself]
      exact hfree
    · rw [hself, hunder t ht]
      exact (hother t ht).1
    · have hle := hw.limits.sound.addrCount_le c.addr
      have hlength : (w.clients.sessionsAt c.addr).length < conf.singleIpClientLimit :=
        Nat.lt_of_not_le fun h ↦ hroom ⟨hpos, h⟩
      rw [hself, Clients.addrCount_modify hnew, Clients.addressedAmong_modify haddr]
      exact hok (Nat.lt_of_le_of_lt hle hlength)

theorem Inv.check (hw : Inv conf w) {username : Option Bytes} (he : w.enabled (.check s username))
    (hok : Serial conf w (.check s username)) : Inv conf (w.check conf s username) := by
  have he : s ∈ w.authenticating := he
  have hs : s ∈ w.underway := List.mem_append_left _ he
  have hrefuse : ((w.authenticating.erase s) ++ w.pending).Subperm w.underway :=
    (List.erase_sublist.append_right _).subperm
  have hsub : ∀ t ∈ w.pending, t ∈ w.authenticating.erase s ++ w.pending := fun t ht ↦
    List.mem_append_right _ ht
  cases username with
  | none => exact ⟨hw.limits.subperm hrefuse (List.Subperm.refl _) hsub, hw.names⟩
  | some username =>
    have hself : (w.clients.modify s fun c ↦ { c with userName := username }).heap s =
      { w.clients.heap s with userName := username } := Clients.heap_modify_self s _ w.clients
    have hnew : ∀ e ∈ w.clients.connHash, e.2 ≠ s := fun e he ↦
      (hw.limits.unregistered s hs e he).2
    have hsame : ∀ t ∈ w.pending,
        (w.clients.modify s fun c ↦ { c with userName := username }).heap t = w.clients.heap t :=
      fun t ht ↦ Clients.heap_modify_of_ne
        (Ne.symm ((List.nodup_append.1 hw.limits.nodup).2.2 s he t ht)) _ _
    have hname : ∀ t ∈ w.pending, ((w.clients.modify s fun c ↦
        { c with userName := username }).heap t).userName = (w.clients.heap t).userName :=
      fun t ht ↦ congrArg ClientSession.userName (hsame t ht)
    have hlimits : Limits conf (w.clients.modify s fun c ↦ { c with userName := username })
        w.underway w.pending :=
      hw.limits.modify hnew (fun t _ ↦ Clients.apply_heap_modify ClientSession.addr rfl t)
        (fun t _ ↦ Clients.apply_heap_modify ClientSession.socket rfl t) fun _ ↦ hname
    have hnames : 0 < conf.singleUserClientLimit → ∀ t ∈ w.accepted,
        registeredName conf ((w.clients.modify s fun c ↦
          { c with userName := username }).heap t).userName =
          ((w.clients.modify s fun c ↦ { c with userName := username }).heap t).userName := by
      intro hpos t ht
      rw [hsame t (List.mem_append_left _ ht)]
      exact hw.names hpos t ht
    rw [Logins.check]
    split
    · exact ⟨hlimits.subperm hrefuse (List.Subperm.refl _) hsub, hnames⟩
    · rename_i htest
      have hpend : ((w.accepted ++ [s]) ++ w.inserts).Perm (s :: w.pending) := by
        rw [List.append_assoc]
        exact List.perm_middle
      have hunder : (w.authenticating.erase s ++ ((w.accepted ++ [s]) ++ w.inserts)).Perm
          w.underway :=
        ((hpend.append_left _).trans List.perm_middle).trans
          ((List.perm_cons_erase he).symm.append_right w.pending)
      refine ⟨(hlimits.accept (s := s) hs fun hpos ↦ ?_).subperm hunder.subperm hpend.subperm
        fun t ht ↦ List.mem_append_right _ ht, fun hpos t ht ↦ ?_⟩
      · have hpass : (w.clients.modify s fun c ↦ { c with userName := username
            }).testUsernameCountVsMax username conf.singleUserClientLimit = true :=
          eq_true_of_ne_false fun h ↦ htest ⟨hpos, h⟩
        rw [Clients.testUsernameCountVsMax_iff _ _ hpos, Clients.userCount_modify hnew] at hpass
        rw [hself, Clients.userCount_modify hnew, Clients.namedAmong_modify hname]
        exact (hok hpos).2 hpass
      · rcases List.mem_append.1 ht with ht | ht
        · exact hnames hpos t ht
        · rw [List.mem_singleton.1 ht]
          exact (congrArg (fun c ↦ registeredName conf c.userName = c.userName) hself).mpr
            (hok hpos).1

theorem Inv.connectOk (hw : Inv conf w) {ok : Bool} (he : w.enabled (.connectOk s ok)) :
    Inv conf (w.connectOk conf s ok) := by
  have he : s ∈ w.accepted := he
  have hs : s ∈ w.underway := mem_underway_of_mem_pending (List.mem_append_left _ he)
  have hnew : ∀ e ∈ w.clients.connHash, e.2 ≠ s := fun e he ↦
    (hw.limits.unregistered s hs e he).2
  -- the name has been tested as it is registered
  have hname : 0 < conf.singleUserClientLimit → ∀ t, ((w.clients.modify s fun c ↦
      { c with userName := registeredName conf c.userName }).heap t).userName =
        (w.clients.heap t).userName := fun hpos ↦
    Clients.apply_heap_modify ClientSession.userName (hw.names hpos s he)
  have hnames : 0 < conf.singleUserClientLimit → ∀ t ∈ w.accepted.erase s,
      registeredName conf ((w.clients.modify s fun c ↦
        { c with userName := registeredName conf c.userName }).heap t).userName =
        ((w.clients.modify s fun c ↦
          { c with userName := registeredName conf c.userName }).heap t).userName := by
    intro hpos t ht
    rw [hname hpos]
    exact hw.names hpos t (List.mem_of_mem_erase ht)
  have hpend : w.pending.Perm (s :: (w.accepted.erase s ++ w.inserts)) :=
    (List.perm_cons_erase he).append_right w.inserts
  have hunder : w.underway.Perm
      (s :: (w.authenticating ++ (w.accepted.erase s ++ w.inserts))) :=
    (hpend.append_left w.authenticating).trans List.perm_middle
  have hlimits := (hw.limits.modify hnew
    (fun t _ ↦ Clients.apply_heap_modify ClientSession.addr rfl t)
    (fun t _ ↦ Clients.apply_heap_modify ClientSession.socket rfl t)
    fun hpos t _ ↦ hname hpos t).subperm hunder.symm.subperm hpend.symm.subperm
    fun t ht ↦ List.cons_subset_cons _ (List.subset_append_right _ _) ht
  rw [Logins.connectOk]
  cases ok with
  | false =>
    exact ⟨hlimits.subperm (List.sublist_cons_self _ _).subperm
      (List.sublist_cons_self _ _).subperm fun t ht ↦ List.mem_append_right _ ht, hnames⟩
  | true =>
    cases conf.push with
    | true =>
      have hback : (w.accepted.erase s ++ (w.inserts ++ [s])).Perm
          (s :: (w.accepted.erase s ++ w.inserts)) := by
        rw [← List.append_assoc]
        exact List.perm_append_singleton _ _
      exact ⟨hlimits.subperm ((hback.append_left _).trans List.perm_middle).subperm hback.subperm
        fun t ht ↦ List.mem_append_right _ ht, hnames⟩
    | false =>
      have hheap := Clients.heap_addClient (hlimits.unregistered s List.mem_cons_self)
      refine ⟨hlimits.register fun t ht ↦ List.mem_append_right _ ht, fun hpos t ht ↦ ?_⟩
      exact (congrArg (fun heap : ClientId → ClientSession ↦
        registeredName conf (heap t).userName = (heap t).userName) hheap).mpr (hnames hpos t ht)

theorem Inv.insert (hw : Inv conf w) : Inv conf (w.step conf .insert) := by
  rw [step]
  cases hinserts : w.inserts with
  | nil => exact hw
  | cons s inserts =>
    have hunder : w.underway.Perm (s :: (w.authenticating ++ (w.accepted ++ inserts))) := by
      rw [underway, hinserts, ← List.append_assoc, ← List.append_assoc]
      exact List.perm_middle
    have hpend : w.pending.Perm (s :: (w.accepted ++ inserts)) := by
      rw [pending, hinserts]
      exact List.perm_middle
    have hlimits := hw.limits.subperm hunder.symm.subperm hpend.symm.subperm
      fun t ht ↦ List.cons_subset_cons _ (List.subset_append_right _ _) ht
    refine ⟨hlimits.register fun t ht ↦ List.mem_append_right _ ht, ?_⟩
    dsimp only
    rw [Clients.heap_addClient (hlimits.unregistered s List.mem_cons_self)]
    exact hw.names

/-- Registered sessions are removed, or change. -/
theorem Inv.fewer (hw : Inv conf w) {clients : Clients} (h : Clients.Fewer w.clients clients) :
    Inv conf { w with clients := clients } := by
  refine ⟨hw.limits.fewer h, fun hpos t ht ↦ ?_⟩
  dsimp only
  rw [h.userName]
  exact hw.names hpos t ht

/-- **Every serial step keeps the bound.** -/
theorem inv_step {e : LoginEvent} (hw : Inv conf w) (he : w.enabled e) (hok : Serial conf w e) :
    Inv conf (w.step conf e) := by
  have hsound := hw.limits.sound
  cases e with
  | connect s c => exact hw.connect he hok
  | check s username => exact hw.check he hok
  | connectOk s ok => exact hw.connectOk he
  | insert => exact hw.insert
  | deleteClientBySocket socket => exact hw.fewer (.deleteClientBySocketExt hsound socket)
  | killExpiredClientsSession now trylock =>
    exact hw.fewer (.killExpiredClientsSession hsound now trylock)
  | killAllClients => exact hw.fewer (.killAllClients hsound)
  | touch s c => exact hw.fewer (.modify hsound he.2.1 he.2.2.1 he.2.2.2)

end Logins

open Logins in
/-- **The login limits hold**, in a run in which the logins under way make no difference to the
tests, and with a limit that is not negative: at no time are there more than
`single_user_client_limit` registered sessions with the same name, nor more than
`single_ip_client_limit` with the same address, unless these are zero. -/
theorem login_limits_hold (conf : LoginConf) (hconf : 0 ≤ conf.singleUserClientLimit) {w : Logins}
    (hw : (loginMachine conf).Reach (Serial conf) w) :
    (conf.singleUserClientLimit ≠ 0 → ∀ username,
      (w.clients.userCount username : Int) ≤ conf.singleUserClientLimit) ∧
    (conf.singleIpClientLimit ≠ 0 → ∀ a, w.clients.addrCount a ≤ conf.singleIpClientLimit) := by
  have hinv : Inv conf w := by
    refine hw.invariant ?_ fun w e hw he hok ↦ inv_step hw he hok
    rintro w ⟨heap, rfl⟩
    exact inv_start conf heap
  refine ⟨fun hne username ↦ ?_, fun hne a ↦ ?_⟩
  · have hbound := hinv.limits.users (by omega) username
    omega
  · have hbound := hinv.limits.addrs (by omega) a
    omega

/-- One session for a user, and two at an address. -/
def LoginConf.sample : LoginConf where
  singleUserClientLimit := 1
  singleIpClientLimit := 2
  push := true
  logUsersWithoutRealm := false

/-- Bob logs in, by way of the push worker, and tries again. -/
def twiceRun : List LoginEvent :=
  [.connect 0 (.sample 5), .check 0 (some [98, 111, 98]), .connectOk 0 true, .insert,
    .connect 1 (.sample 6), .check 1 (some [98, 111, 98])]

theorem twiceRun_path : (loginMachine .sample).Path (Logins.Serial .sample)
    (Logins.start fun _ ↦ .sample 0) twiceRun := by
  refine ⟨⟨fun _ h ↦ absurd h List.not_mem_nil, fun _ h ↦ absurd h List.not_mem_nil⟩, ?_,
    List.mem_cons_self, ?_, List.mem_cons_self, trivial, List.cons_ne_nil _ _, trivial,
    ⟨fun e he ↦ ?_, fun _ h ↦ absurd h List.not_mem_nil⟩, ?_, List.mem_cons_self, ?_, trivial⟩
  · exact fun _ ↦ by decide
  · exact fun _ ↦ ⟨rfl, fun _ ↦ by decide⟩
  · rw [List.mem_singleton.1 he]
    decide
  · exact fun _ ↦ by decide
  · refine fun _ ↦ ⟨rfl, fun h ↦ ?_⟩
    exact absurd h (by decide)

/-- He has one session. -/
theorem twiceRun_once :
    let w := (loginMachine .sample).run (Logins.start fun _ ↦ .sample 0) twiceRun
    w.clients.Registered 0 ∧ (w.clients.userCount [98, 111, 98] : Int) ≤ 1 := by
  intro w
  have hlimits := login_limits_hold .sample (by decide)
    ((loginMachine .sample).reach_run ⟨_, rfl⟩ _ twiceRun_path)
  exact ⟨by decide, hlimits.1 (by decide) [98, 111, 98]⟩

/-- **Two sessions where one is allowed**: both logins are tested before one is registered. -/
theorem simultaneous_logins_exceed :
    ∃ w, (loginMachine .sample).Reachable w ∧
      LoginConf.sample.singleUserClientLimit < (w.clients.userCount [98, 111, 98] : Int) := by
  refine ⟨_, (loginMachine .sample).reach_run (s := Logins.start fun _ ↦ .sample 0) ⟨_, rfl⟩
    [.connect 0 (.sample 5), .connect 1 (.sample 6), .check 0 (some [98, 111, 98]),
      .check 1 (some [98, 111, 98]), .connectOk 0 true, .connectOk 1 true, .insert, .insert] ?_,
    by decide⟩
  refine ⟨⟨fun _ h ↦ absurd h List.not_mem_nil, fun _ h ↦ absurd h List.not_mem_nil⟩, trivial,
    ⟨fun _ h ↦ absurd h List.not_mem_nil, fun t ht ↦ ?_⟩, trivial, List.mem_cons_self, trivial,
    List.mem_cons_self, trivial, List.mem_cons_self, trivial, List.mem_cons_self, trivial,
    List.cons_ne_nil _ _, trivial, List.cons_ne_nil _ _, trivial, trivial⟩
  rw [List.mem_singleton.1 ht]
  decide

end Nufw
