import Nufw.Nuauth.ClientTables

/-!
# The oldest protocol at an address

`client_ip_hash` has, with the sessions of an address, the protocol of the oldest client there:
`warn_clients` limits the rate of its messages only if all of them know the newer protocol.
`add_client` keeps it up to date ("older client wins"). `delete_session_from_hash` does not: when
the oldest client leaves, its protocol stays with the others until the last one has gone.

So the protocol stored for an address is the oldest one there as long as no session leaves only
newer ones behind (`oldest_client_wins`). An entry that outlives its sessions, as those that
`kill_expired_clients_session` does not clean up, leaves nothing behind that is as old.

The protocol of a session is negotiated before `add_client`, and does not change later.
-/

namespace Nufw

namespace Clients

/-- The protocol that is stored for an address. -/
def versionAt (w : Clients) (a : In6Addr) : Option ℕ := (w.ipHash a).map IpSessions.protoVersion

/-- The protocols of the sessions that are registered for an address. -/
def versionsAt (w : Clients) (a : In6Addr) : List ℕ :=
  (w.connHash.filter fun e ↦ (w.heap e.2).addr = a).map fun e ↦ (w.heap e.2).protoVersion

/-- **The oldest client wins, and only while it is there.** -/
def OldestWins (w : Clients) : Prop := ∀ a, w.versionAt a = (w.versionsAt a).min?

/-! ### Who leaves -/

/-- The sessions that the event takes out of `client_conn_hash`. -/
def leaving (w : Clients) : ClientEvent → List ClientId
  | .deleteClientBySocket socket => (w.getClientDatasBySocket socket).toList
  | .deleteRwLockedClient s => (w.getClientDatasBySocket (w.heap s).socket).toList
  | .killExpiredClientsSession now trylock =>
    (w.connHash.filter fun e ↦ (isExpiredClient now (trylock e.2) (w.heap e.2)).1).map Prod.snd
  | .killAllClients => (w.connHash.filter fun e ↦ (w.heap e.2).activated).map Prod.snd
  | _ => []

/-- The entry of the address goes with those who leave: they are taken out of its list, and nobody
else is there. -/
def EntryGoes (w : Clients) (a : In6Addr) : ClientEvent → Prop
  | .killExpiredClientsSession _ _ => False
  | e => (w.sessionsAt a).diff ((w.leaving e).filter fun s ↦ (w.heap s).addr = a) = []

/-- **Nobody leaves only newer clients behind**: when a session leaves, the entry of its address
goes, or a session stays there that is at least as old. -/
def OldestStays (w : Clients) (e : ClientEvent) : Prop :=
  ∀ s ∈ w.leaving e, w.EntryGoes (w.heap s).addr e ∨
    ∃ t, w.Registered t ∧ t ∉ w.leaving e ∧ (w.heap t).addr = (w.heap s).addr ∧
      (w.heap t).protoVersion ≤ (w.heap s).protoVersion

/-- The protocol of a session stays what it is. -/
def KeepsVersion (w : Clients) : ClientEvent → Prop
  | .touch s c => c.protoVersion = (w.heap s).protoVersion
  | _ => True

end Clients

/-- **The machine of the client tables**, with the protocols fixed. -/
def versionMachine : Machine Clients ClientEvent where
  init := clientMachine.init
  enabled w e := clientMachine.enabled w e ∧ w.KeepsVersion e
  step := clientMachine.step

namespace Clients

variable {w w' : Clients} {s : ClientId} {a : In6Addr}

theorem mem_versionsAt {v : ℕ} : v ∈ w.versionsAt a ↔
    ∃ e ∈ w.connHash, (w.heap e.2).addr = a ∧ (w.heap e.2).protoVersion = v := by
  simp [versionsAt, and_assoc]

/-- No entry has an empty list. -/
def Filled (w : Clients) : Prop :=
  ∀ a ipsessions, w.ipHash a = some ipsessions → ipsessions.sessions ≠ []

theorem Filled.versionAt_of_nil (hw : Filled w) (h : w.sessionsAt a = []) :
    w.versionAt a = none := by
  rw [sessionsAt] at h
  rw [versionAt]
  cases hip : w.ipHash a with
  | none => rfl
  | some ipsessions =>
    rw [hip] at h
    exact absurd h (hw a ipsessions hip)

/-! ### Leaving -/

/-- The sessions `gone` have been taken out of `client_conn_hash`. -/
structure Left (gone : List ClientId) (w w' : Clients) : Prop where
  addr : ∀ t, (w'.heap t).addr = (w.heap t).addr
  protoVersion : ∀ t, (w'.heap t).protoVersion = (w.heap t).protoVersion
  connHash : w'.connHash = w.connHash.filter (·.2 ∉ gone)

/-- They have been taken out of `client_ip_hash` as well. -/
structure CleanedUp (gone : List ClientId) (w w' : Clients) : Prop extends Left gone w w' where
  sessionsAt : ∀ a, w'.sessionsAt a =
    (w.sessionsAt a).diff (gone.filter fun s ↦ (w.heap s).addr = a)
  versionAt : ∀ a, w'.versionAt a = if w'.sessionsAt a = [] then none else w.versionAt a

/-- They are left in `client_ip_hash`. -/
structure Abandoned (gone : List ClientId) (w w' : Clients) : Prop extends Left gone w w' where
  ipHash : w'.ipHash = w.ipHash

section

variable {w'' : Clients} {gone gone' : List ClientId}

theorem Left.refl (w : Clients) : Left [] w w where
  addr _ := rfl
  protoVersion _ := rfl
  connHash := by simp

theorem Left.trans (h : Left gone w w') (h' : Left gone' w' w'') : Left (gone ++ gone') w w'' where
  addr t := (h'.addr t).trans (h.addr t)
  protoVersion t := (h'.protoVersion t).trans (h.protoVersion t)
  connHash := by
    rw [h'.connHash, h.connHash, List.filter_filter]
    refine List.filter_congr fun e _ ↦ ?_
    simp [Bool.and_comm]

theorem Abandoned.refl (w : Clients) : Abandoned [] w w := ⟨.refl w, rfl⟩

theorem Abandoned.trans (h : Abandoned gone w w') (h' : Abandoned gone' w' w'') :
    Abandoned (gone ++ gone') w w'' :=
  ⟨h.toLeft.trans h'.toLeft, h'.ipHash.trans h.ipHash⟩

theorem CleanedUp.refl (hw : Filled w) : CleanedUp [] w w where
  toLeft := .refl w
  sessionsAt _ := rfl
  versionAt a := by
    split
    · rename_i hnil
      exact hw.versionAt_of_nil hnil
    · rfl

theorem CleanedUp.trans (h : CleanedUp gone w w') (h' : CleanedUp gone' w' w'') :
    CleanedUp (gone ++ gone') w w'' where
  toLeft := h.toLeft.trans h'.toLeft
  sessionsAt a := by
    simp only [h'.sessionsAt, h.sessionsAt, h.addr, List.filter_append, List.diff_append]
  versionAt a := by
    rw [h'.versionAt, h.versionAt]
    split
    · rfl
    · rename_i hne
      refine if_neg fun hnil ↦ hne ?_
      rw [h'.sessionsAt, hnil, List.nil_diff]

/-- **What leaving does to the protocols**, whichever entries go. -/
theorem Left.oldestWins_iff (h : Left gone w w') (hw : OldestWins w)
    (hgone : ∀ s ∈ gone, w.Registered s) (goes : In6Addr → Prop)
    (hgoes : ∀ a, goes a → w'.versionAt a = none ∧
      ∀ e ∈ w.connHash, (w.heap e.2).addr = a → e.2 ∈ gone)
    (hstays : ∀ a, ¬goes a → w'.versionAt a = w.versionAt a) :
    OldestWins w' ↔ ∀ s ∈ gone, goes (w.heap s).addr ∨
      ∃ e ∈ w.connHash, e.2 ∉ gone ∧ (w.heap e.2).addr = (w.heap s).addr ∧
        (w.heap e.2).protoVersion ≤ (w.heap s).protoVersion := by
  have hmem {a : In6Addr} {v : ℕ} : v ∈ w'.versionsAt a ↔ ∃ e ∈ w.connHash, e.2 ∉ gone ∧
      (w.heap e.2).addr = a ∧ (w.heap e.2).protoVersion = v := by
    simp only [mem_versionsAt, h.addr, h.protoVersion, h.connHash, List.mem_filter, and_assoc,
      decide_eq_true_eq]
  constructor
  · intro hw' s hs
    refine or_iff_not_imp_left.2 fun hgo ↦ ?_
    -- the stored protocol is at most that of `s`, and somebody who stays has it
    have hv : (w.heap s).protoVersion ∈ w.versionsAt (w.heap s).addr :=
      mem_versionsAt.2 ⟨_, hgone s hs, rfl, rfl⟩
    have hstored : (w'.versionsAt (w.heap s).addr).min? = (w.versionsAt (w.heap s).addr).min? := by
      rw [← hw', ← hw, hstays _ hgo]
    cases hmin : (w.versionsAt (w.heap s).addr).min? with
    | none =>
      rw [List.min?_eq_none_iff.1 hmin] at hv
      exact absurd hv List.not_mem_nil
    | some v =>
      rw [hmin] at hstored
      obtain ⟨e, he, hstay, haddr, hve⟩ := hmem.1 (List.min?_eq_some_iff.1 hstored).1
      exact ⟨e, he, hstay, haddr, hve ▸ (List.min?_eq_some_iff.1 hmin).2 _ hv⟩
  · intro hold a
    by_cases hgo : goes a
    · obtain ⟨hnone, hall⟩ := hgoes a hgo
      refine hnone.trans
        (List.min?_eq_none_iff.2 (List.eq_nil_iff_forall_not_mem.2 fun v hv ↦ ?_)).symm
      obtain ⟨e, he, hstay, haddr, -⟩ := hmem.1 hv
      exact hstay (hall e he haddr)
    · have hsub : ∀ v ∈ w'.versionsAt a, v ∈ w.versionsAt a := by
        intro v hv
        obtain ⟨e, he, -, haddr, hve⟩ := hmem.1 hv
        exact mem_versionsAt.2 ⟨e, he, haddr, hve⟩
      rw [hstays a hgo, hw a]
      cases hmin : (w.versionsAt a).min? with
      | none =>
        rw [List.min?_eq_none_iff] at hmin
        refine (List.min?_eq_none_iff.2 (List.eq_nil_iff_forall_not_mem.2 fun v hv ↦ ?_)).symm
        exact absurd (hmin ▸ hsub v hv) List.not_mem_nil
      | some v =>
        obtain ⟨hv, hle⟩ := List.min?_eq_some_iff.1 hmin
        refine (List.min?_eq_some_iff.2 ⟨?_, fun v' hv' ↦ hle v' (hsub v' hv')⟩).symm
        obtain ⟨e, he, haddr, hve⟩ := mem_versionsAt.1 hv
        by_cases hstay : e.2 ∈ gone
        · obtain hgo' | ⟨e', he', hstay', haddr', hle'⟩ := hold e.2 hstay
          · exact absurd (haddr ▸ hgo') hgo
          · refine hmem.2 ⟨e', he', hstay', haddr'.trans haddr, Nat.le_antisymm (hve ▸ hle') ?_⟩
            exact hle _ (mem_versionsAt.2 ⟨e', he', haddr'.trans haddr, rfl⟩)
        · exact hmem.2 ⟨e, he, hstay, haddr, hve⟩

end

/-! ### One session -/

theorem Sound.connHash_eraseP (hw : Sound w) (hs : w.Registered s) :
    w.connHash.eraseP (·.1 = (w.heap s).socket) = w.connHash.filter (·.2 ∉ [s]) := by
  rw [eraseP_eq_filter_of_nodup hw.keys]
  refine List.filter_congr fun e he ↦ decide_eq_decide.2 (not_congr ?_)
  rw [List.mem_singleton]
  constructor
  · intro hkey
    exact hw.eq_of_socket (hw.registered_of_mem he) hs ((hw.sockets e he).symm.trans hkey)
  · intro hes
    rw [hw.sockets e he, hes]

theorem Filled.unregister (hw : Sound w) (hfilled : Filled w) (hs : w.Registered s) :
    Filled (w.unregister s) := by
  obtain ⟨ipsessions, -, heq⟩ := hw.unregister_eq hs
  rw [heq]
  refine nonempty_of_update hfilled rfl fun ips hips ↦ ?_
  split at hips
  · cases hips
  · rename_i hne
    rw [← Option.some.inj hips]
    exact hne

/-- **A session leaves both tables**: the protocol of its address stays, unless it was the last. -/
theorem Sound.cleanedUp_unregister (hw : Sound w) (hfilled : Filled w) (hs : w.Registered s) :
    CleanedUp [s] w (w.unregister s) where
  addr t := by
    rw [hw.heap_unregister hs]
    exact addr_logCleanSession w s t
  protoVersion t := by
    rw [hw.heap_unregister hs]
    exact apply_heap_modify (f := fun c ↦ { c with destroyed := true }) ClientSession.protoVersion
      rfl t
  connHash := (hw.connHash_unregister hs).trans (hw.connHash_eraseP hs)
  sessionsAt a := by
    rw [hw.sessionsAt_unregister hs]
    by_cases ha : (w.heap s).addr = a
    · rw [if_pos ha.symm, List.filter_cons_of_pos (by simpa using ha), List.diff_cons]
      rfl
    · rw [if_neg (Ne.symm ha), List.filter_cons_of_neg (by simpa using ha)]
      rfl
  versionAt a := by
    rw [hw.sessionsAt_unregister hs]
    obtain ⟨ipsessions, hip, heq⟩ := hw.unregister_eq hs
    rw [heq]
    by_cases ha : a = (w.heap s).addr
    · have hlist : w.sessionsAt a = ipsessions.sessions := by
        rw [Clients.sessionsAt, ha, hip]
        rfl
      rw [if_pos ha, hlist, Clients.versionAt, Clients.versionAt, ha, hip]
      show Option.map _ (Function.update w.ipHash _ _ _) = _
      rw [Function.update_self]
      split
      · rfl
      · rfl
    · have hsame : Clients.versionAt { (w.deleteSessionFromHash ipsessions s).logCleanSession s with
          connHash := w.connHash.eraseP (·.1 = (w.heap s).socket) } a = w.versionAt a :=
        congrArg (Option.map _) (Function.update_of_ne ha _ _)
      rw [if_neg ha, hsame]
      split
      · rename_i hnil
        exact hfilled.versionAt_of_nil hnil
      · rfl

/-! ### Many sessions -/

/-- A walk over the entries of `client_conn_hash`, which takes out the sessions that satisfy `p`. -/
structure Sweep (f : ℕ × ClientId → Clients → Clients) (p : ClientId → ClientSession → Bool)
    (R : List ClientId → Clients → Clients → Prop) : Prop where
  refl : ∀ {w}, Filled w → R [] w w
  trans : ∀ {gone gone' w w' w''}, R gone w w' → R gone' w' w'' → R (gone ++ gone') w w''
  entry : ∀ {w e}, Sound w → Filled w → e ∈ w.connHash → Sound (f e w) ∧ Filled (f e w) ∧
    R (if p e.2 (w.heap e.2) then [e.2] else []) w (f e w)
  other : ∀ {w e e'}, Sound w → e ∈ w.connHash → e' ∈ w.connHash → e'.1 ≠ e.1 →
    e' ∈ (f e w).connHash ∧ p e'.2 ((f e w).heap e'.2) = p e'.2 (w.heap e'.2)

theorem Sweep.foldl {f : ℕ × ClientId → Clients → Clients} {p : ClientId → ClientSession → Bool}
    {R : List ClientId → Clients → Clients → Prop} (h : Sweep f p R) {l : List (ℕ × ClientId)}
    (hl : (l.map Prod.fst).Nodup) (hw : Sound w) (hfilled : Filled w)
    (hmem : ∀ e ∈ l, e ∈ w.connHash) :
    Sound (l.foldl (fun w e ↦ f e w) w) ∧ Filled (l.foldl (fun w e ↦ f e w) w) ∧
      R ((l.filter fun e ↦ p e.2 (w.heap e.2)).map Prod.snd) w (l.foldl (fun w e ↦ f e w) w) := by
  induction l generalizing w with
  | nil => exact ⟨hw, hfilled, h.refl hfilled⟩
  | cons e l ih =>
    obtain ⟨hnot, hl⟩ := List.nodup_cons.1 hl
    have he := hmem e List.mem_cons_self
    have hother : ∀ e' ∈ l, e' ∈ (f e w).connHash ∧
        p e'.2 ((f e w).heap e'.2) = p e'.2 (w.heap e'.2) := fun e' he' ↦
      h.other hw he (hmem e' (List.mem_cons_of_mem _ he')) fun hkey ↦
        hnot (hkey ▸ List.mem_map_of_mem he')
    obtain ⟨hsound, hfill, hstep⟩ := h.entry hw hfilled he
    obtain ⟨hsound', hfill', hrest⟩ := ih hl hsound hfill fun e' he' ↦ (hother e' he').1
    rw [List.filter_congr fun e' he' ↦ (hother e' he').2] at hrest
    refine ⟨hsound', hfill', ?_⟩
    have htrans := h.trans hstep hrest
    rw [List.filter_cons]
    split
    · rename_i hp
      rw [if_pos hp] at htrans
      exact htrans
    · rename_i hp
      rw [if_neg hp] at htrans
      exact htrans

theorem Sound.modify (hw : Sound w) {f : ClientSession → ClientSession}
    (haddr : (f (w.heap s)).addr = (w.heap s).addr)
    (hsocket : (f (w.heap s)).socket = (w.heap s).socket) : Sound (w.modify s f) :=
  Sound.of_heap (fun e _ ↦ ⟨apply_heap_modify ClientSession.addr haddr e.2,
    apply_heap_modify ClientSession.socket hsocket e.2⟩) hw

theorem Left.modify {f : ClientSession → ClientSession}
    (haddr : (f (w.heap s)).addr = (w.heap s).addr)
    (hversion : (f (w.heap s)).protoVersion = (w.heap s).protoVersion) :
    Left [] w (w.modify s f) where
  addr := apply_heap_modify ClientSession.addr haddr
  protoVersion := apply_heap_modify ClientSession.protoVersion hversion
  connHash := (Left.refl w).connHash

theorem CleanedUp.modify (hfilled : Filled w) {f : ClientSession → ClientSession}
    (haddr : (f (w.heap s)).addr = (w.heap s).addr)
    (hversion : (f (w.heap s)).protoVersion = (w.heap s).protoVersion) :
    CleanedUp [] w (w.modify s f) where
  toLeft := .modify haddr hversion
  sessionsAt := (CleanedUp.refl hfilled).sessionsAt
  versionAt := (CleanedUp.refl hfilled).versionAt

/-- `kill_all_clients` takes out the sessions whose events the server listens for. -/
theorem sweep_killClient :
    Sweep (fun e w ↦ w.killClient e) (fun _ c ↦ c.activated) CleanedUp where
  refl := .refl
  trans := .trans
  entry {w e} hw hfilled he := by
    have hs := hw.registered_of_mem he
    rw [hw.killClient_eq he]
    by_cases hact : (w.heap e.2).activated = false
    · rw [if_pos hact, hact]
      exact ⟨hw.modify rfl rfl, hfilled, .modify hfilled rfl rfl⟩
    · rw [if_neg hact, if_pos (by simpa using hact)]
      exact ⟨hw.unregister hs, .unregister hw hfilled hs, hw.cleanedUp_unregister hfilled hs⟩
  other {w e e'} hw he he' hne := by
    refine ⟨mem_connHash_killClient he' hne, ?_⟩
    have hsession : e'.2 ≠ e.2 := fun h ↦ hne (by rw [hw.sockets e' he', h, ← hw.sockets e he])
    rw [hw.killClient_eq he]
    split
    · rw [heap_modify_of_ne hsession]
    · rw [hw.heap_unregister (hw.registered_of_mem he), Function.update_of_ne hsession]

/-- `kill_expired_clients_session` takes out those that have expired. -/
theorem sweep_killExpiredClient (now : Int) (trylock : ClientId → Bool × Bool) :
    Sweep (fun e w ↦ w.killExpiredClient now trylock e)
      (fun s c ↦ (isExpiredClient now (trylock s) c).1) Abandoned where
  refl _ := .refl _
  trans := .trans
  entry {w e} hw hfilled he := by
    obtain ⟨hsound, hkilled⟩ := hw.killExpiredClient now trylock he
    refine ⟨hsound, fun a ips ↦ hkilled.ipHash ▸ hfilled a ips, ?_, hkilled.ipHash⟩
    obtain ⟨b, heq⟩ := hw.killExpiredClient_eq now trylock he
    rw [heq]
    split
    · have hkeep : ∀ {β : Type} (g : ClientSession → β),
          g { w.heap e.2 with pendingDisconnect := b, destroyed := true } = g (w.heap e.2) → ∀ t,
          g (Function.update w.heap e.2
            { w.heap e.2 with pendingDisconnect := b, destroyed := true } t) = g (w.heap t) :=
        fun g hg t ↦ apply_heap_modify g (w := w) (s := e.2)
          (f := fun c ↦ { c with pendingDisconnect := b, destroyed := true }) hg t
      exact ⟨hkeep _ rfl, hkeep _ rfl, hw.connHash_eraseP (hw.registered_of_mem he)⟩
    · exact .modify rfl rfl
  other {w e e'} hw he he' hne := by
    obtain ⟨hmem, hheap⟩ := hw.killExpiredClient_of_ne now trylock he he' hne
    exact ⟨hmem, by rw [hheap]⟩

/-! ### The steps -/

theorem Sound.exists_mem_iff (hw : Sound w) {p : ClientId → Prop} :
    (∃ e ∈ w.connHash, p e.2) ↔ ∃ t, w.Registered t ∧ p t := by
  constructor
  · rintro ⟨e, he, hp⟩
    exact ⟨e.2, hw.registered_of_mem he, hp⟩
  · rintro ⟨t, ht, hp⟩
    exact ⟨_, ht, hp⟩

section

variable {gone : List ClientId} (hw : Sound w) (hwins : OldestWins w)
  (hgone : ∀ s ∈ gone, w.Registered s)

include hw hwins hgone

theorem CleanedUp.oldestWins_iff (h : CleanedUp gone w w') (hw' : Sound w') :
    OldestWins w' ↔ ∀ s ∈ gone,
      (w.sessionsAt (w.heap s).addr).diff
        (gone.filter fun t ↦ (w.heap t).addr = (w.heap s).addr) = [] ∨
      ∃ t, w.Registered t ∧ t ∉ gone ∧ (w.heap t).addr = (w.heap s).addr ∧
        (w.heap t).protoVersion ≤ (w.heap s).protoVersion := by
  simp only [← h.sessionsAt, ← hw.exists_mem_iff (p := fun t ↦ t ∉ gone ∧ _)]
  refine h.toLeft.oldestWins_iff hwins hgone (fun a ↦ w'.sessionsAt a = [])
    (fun a hnil ↦ ⟨?_, fun e he haddr ↦ ?_⟩) fun a hne ↦ ?_
  · rw [h.versionAt, if_pos hnil]
  · -- whoever stays is in the list
    by_contra hstay
    have hmem : e ∈ w'.connHash := by
      rw [h.connHash]
      exact List.mem_filter.2 ⟨he, decide_eq_true hstay⟩
    have hlisted := hw'.listed e.2 (hw'.registered_of_mem hmem)
    rw [h.addr, haddr, hnil] at hlisted
    exact absurd hlisted List.not_mem_nil
  · rw [h.versionAt, if_neg hne]

theorem Abandoned.oldestWins_iff (h : Abandoned gone w w') :
    OldestWins w' ↔ ∀ s ∈ gone, False ∨
      ∃ t, w.Registered t ∧ t ∉ gone ∧ (w.heap t).addr = (w.heap s).addr ∧
        (w.heap t).protoVersion ≤ (w.heap s).protoVersion := by
  simp only [← hw.exists_mem_iff (p := fun t ↦ t ∉ gone ∧ _)]
  refine h.toLeft.oldestWins_iff hwins hgone (fun _ ↦ False) (fun _ hgo ↦ hgo.elim)
    fun a _ ↦ ?_
  rw [versionAt, h.ipHash]
  rfl

end

theorem OldestWins.modify (hw : OldestWins w) {f : ClientSession → ClientSession}
    (haddr : (f (w.heap s)).addr = (w.heap s).addr)
    (hversion : (f (w.heap s)).protoVersion = (w.heap s).protoVersion) :
    OldestWins (w.modify s f) := by
  intro a
  refine (hw a).trans ?_
  simp only [versionsAt, apply_heap_modify ClientSession.addr haddr,
    apply_heap_modify ClientSession.protoVersion hversion]
  rfl

/-- A session is allocated. -/
theorem OldestWins.allocate (hw : OldestWins w) (hnew : ∀ e ∈ w.connHash, e.2 ≠ s)
    (f : ClientSession → ClientSession) : OldestWins (w.modify s f) := by
  intro a
  refine (hw a).trans (congrArg List.min? ?_)
  have hheap : ∀ e ∈ w.connHash, (w.modify s f).heap e.2 = w.heap e.2 := fun e he ↦
    heap_modify_of_ne (hnew e he) f w
  rw [versionsAt, versionsAt]
  have hfilter : (w.modify s f).connHash.filter (fun e ↦ ((w.modify s f).heap e.2).addr = a) =
      w.connHash.filter fun e ↦ (w.heap e.2).addr = a :=
    List.filter_congr fun e he ↦ by rw [hheap e he]
  rw [hfilter]
  refine List.map_congr_left fun e he ↦ ?_
  rw [hheap e (List.mem_of_mem_filter he)]

/-- **`add_client` keeps the oldest protocol.** -/
theorem OldestWins.addClient (hw : OldestWins w)
    (hfree : ∀ e ∈ w.connHash, e.1 ≠ (w.heap s).socket ∧ e.2 ≠ s) :
    OldestWins (w.addClient (w.heap s).socket s) := by
  intro a
  rw [versionsAt, heap_addClient hfree, connHash_addClient hfree]
  have hnone : w.getClientDatasBySocket (w.heap s).socket = none :=
    Option.map_eq_none_iff.2 (List.find?_eq_none.2 fun e he hkey ↦
      (hfree e he).1 (of_decide_eq_true hkey))
  have hip : (w.addClient (w.heap s).socket s).ipHash a = Function.update w.ipHash (w.heap s).addr
      (some { ipSessionsWith (w.heap s) (w.ipHash (w.heap s).addr) with
        sessions := s :: (ipSessionsWith (w.heap s) (w.ipHash (w.heap s).addr)).sessions }) a := by
    rw [Clients.addClient, removeConn_of_none hnone]
  rw [versionAt, hip]
  by_cases ha : (w.heap s).addr = a
  · have hold := hw a
    rw [versionAt, ← ha] at hold
    rw [← ha, Function.update_self, List.filter_cons_of_pos (by simp), List.map_cons,
      List.min?_cons]
    rw [versionsAt] at hold
    rw [← hold]
    cases w.ipHash (w.heap s).addr with
    | none => simp [ipSessionsWith]
    | some ipsessions =>
      simp only [Option.map_some, ipSessionsWith, Option.getD_some, Option.elim_some]
      split
      · rw [Nat.min_eq_left (by omega)]
      · rw [Nat.min_eq_right (by omega)]
  · rw [Function.update_of_ne (Ne.symm ha), List.filter_cons_of_neg (by simpa using ha)]
    exact hw a

/-- What holds in every run. -/
structure Tidy (w : Clients) : Prop extends Sound w where
  filled : Filled w

theorem tidy_start (heap : ClientId → ClientSession) : Tidy (start heap) :=
  ⟨(agree_start heap).sound, (agree_start heap).nonempty⟩

/-- **What a step does to the oldest protocols.** -/
theorem Tidy.step {e : ClientEvent} (hw : Tidy w) (he : versionMachine.enabled w e) :
    Tidy (w.step e) ∧ (OldestWins w → (OldestWins (w.step e) ↔ w.OldestStays e)) := by
  have hdelete : ∀ socket, Tidy (w.deleteClientBySocketExt socket).2 ∧
      (OldestWins w → (OldestWins (w.deleteClientBySocketExt socket).2 ↔
        w.OldestStays (.deleteClientBySocket socket))) := by
    intro socket
    cases hlookup : w.getClientDatasBySocket socket with
    | none =>
      rw [deleteClientBySocketExt, hlookup]
      refine ⟨hw, fun hwins ↦ iff_of_true hwins fun s hs ↦ ?_⟩
      rw [leaving, hlookup] at hs
      exact absurd hs List.not_mem_nil
    | some s =>
      obtain ⟨hs, hsocket⟩ := hw.toSound.registered_of_lookup hlookup
      have hsound := hw.toSound.unregister hs
      have hcleaned := hw.toSound.cleanedUp_unregister hw.filled hs
      rw [hsocket, hw.toSound.deleteClientBySocketExt_eq hs]
      refine ⟨⟨hsound, .unregister hw.toSound hw.filled hs⟩, fun hwins ↦ ?_⟩
      rw [hcleaned.oldestWins_iff hw.toSound hwins (by simpa using hs) hsound, OldestStays]
      simp only [EntryGoes, leaving, ← hsocket, hlookup, Option.toList_some]
  cases e with
  | addClient s c =>
    have hfree := he.1
    have hsocket : c.socket = ((w.modify s fun _ ↦ c).heap s).socket := by
      rw [heap_modify_self]
    have hfree' : ∀ e ∈ (w.modify s fun _ ↦ c).connHash,
        e.1 ≠ ((w.modify s fun _ ↦ c).heap s).socket ∧ e.2 ≠ s := by
      intro e h
      rw [← hsocket]
      exact hfree e h
    have hnew := hw.toSound.of_heap (heap_allocate (fun e h ↦ (hfree e h).2) fun _ ↦ c)
    rw [Clients.step, hsocket]
    refine ⟨⟨Sound.addClient hnew hfree', ?_⟩, fun hwins ↦ iff_of_true ?_ fun s hs ↦ ?_⟩
    · obtain ⟨ipsessions, -, heq⟩ := addClient_eq hfree'
      rw [heq]
      refine nonempty_of_update hw.filled rfl fun ips hips ↦ ?_
      rw [← Option.some.inj hips]
      exact List.cons_ne_nil _ _
    · exact (hwins.allocate (fun e h ↦ (hfree e h).2) fun _ ↦ c).addClient hfree'
    · exact absurd hs List.not_mem_nil
  | deleteClientBySocket socket => exact hdelete socket
  | deleteRwLockedClient s => exact hdelete _
  | killExpiredClientsSession now trylock =>
    obtain ⟨hsound, hfilled, habandoned⟩ := (sweep_killExpiredClient now trylock).foldl hw.keys
      hw.toSound hw.filled fun _ he ↦ he
    refine ⟨⟨hsound, hfilled⟩, fun hwins ↦ habandoned.oldestWins_iff hw.toSound hwins ?_⟩
    intro s hs
    obtain ⟨e, he, rfl⟩ := List.mem_map.1 hs
    exact hw.registered_of_mem (List.mem_of_mem_filter he)
  | killAllClients =>
    obtain ⟨hsound, hfilled, hcleaned⟩ := sweep_killClient.foldl hw.keys hw.toSound hw.filled
      fun _ he ↦ he
    refine ⟨⟨hsound, hfilled⟩, fun hwins ↦ hcleaned.oldestWins_iff hw.toSound hwins ?_ hsound⟩
    intro s hs
    obtain ⟨e, he, rfl⟩ := List.mem_map.1 hs
    exact hw.registered_of_mem (List.mem_of_mem_filter he)
  | touch s c =>
    refine ⟨⟨hw.toSound.modify (f := fun _ ↦ c) he.1.1 he.1.2, hw.filled⟩, fun hwins ↦
      iff_of_true (hwins.modify (f := fun _ ↦ c) he.1.1 he.2) fun s hs ↦ ?_⟩
    exact absurd hs List.not_mem_nil

end Clients

/-- **The older client wins, and only while it is there**, in a run in which nobody leaves only
newer clients behind: the protocol that is stored for an address is the oldest one of the sessions
registered there, and none is stored if there are no sessions. The next step keeps this just when
nobody leaves only newer clients behind in it. -/
theorem oldest_client_wins {w : Clients} (hw : versionMachine.Reach Clients.OldestStays w) :
    (∀ a, w.versionAt a = (w.versionsAt a).min?) ∧
    ∀ e, versionMachine.enabled w e →
      ((∀ a, (versionMachine.step w e).versionAt a =
        ((versionMachine.step w e).versionsAt a).min?) ↔ w.OldestStays e) := by
  have hinv : w.Tidy ∧ w.OldestWins := by
    refine hw.invariant (I := fun w ↦ w.Tidy ∧ w.OldestWins) ?_ fun w e hw he hok ↦ ?_
    · rintro w ⟨heap, rfl⟩
      exact ⟨Clients.tidy_start heap, fun _ ↦ rfl⟩
    · obtain ⟨htidy, hiff⟩ := hw.1.step he
      exact ⟨htidy, (hiff hw.2).2 hok⟩
  exact ⟨hinv.2, fun e he ↦ (hinv.1.step he).2 hinv.2⟩

/-- A client of protocol 2.0 and one of 2.4 come, from one address. -/
def agesRun : List ClientEvent :=
  [.addClient 0 { ClientSession.sample 5 with protoVersion := protoVersionV20 },
    .addClient 1 (.sample 6)]

theorem agesRun_path (es : List ClientEvent)
    (hes : versionMachine.Path Clients.OldestStays
      (versionMachine.run (Clients.start fun _ ↦ .sample 0) agesRun) es) :
    versionMachine.Path Clients.OldestStays (Clients.start fun _ ↦ .sample 0) (agesRun ++ es) := by
  refine ⟨⟨fun _ he ↦ absurd he List.not_mem_nil, trivial⟩, fun _ hs ↦ absurd hs List.not_mem_nil,
    ⟨fun e he ↦ ?_, trivial⟩, fun _ hs ↦ absurd hs List.not_mem_nil, hes⟩
  rw [List.mem_singleton.1 he]
  decide

/-- The newer one leaves first. -/
theorem agesRun_wins :
    let w := versionMachine.run (Clients.start fun _ ↦ .sample 0)
      (agesRun ++ [.deleteClientBySocket 6])
    (∀ a, w.versionAt a = (w.versionsAt a).min?) ∧
      w.versionAt clientAddr = some protoVersionV20 := by
  refine ⟨(oldest_client_wins (versionMachine.reach_run ⟨_, rfl⟩ _ (agesRun_path _ ?_))).1,
    by decide⟩
  refine ⟨⟨trivial, trivial⟩, fun s hs ↦ Or.inr ⟨0, by decide, ?_⟩, trivial⟩
  have hleaving : (versionMachine.run (Clients.start fun _ ↦ .sample 0) agesRun).leaving
      (.deleteClientBySocket 6) = [1] := by decide
  rw [hleaving] at hs ⊢
  rw [List.mem_singleton.1 hs]
  decide

/-- **The older client has left, and its protocol stays**: the only client at the address knows the
newer one. -/
theorem oldest_version_stale :
    ∃ w, versionMachine.Reachable w ∧ w.versionAt clientAddr = some protoVersionV20 ∧
      w.versionsAt clientAddr = [protoVersionV24] := by
  refine ⟨_, versionMachine.reach_run (s := Clients.start fun _ ↦ .sample 0) ⟨_, rfl⟩
    (agesRun ++ [.deleteClientBySocket 5]) ?_, by decide, by decide⟩
  refine ⟨⟨fun _ he ↦ absurd he List.not_mem_nil, trivial⟩, trivial, ⟨fun e he ↦ ?_, trivial⟩,
    trivial, ⟨trivial, trivial⟩, trivial, trivial⟩
  rw [List.mem_singleton.1 he]
  decide

end Nufw
