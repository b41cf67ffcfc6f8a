import Nufw.Nuauth.ClientMngr
import Nufw.Lib.Table

/-!
# Sessions that have expired

Two functions end a session that has lasted too long. `kill_expired_clients_session` of
`client_mngr.c` sweeps the table with `is_expired_client`; `tls_user_check_activity` of `tls_user.c`
refuses what the client sends. A session has no end if its `expire` is `-1`.

A sweep is a filter (`Filed.swept`): every entry is tested on the session as it was before the
sweep. The two functions read `-1` in different ways, and the first leaves with it before it comes
to the test for silence, so that the sweep does what it is for exactly if no session without an end
is silent or refused (`sweeps_iff`).
-/

namespace Nufw

namespace Clients

variable {now : Int} {trylock : ClientId → Bool × Bool} {w w' : Clients}

/-- The table has each socket once, and under it a session with this socket. -/
structure Filed (w : Clients) : Prop where
  keys : (w.connHash.map Prod.fst).Nodup
  sockets : ∀ e ∈ w.connHash, e.1 = (w.heap e.2).socket

/-- No two entries have the same session. -/
theorem Filed.eq_of_session (hw : Filed w) {e e' : ℕ × ClientId} (he : e ∈ w.connHash)
    (he' : e' ∈ w.connHash) (h : e.2 = e'.2) : e = e' := by
  refine Prod.ext ?_ h
  rw [hw.sockets e he, hw.sockets e' he', h]

/-! ### What a sweep does -/

/-- A session after the sweep. -/
def sweptSession (now : Int) (trylock : Bool × Bool) (c : ClientSession) : ClientSession :=
  let r := isExpiredClient now trylock c
  { r.2 with destroyed := r.2.destroyed || r.1 }

/-- The sweep keeps the entry. -/
def sweepKeeps (w : Clients) (now : Int) (trylock : ClientId → Bool × Bool) (e : ℕ × ClientId) :
    Bool :=
  !(isExpiredClient now (trylock e.2) (w.heap e.2)).1

/-- The sweep of `w` has led to `w'`, with some entries behind it and some to come. -/
structure Swept (w : Clients) (now : Int) (trylock : ClientId → Bool × Bool)
    (done todo : List (ℕ × ClientId)) (w' : Clients) : Prop where
  connHash : w'.connHash = done.filter (w.sweepKeeps now trylock) ++ todo
  behind : ∀ e ∈ done, w'.heap e.2 = sweptSession now (trylock e.2) (w.heap e.2)
  ahead : ∀ e ∈ todo, w'.heap e.2 = w.heap e.2

/-- One entry: its session is replaced, and the entry goes unless it is kept. -/
theorem Swept.killExpiredClient_eq (hw : Filed w) {done todo : List (ℕ × ClientId)}
    {e : ℕ × ClientId} (hl : w.connHash = done ++ e :: todo)
    (h : Swept w now trylock done (e :: todo) w') :
    (w'.killExpiredClient now trylock e).connHash =
        (done ++ [e]).filter (w.sweepKeeps now trylock) ++ todo ∧
      (w'.killExpiredClient now trylock e).heap =
        Function.update w'.heap e.2 (sweptSession now (trylock e.2) (w.heap e.2)) := by
  have hself : w'.heap e.2 = w.heap e.2 := h.ahead e List.mem_cons_self
  have hkeys : ∀ b ∈ done.filter (w.sweepKeeps now trylock), decide (b.1 = e.1) = false := by
    intro b hb
    have hnodup := hw.keys
    rw [hl, List.map_append, List.map_cons] at hnodup
    have hne := (List.nodup_append.1 hnodup).2.2 b.1
      (List.mem_map_of_mem (List.mem_of_mem_filter hb)) e.1 List.mem_cons_self
    exact decide_eq_false hne
  rw [Clients.killExpiredClient, hself, List.filter_append]
  dsimp only
  cases hexp : (isExpiredClient now (trylock e.2) (w.heap e.2)).1 with
  | false =>
    have hkeep : w.sweepKeeps now trylock e = true := by rw [sweepKeeps, hexp]; rfl
    rw [if_neg Bool.false_ne_true, List.filter_cons_of_pos hkeep, List.filter_nil,
      List.append_assoc, sweptSession, hexp]
    refine ⟨h.connHash, ?_⟩
    simp only [modify, Bool.or_false]
  | true =>
    have hkeep : ¬w.sweepKeeps now trylock e = true := by
      rw [sweepKeeps, hexp]
      exact Bool.false_ne_true
    have hlookup : ∀ f, (w'.modify e.2 f).getClientDatasBySocket e.1 = some e.2 := by
      intro f
      have hnone : (done.filter (w.sweepKeeps now trylock)).find? (·.1 = e.1) = none :=
        List.find?_eq_none.2 fun b hb ↦ by
          rw [hkeys b hb]
          exact Bool.false_ne_true
      rw [getClientDatasBySocket, modify, h.connHash, List.find?_append, hnone, Option.none_or,
        List.find?_cons_of_pos (by exact decide_eq_true rfl)]
      rfl
    rw [if_pos rfl, removeConn, hlookup, List.filter_cons_of_neg hkeep, List.filter_nil,
      List.append_nil, sweptSession, hexp]
    refine ⟨?_, ?_⟩
    · simp only [modify]
      rw [h.connHash, eraseP_split hkeys (decide_eq_true rfl)]
    · simp only [logCleanSession, modify, Function.update_idem, Function.update_self, Bool.or_true]

/-- The step of a sweep. -/
theorem Swept.step (hw : Filed w) {done todo : List (ℕ × ClientId)} {e : ℕ × ClientId}
    (hl : w.connHash = done ++ e :: todo) (h : Swept w now trylock done (e :: todo) w') :
    Swept w now trylock (done ++ [e]) todo (w'.killExpiredClient now trylock e) := by
  obtain ⟨hconn, hheap⟩ := Swept.killExpiredClient_eq hw hl h
  have hmem : ∀ e' ∈ done ++ todo, e' ∈ w.connHash ∧ e' ≠ e := by
    have hnodup : w.connHash.Nodup :=
      List.Pairwise.of_map Prod.fst (fun _ _ hne heq ↦ hne (congrArg Prod.fst heq)) hw.keys
    rw [hl, List.perm_middle.nodup_iff, List.nodup_cons] at hnodup
    refine fun e' he' ↦ ⟨mem_of_split hl he', fun heq ↦ hnodup.1 (heq ▸ he')⟩
  have hother : ∀ e' ∈ done ++ todo,
      (w'.killExpiredClient now trylock e).heap e'.2 = w'.heap e'.2 := by
    intro e' he'
    obtain ⟨hin, hne⟩ := hmem e' he'
    rw [hheap, Function.update_of_ne]
    exact fun heq ↦ hne (hw.eq_of_session hin (by rw [hl]; simp) heq)
  refine ⟨hconn, fun e' he' ↦ ?_, fun e' he' ↦ ?_⟩
  · rcases List.mem_append.1 he' with he' | he'
    · rw [hother e' (List.mem_append_left _ he')]
      exact h.behind e' he'
    · rw [List.mem_singleton.1 he', hheap, Function.update_self]
  · rw [hother e' (List.mem_append_right _ he')]
    exact h.ahead e' (List.mem_cons_of_mem _ he')

/-- The sweep of what is to come. -/
theorem Swept.foldl (hw : Filed w) {done todo : List (ℕ × ClientId)}
    (hl : w.connHash = done ++ todo) (h : Swept w now trylock done todo w') :
    Swept w now trylock w.connHash []
      (todo.foldl (fun w e ↦ w.killExpiredClient now trylock e) w') := by
  induction todo generalizing done w' with
  | nil =>
    rw [List.append_nil] at hl
    rw [hl]
    exact h
  | cons e todo ih =>
    refine ih ?_ (h.step hw hl)
    rw [hl, List.append_assoc]
    rfl

/-- **A sweep is a filter.** -/
theorem Filed.swept (hw : Filed w) (now : Int) (trylock : ClientId → Bool × Bool) :
    Swept w now trylock w.connHash [] (w.killExpiredClientsSession now trylock) :=
  Swept.foldl hw (List.nil_append _).symm
    ⟨rfl, fun _ he ↦ absurd he List.not_mem_nil, fun _ _ ↦ rfl⟩

theorem Filed.mem_killExpiredClientsSession (hw : Filed w) (e : ℕ × ClientId) :
    e ∈ (w.killExpiredClientsSession now trylock).connHash ↔
      e ∈ w.connHash ∧ (isExpiredClient now (trylock e.2) (w.heap e.2)).1 = false := by
  rw [(hw.swept now trylock).connHash, List.append_nil, List.mem_filter, sweepKeeps,
    Bool.not_eq_true']

/-! ### Who has to go -/

/-- The client has been silent for too long. -/
def Silent (now : Int) (c : ClientSession) : Prop :=
  now - c.lastRequest > nuUserHelloInterval + nuUserHelloGracetime

instance (now : Int) (c : ClientSession) : Decidable (Silent now c) :=
  inferInstanceAs (Decidable (_ > _))

/-- The session has an end, which has passed. -/
def Ended (now : Int) (c : ClientSession) : Prop := c.expire ≠ -1 ∧ c.expire < now

instance (now : Int) (c : ClientSession) : Decidable (Ended now c) :=
  inferInstanceAs (Decidable (_ ∧ _))

/-- **A session that should not outlive a sweep.** -/
def Due (now : Int) (c : ClientSession) : Prop := Ended now c ∨ Silent now c

/-- Some try finds the `rw_lock` held. -/
def Held (trylock : Bool × Bool) : Prop := trylock.1 = false ∨ trylock.2 = false

/-- Some try finds it free. -/
def Free (trylock : Bool × Bool) : Prop := trylock.1 = true ∨ trylock.2 = true

/-- A session without an end is left alone. -/
theorem isExpiredClient_of_endless {c : ClientSession} (h : c.expire = -1) (now : Int)
    (trylock : Bool × Bool) : isExpiredClient now trylock c = (false, c) := if_pos h

theorem expireIf_fst_iff {p : Prop} [Decidable p] {trylock : Bool} {r : Bool × ClientSession} :
    (expireIf p trylock r).1 = true ↔ (p ∧ trylock = true) ∨ r.1 = true := by
  rw [expireIf]
  split
  · rename_i hp
    cases trylock with
    | false => simp
    | true => simp [hp]
  · rename_i hp
    simp [hp]

theorem expireIf_mark_iff {p : Prop} [Decidable p] {trylock : Bool} {r : Bool × ClientSession} :
    (expireIf p trylock r).2.pendingDisconnect = true ↔
      (p ∧ trylock = false) ∨ r.2.pendingDisconnect = true := by
  rw [expireIf]
  split
  · rename_i hp
    cases trylock with
    | false => simp [hp]
    | true => simp
  · rename_i hp
    simp [hp]

/-- A session is killed exactly if it has an end, and a test that it fails finds the lock free. -/
theorem isExpiredClient_fst_iff {c : ClientSession} {trylock : Bool × Bool} :
    (isExpiredClient now trylock c).1 = true ↔ c.expire ≠ -1 ∧
      ((Silent now c ∧ trylock.2 = true) ∨ (Ended now c ∧ trylock.1 = true)) := by
  by_cases hend : c.expire = -1
  · rw [isExpiredClient_of_endless hend]
    simp [hend]
  · rw [isExpiredClient, if_neg hend, expireIf_fst_iff, expireIf_fst_iff]
    simp [hend, Silent, Ended]

/-- A session that should go, and is not killed though it has an end, is marked. -/
theorem isExpiredClient_marks {c : ClientSession} {trylock : Bool × Bool} (hend : c.expire ≠ -1)
    (hdue : Due now c) (hkept : (isExpiredClient now trylock c).1 = false) :
    Held trylock ∧ (isExpiredClient now trylock c).2.pendingDisconnect = true := by
  have hfree : ¬((Silent now c ∧ trylock.2 = true) ∨ (Ended now c ∧ trylock.1 = true)) :=
    fun h ↦ by simp [isExpiredClient_fst_iff.2 ⟨hend, h⟩] at hkept
  rw [isExpiredClient, if_neg hend, expireIf_mark_iff, expireIf_mark_iff]
  rcases hdue with hended | hsilent
  · have hheld : trylock.1 = false :=
      Bool.eq_false_iff.2 fun h ↦ hfree (Or.inr ⟨hended, h⟩)
    exact ⟨Or.inl hheld, Or.inr (Or.inl ⟨hended.2, hheld⟩)⟩
  · have hheld : trylock.2 = false :=
      Bool.eq_false_iff.2 fun h ↦ hfree (Or.inl ⟨hsilent, h⟩)
    exact ⟨Or.inr hheld, Or.inl ⟨hsilent, hheld⟩⟩

/-! ### Refusing what a client sends -/

/-- `tls_user_check_activity`, with the `session_duration` of `nuauthconf`; `ret` is what its passes
of `user_check_and_decide` come to. -/
def tlsUserCheckActivity (sessionDuration now : Int) (c : ClientSession) (ret : NuError) :
    NuError :=
  if sessionDuration ≠ 0 ∧ c.expire < now then .error else ret

/-- The session is not refused for its end. -/
def Heard (sessionDuration now : Int) (c : ClientSession) : Prop :=
  ∀ ret, tlsUserCheckActivity sessionDuration now c ret = ret

theorem heard_iff {sessionDuration : Int} {c : ClientSession} :
    Heard sessionDuration now c ↔ sessionDuration = 0 ∨ now ≤ c.expire := by
  constructor
  · intro h
    by_contra hnot
    have hrefused : sessionDuration ≠ 0 ∧ c.expire < now := by omega
    have hok := h .ok
    rw [tlsUserCheckActivity, if_pos hrefused] at hok
    cases hok
  · intro h ret
    exact if_neg (by omega)

/-! ### The two together -/

/-- **What a sweep is for.** Who is still there does not have to go, or their lock was held, and
then they are marked if they have to; nobody else is removed; and who is there and has not ended is
heard. -/
structure Sweeps (sessionDuration now : Int) (trylock : ClientId → Bool × Bool)
    (w w' : Clients) : Prop where
  kept : ∀ e ∈ w'.connHash,
    (Held (trylock e.2) ∧ (Due now (w'.heap e.2) → (w'.heap e.2).pendingDisconnect = true)) ∨
      ¬Due now (w'.heap e.2)
  removed : ∀ e ∈ w.connHash, e ∉ w'.connHash → Due now (w.heap e.2) ∧ Free (trylock e.2)
  heard : ∀ e ∈ w'.connHash, ¬Ended now (w'.heap e.2) →
    Heard sessionDuration now (w'.heap e.2)

/-- What a session that is kept looks like: some try may have marked it. -/
theorem Filed.heap_killExpiredClientsSession (hw : Filed w) {e : ℕ × ClientId}
    (he : e ∈ (w.killExpiredClientsSession now trylock).connHash) :
    (w.killExpiredClientsSession now trylock).heap e.2 =
      (isExpiredClient now (trylock e.2) (w.heap e.2)).2 := by
  obtain ⟨he, hkept⟩ := (hw.mem_killExpiredClientsSession e).1 he
  rw [(hw.swept now trylock).behind e he, sweptSession, hkept]
  simp only [Bool.or_false]

theorem Filed.markedFrom_killExpiredClientsSession (hw : Filed w) {e : ℕ × ClientId}
    (he : e ∈ (w.killExpiredClientsSession now trylock).connHash) :
    MarkedFrom (w.heap e.2) ((w.killExpiredClientsSession now trylock).heap e.2) := by
  rw [hw.heap_killExpiredClientsSession he]
  exact markedFrom_isExpiredClient now _ _

/-- The mark does not decide who has to go, or is heard. -/
theorem MarkedFrom.due_iff {c c' : ClientSession} (h : MarkedFrom c c') :
    Due now c' ↔ Due now c := by
  obtain ⟨b, -, rfl⟩ := h
  rfl

theorem MarkedFrom.ended_iff {c c' : ClientSession} (h : MarkedFrom c c') :
    Ended now c' ↔ Ended now c := by
  obtain ⟨b, -, rfl⟩ := h
  rfl

theorem MarkedFrom.expire_eq {c c' : ClientSession} (h : MarkedFrom c c') :
    c'.expire = c.expire := by
  obtain ⟨b, -, rfl⟩ := h
  rfl

/-- A session without an end is kept, as it is. -/
theorem Filed.kept_of_endless (hw : Filed w) {e : ℕ × ClientId} (he : e ∈ w.connHash)
    (hend : (w.heap e.2).expire = -1) (now : Int) (trylock : ClientId → Bool × Bool) :
    e ∈ (w.killExpiredClientsSession now trylock).connHash ∧
      (w.killExpiredClientsSession now trylock).heap e.2 = w.heap e.2 := by
  have hlive := isExpiredClient_of_endless hend now (trylock e.2)
  have hkept : e ∈ (w.killExpiredClientsSession now trylock).connHash :=
    (hw.mem_killExpiredClientsSession e).2 ⟨he, by rw [hlive]⟩
  exact ⟨hkept, by rw [hw.heap_killExpiredClientsSession hkept, hlive]⟩

/-- The sessions without an end are not silent, unless they are marked already and their lock is
held, and a session may be without an end. -/
def EndlessFine (sessionDuration now : Int) (trylock : ClientId → Bool × Bool) (w : Clients) :
    Prop :=
  ∀ e ∈ w.connHash, (w.heap e.2).expire = -1 →
    (Silent now (w.heap e.2) → Held (trylock e.2) ∧ (w.heap e.2).pendingDisconnect = true) ∧
      (sessionDuration = 0 ∨ now ≤ -1)

theorem Filed.sweeps_of_endlessFine (hw : Filed w) {sessionDuration : Int}
    (h : EndlessFine sessionDuration now trylock w) :
    Sweeps sessionDuration now trylock w (w.killExpiredClientsSession now trylock) := by
  refine ⟨fun e he ↦ ?_, fun e he hgone ↦ ?_, fun e he hended ↦ ?_⟩
  · obtain ⟨hmem, hkept⟩ := (hw.mem_killExpiredClientsSession e).1 he
    have hmark := hw.markedFrom_killExpiredClientsSession he
    by_cases hdue : Due now (w.heap e.2)
    · left
      by_cases hend : (w.heap e.2).expire = -1
      · have hsilent : Silent now (w.heap e.2) := hdue.resolve_left fun hended ↦ hended.1 hend
        obtain ⟨hheld, hmarked⟩ := (h e hmem hend).1 hsilent
        rw [(hw.kept_of_endless hmem hend now trylock).2]
        exact ⟨hheld, fun _ ↦ hmarked⟩
      · obtain ⟨hheld, hmarked⟩ := isExpiredClient_marks hend hdue hkept
        rw [hw.heap_killExpiredClientsSession he]
        exact ⟨hheld, fun _ ↦ hmarked⟩
    · right
      rw [hmark.due_iff]
      exact hdue
  · have hkilled : (isExpiredClient now (trylock e.2) (w.heap e.2)).1 = true := by
      rw [← Bool.not_eq_false]
      exact fun hkept ↦ hgone ((hw.mem_killExpiredClientsSession e).2 ⟨he, hkept⟩)
    rcases (isExpiredClient_fst_iff.1 hkilled).2 with ⟨hsilent, hfree⟩ | ⟨hended, hfree⟩
    · exact ⟨Or.inr hsilent, Or.inr hfree⟩
    · exact ⟨Or.inl hended, Or.inl hfree⟩
  · have hmem := ((hw.mem_killExpiredClientsSession e).1 he).1
    have hmark := hw.markedFrom_killExpiredClientsSession he
    rw [hmark.ended_iff] at hended
    rw [heard_iff, hmark.expire_eq]
    by_cases hend : (w.heap e.2).expire = -1
    · rw [hend]
      exact (h e hmem hend).2
    · exact Or.inr (Int.not_lt.1 fun hlt ↦ hended ⟨hend, hlt⟩)

theorem Filed.endlessFine_of_sweeps (hw : Filed w) {sessionDuration : Int}
    (h : Sweeps sessionDuration now trylock w (w.killExpiredClientsSession now trylock)) :
    EndlessFine sessionDuration now trylock w := by
  intro e he hend
  obtain ⟨hkept, hsame⟩ := hw.kept_of_endless he hend now trylock
  refine ⟨fun hsilent ↦ ?_, ?_⟩
  · rcases h.kept e hkept with ⟨hheld, hmarked⟩ | hlive
    · rw [hsame] at hmarked
      exact ⟨hheld, hmarked (Or.inr hsilent)⟩
    · rw [hsame] at hlive
      exact absurd (Or.inr hsilent) hlive
  · have hheard := h.heard e hkept
    rw [hsame] at hheard
    have hiff := heard_iff.1 (hheard fun hended ↦ hended.1 hend)
    rwa [hend] at hiff

/-- **A sweep does what it is for exactly if no session without an end is silent or refused.** -/
theorem sweeps_iff (hw : Filed w) (sessionDuration now : Int)
    (trylock : ClientId → Bool × Bool) :
    Sweeps sessionDuration now trylock w (w.killExpiredClientsSession now trylock) ↔
      EndlessFine sessionDuration now trylock w :=
  ⟨hw.endlessFine_of_sweeps, hw.sweeps_of_endlessFine⟩

/-- A session without an end at socket 5, from which nothing has come since 0. -/
def silentClient : ClientSession where
  addr := clientAddr
  socket := 5
  userName := []
  protoVersion := 0
  expire := -1
  lastRequest := 0
  workunitsQueue := []
  activated := true
  pendingDisconnect := false
  destroyed := false

/-- It is the only one. -/
def silentClients : Clients := ⟨fun _ ↦ silentClient, [(5, 0)], fun _ ↦ none⟩

theorem filed_silentClients : Filed silentClients where
  keys := List.pairwise_singleton _ _
  sockets e he := by
    rw [List.mem_singleton.1 he]
    rfl

/-- Half a minute later there is nothing to do. -/
theorem silentClients_swept :
    Filed silentClients ∧
      Sweeps 0 30 (fun _ ↦ (true, true)) silentClients
        (silentClients.killExpiredClientsSession 30 fun _ ↦ (true, true)) := by
  refine ⟨filed_silentClients, (sweeps_iff filed_silentClients 0 30 _).2 fun e he hend ↦ ?_⟩
  refine ⟨fun hsilent ↦ ?_, Or.inl rfl⟩
  rw [List.mem_singleton.1 he] at hsilent
  have hnot : ¬Silent 30 silentClient := by decide
  exact absurd hsilent hnot

/-- After an hour it is still there, with its lock free; and with a `session_duration` it is refused
as soon as it speaks. -/
theorem silentClients_not_swept :
    Filed silentClients ∧
      ¬Sweeps 0 3600 (fun _ ↦ (true, true)) silentClients
        (silentClients.killExpiredClientsSession 3600 fun _ ↦ (true, true)) ∧
      ¬Sweeps 60 30 (fun _ ↦ (true, true)) silentClients
        (silentClients.killExpiredClientsSession 30 fun _ ↦ (true, true)) := by
  refine ⟨filed_silentClients, fun h ↦ ?_, fun h ↦ ?_⟩
  · have hfine := filed_silentClients.endlessFine_of_sweeps h
    have hsilent : Silent 3600 silentClient := by decide
    obtain ⟨-, hmarked⟩ := (hfine (5, 0) List.mem_cons_self rfl).1 hsilent
    exact absurd hmarked Bool.false_ne_true
  · have hfine := filed_silentClients.endlessFine_of_sweeps h
    have hheard := (hfine (5, 0) List.mem_cons_self rfl).2
    omega

end Clients

end Nufw
