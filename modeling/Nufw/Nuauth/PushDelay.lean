import Nufw.Nuauth.ClientMngr

/-!
# The delay between two pushes

`warn_clients` of `client_mngr.c` asks the clients at an address to send their connections. A call
without a check and without data is dropped if the one before it is too recent: the entry of the
address has in `last_message` when the clients were last asked, and `timeval_substract` of
`auth_common.c` compares.

The subtraction carries by rewriting its second argument, which is the stored `last_message`. What
it stands for does not change (`micros_timevalSubstract`), but from then on it need not be
normalised: its microseconds may be negative. This is harmless because the clock has moved on by
then (`Tracks`), and the limit is exact over all runs (`delayed_iff`).
-/

namespace Nufw

/-- `struct timeval`. -/
structure Timeval where
  sec : Int
  usec : Int
  deriving DecidableEq

namespace Timeval

/-- The time in microseconds. -/
def micros (t : Timeval) : Int := t.sec * 1000000 + t.usec

/-- A time as `gettimeofday` has it. -/
structure Normalised (t : Timeval) : Prop where
  sec : 0 ≤ t.sec
  usec : 0 ≤ t.usec
  lt : t.usec < 1000000

end Timeval

/-- What `timeval_substract` leaves behind. -/
structure TimevalSubstract where
  result : Timeval
  y : Timeval
  negative : Bool

/-- The first carry: `y` has more microseconds than `x`. -/
def carryDown (x y : Timeval) : Timeval :=
  if x.usec < y.usec then
    let nsec := (y.usec - x.usec).tdiv 1000000 + 1
    ⟨y.sec + nsec, y.usec - 1000000 * nsec⟩
  else y

/-- The second carry: `x` has more than a second more of them. -/
def carryUp (x y : Timeval) : Timeval :=
  if x.usec - y.usec > 1000000 then
    let nsec := (x.usec - y.usec).tdiv 1000000
    ⟨y.sec - nsec, y.usec + 1000000 * nsec⟩
  else y

/-- `timeval_substract`. -/
def timevalSubstract (x y : Timeval) : TimevalSubstract :=
  let y := carryUp x (carryDown x y)
  { result := ⟨x.sec - y.sec, x.usec - y.usec⟩
    y := y
    negative := x.sec < y.sec }

/-! ### What a carry does -/

theorem micros_carryDown (x y : Timeval) : (carryDown x y).micros = y.micros := by
  rw [carryDown]
  split
  · simp only [Timeval.micros]
    omega
  · rfl

theorem micros_carryUp (x y : Timeval) : (carryUp x y).micros = y.micros := by
  rw [carryUp]
  split
  · simp only [Timeval.micros]
    omega
  · rfl

/-- **The rewriting does not change the time that is stored.** -/
theorem micros_timevalSubstract (x y : Timeval) : (timevalSubstract x y).y.micros = y.micros :=
  (micros_carryUp x _).trans (micros_carryDown x y)

theorem micros_result (x y : Timeval) :
    (timevalSubstract x y).result.micros = x.micros - y.micros := by
  have hy := micros_timevalSubstract x y
  rw [Timeval.micros, timevalSubstract] at hy ⊢
  simp only [Timeval.micros] at hy ⊢
  omega

theorem carryDown_usec_le (x y : Timeval) : (carryDown x y).usec ≤ x.usec := by
  rw [carryDown]
  split
  · rename_i h
    have hdiv := Int.tdiv_eq_ediv_of_nonneg (b := 1000000) (show 0 ≤ y.usec - x.usec by omega)
    simp only [hdiv]
    omega
  · omega

/-- The difference of the microseconds is at most a second. -/
theorem result_usec_bounds (x y : Timeval) :
    0 ≤ (timevalSubstract x y).result.usec ∧ (timevalSubstract x y).result.usec ≤ 1000000 := by
  have hle := carryDown_usec_le x y
  simp only [timevalSubstract]
  rw [carryUp]
  split
  · have hdiv := Int.tdiv_eq_ediv_of_nonneg (b := 1000000)
      (show 0 ≤ x.usec - (carryDown x y).usec by omega)
    simp only [hdiv]
    omega
  · omega

/-- It is a full second only if nothing had to be carried, and `y` was not normalised. -/
theorem usec_neg_of_full {x y : Timeval} (hx : x.Normalised) (hy : y.usec < 1000000)
    (h : (timevalSubstract x y).result.usec = 1000000) : y.usec < 0 := by
  have hx0 := hx.usec
  have hx1 := hx.lt
  by_cases hcarry : x.usec < y.usec
  · exfalso
    have hdiv := Int.tdiv_eq_ediv_of_nonneg (b := 1000000) (show 0 ≤ y.usec - x.usec by omega)
    have hdown : (carryDown x y).usec = y.usec - 1000000 := by
      rw [carryDown, if_pos hcarry]
      simp only [hdiv]
      omega
    simp only [timevalSubstract] at h
    rw [carryUp, hdown, if_neg (by omega), hdown] at h
    omega
  · have hdown : carryDown x y = y := if_neg hcarry
    simp only [timevalSubstract, hdown] at h
    rw [carryUp] at h
    split at h
    · rename_i hgt
      have hdiv := Int.tdiv_eq_ediv_of_nonneg (b := 1000000) (show 0 ≤ x.usec - y.usec by omega)
      simp only [hdiv] at h
      omega
    · omega

/-! ### The calls -/

/-- `ip_sessions_t`, with the time of the last message. -/
structure IpEntry extends IpSessions where
  lastMessage : Timeval

/-- `client_ip_hash`. -/
abbrev IpHash := In6Addr → Option IpEntry

/-- A call of `warn_clients`, with the time that `gettimeofday` tells. -/
structure WarnCall where
  addr : In6Addr
  scheck : Option (ClientId → Bool)
  /-- Whether `data` is given. -/
  data : Bool
  timestamp : Timeval

/-- What a call comes to. -/
inductive WarnResult where
  /-- Nobody is at the address, and zero is returned. -/
  | notFound
  /-- The call is dropped, though one is returned. -/
  | delayed
  /-- The sessions that are told. -/
  | queued (sessions : List ClientId)
  deriving DecidableEq

/-- The call enters the code for the delay, if the clients are recent enough. -/
def WarnCall.limited (c : WarnCall) : Bool := !(c.data || c.scheck.isSome)

/-- The sessions that are told. -/
def WarnCall.select (c : WarnCall) (sessions : List ClientId) : List ClientId :=
  match c.scheck with
  | none => sessions
  | some scheck => sessions.filter scheck

/-- The test of the delay. -/
def tooRecent (pushDelay : ℕ) (interval : Timeval) : Bool :=
  interval.sec = 0 ∧ (interval.usec % 2 ^ 32).toNat < pushDelay

/-- `warn_clients`, for an address with clients. -/
def warnEntry (pushDelay : ℕ) (c : WarnCall) (ipsessions : IpEntry) : WarnResult × IpEntry :=
  if c.limited ∧ protoVersionV22_1 ≤ ipsessions.protoVersion then
    let r := timevalSubstract c.timestamp ipsessions.lastMessage
    if tooRecent pushDelay r.result then (.delayed, { ipsessions with lastMessage := r.y })
    else (.queued (c.select ipsessions.sessions), { ipsessions with lastMessage := c.timestamp })
  else (.queued (c.select ipsessions.sessions), ipsessions)

/-- `warn_clients`. -/
def warnClients (pushDelay : ℕ) (c : WarnCall) (w : IpHash) : WarnResult × IpHash :=
  match w c.addr with
  | none => (.notFound, w)
  | some ipsessions =>
    let r := warnEntry pushDelay c ipsessions
    (r.1, Function.update w c.addr (some r.2))

/-- A sequence of calls, and what each of them comes to. -/
def warnRun (pushDelay : ℕ) : List WarnCall → IpHash → List (WarnCall × WarnResult) × IpHash
  | [], w => ([], w)
  | c :: calls, w =>
    let r := warnClients pushDelay c w
    let rest := warnRun pushDelay calls r.2
    ((c, r.1) :: rest.1, rest.2)

/-- The call is one of those that are limited at the address. -/
def WarnCall.limitedAt (a : In6Addr) (c : WarnCall) : Bool := c.addr = a ∧ c.limited = true

/-- The time of the last limited call at the address that was not dropped, from the time that is
stored before the first one. -/
def lastQueued (a : In6Addr) (stored : Timeval) (past : List (WarnCall × WarnResult)) : Timeval :=
  past.foldl (fun last r ↦
    if r.1.limitedAt a = true ∧ r.2 ≠ .delayed then r.1.timestamp else last) stored

/-- The times of the limited calls at the address. -/
def limitedTimes (a : In6Addr) (calls : List WarnCall) : List Timeval :=
  (calls.filter (WarnCall.limitedAt a)).map WarnCall.timestamp

/-! ### The invariant -/

/-- What `last_message` has after a call at `prev`, if a call was last let through at `last`. It
stands for this time, and has lost its normal form only to a later call. -/
structure Tracks (last prev stored : Timeval) : Prop where
  micros : stored.micros = last.micros
  le : last.micros ≤ prev.micros
  usec : stored.usec < 1000000
  carried : stored.usec < 0 → last.micros < prev.micros

theorem Tracks.of_normalised {t : Timeval} (h : t.Normalised) : Tracks t t t where
  micros := rfl
  le := le_rfl
  usec := h.lt
  carried hneg := absurd h.usec (not_le.2 hneg)

/-- **The test is about the time that has passed.** -/
theorem Tracks.tooRecent_iff {pushDelay : ℕ} (hdelay : pushDelay ≤ 1000000)
    {last prev stored t : Timeval} (h : Tracks last prev stored) (ht : t.Normalised)
    (hle : prev.micros ≤ t.micros) :
    tooRecent pushDelay (timevalSubstract t stored).result = true ↔
      t.micros - last.micros < pushDelay := by
  have hmicros := micros_result t stored
  rw [h.micros] at hmicros
  obtain ⟨hlow, hhigh⟩ := result_usec_bounds t stored
  have hfull := usec_neg_of_full ht h.usec
  have hcarried := h.carried
  have hpast := h.le
  generalize (timevalSubstract t stored).result = result at *
  have hunsigned : result.usec % 2 ^ 32 = result.usec := Int.emod_eq_of_lt hlow (by omega)
  rw [tooRecent, decide_eq_true_iff, hunsigned]
  rw [Timeval.micros] at hmicros
  constructor
  · rintro ⟨hsec, husec⟩
    omega
  · intro hlt
    -- a full second in the microseconds would mean that no time at all has passed
    have hsec : result.sec = 0 := by
      by_contra hne
      have hone : result.usec = 1000000 := by omega
      have := hcarried (hfull hone)
      omega
    omega

/-- What a call that is dropped leaves. -/
theorem Tracks.dropped {last prev stored t : Timeval} (h : Tracks last prev stored)
    (ht : t.Normalised) (hle : prev.micros ≤ t.micros) :
    Tracks last t (timevalSubstract t stored).y := by
  have husec : (timevalSubstract t stored).result.usec =
      t.usec - (timevalSubstract t stored).y.usec := rfl
  obtain ⟨hlow, hhigh⟩ := result_usec_bounds t stored
  have hmicros := micros_result t stored
  have hfull := usec_neg_of_full ht h.usec
  have hlt := ht.lt
  have h0 := ht.usec
  refine ⟨(micros_timevalSubstract t stored).trans h.micros, h.le.trans hle, by omega,
    fun hneg ↦ ?_⟩
  by_contra hnot
  have hsame : (timevalSubstract t stored).result.micros = 0 := by
    have hpast := h.le
    have hvalue := h.micros
    omega
  rw [Timeval.micros] at hsame
  have hone : (timevalSubstract t stored).result.usec = 1000000 := by omega
  have hbefore := h.carried (hfull hone)
  omega

/-- A limited call, and what it leaves. -/
theorem Tracks.warnEntry {pushDelay : ℕ} (hdelay : pushDelay ≤ 1000000) {last prev : Timeval}
    {ipsessions : IpEntry} (h : Tracks last prev ipsessions.lastMessage)
    (hrecent : protoVersionV22_1 ≤ ipsessions.protoVersion) {c : WarnCall}
    (hc : c.limited = true) (ht : c.timestamp.Normalised)
    (hle : prev.micros ≤ c.timestamp.micros) :
    ((warnEntry pushDelay c ipsessions).1 = .delayed ↔
        c.timestamp.micros - last.micros < pushDelay) ∧
      Tracks (if (warnEntry pushDelay c ipsessions).1 ≠ .delayed then c.timestamp else last)
        c.timestamp (warnEntry pushDelay c ipsessions).2.lastMessage ∧
      (warnEntry pushDelay c ipsessions).2.toIpSessions = ipsessions.toIpSessions := by
  have htest := h.tooRecent_iff hdelay ht hle
  rw [Nufw.warnEntry, if_pos ⟨hc, hrecent⟩]
  dsimp only
  by_cases hrecentCall :
      tooRecent pushDelay (timevalSubstract c.timestamp ipsessions.lastMessage).result = true
  · rw [if_pos hrecentCall]
    refine ⟨⟨fun _ ↦ htest.1 hrecentCall, fun _ ↦ rfl⟩, ?_, rfl⟩
    rw [if_neg (not_not_intro rfl)]
    exact h.dropped ht hle
  · rw [if_neg hrecentCall]
    refine ⟨⟨fun hdelayed ↦ ?_, fun hlt ↦ absurd (htest.2 hlt) hrecentCall⟩, ?_, rfl⟩
    · cases hdelayed
    · rw [if_pos fun hdelayed ↦ by cases hdelayed]
      exact .of_normalised ht

/-! ### Other calls -/

theorem warnEntry_of_not_limited (pushDelay : ℕ) {c : WarnCall} (hc : c.limited = false)
    (ipsessions : IpEntry) : (warnEntry pushDelay c ipsessions).2 = ipsessions := by
  rw [warnEntry, if_neg fun h ↦ by rw [hc] at h; exact Bool.false_ne_true h.1]

/-- A call that is not a limited one at the address leaves its entry alone. -/
theorem warnClients_of_not_limitedAt (pushDelay : ℕ) {a : In6Addr} {c : WarnCall}
    (hc : ¬c.limitedAt a = true) (w : IpHash) : (warnClients pushDelay c w).2 a = w a := by
  rw [warnClients]
  by_cases haddr : c.addr = a
  · have hlimited : c.limited = false := by
      rw [← Bool.not_eq_true]
      exact fun h ↦ hc (decide_eq_true ⟨haddr, h⟩)
    cases hentry : w c.addr with
    | none => rfl
    | some ipsessions =>
      dsimp only
      rw [warnEntry_of_not_limited pushDelay hlimited, ← haddr, Function.update_self, hentry]
  · cases hentry : w c.addr with
    | none => rfl
    | some ipsessions => exact Function.update_of_ne (Ne.symm haddr) _ _

theorem warnClients_of_limitedAt (pushDelay : ℕ) {a : In6Addr} {c : WarnCall}
    (hc : c.limitedAt a = true) {w : IpHash} {ipsessions : IpEntry}
    (hentry : w a = some ipsessions) :
    (warnClients pushDelay c w).1 = (warnEntry pushDelay c ipsessions).1 ∧
      (warnClients pushDelay c w).2 a = some (warnEntry pushDelay c ipsessions).2 := by
  obtain ⟨rfl, -⟩ := of_decide_eq_true hc
  rw [warnClients, hentry]
  exact ⟨rfl, Function.update_self _ _ _⟩

/-! ### Runs -/

/-- After any calls the entry is there, and tracks the last call that was let through. -/
theorem Tracks.warnRun {pushDelay : ℕ} (hdelay : pushDelay ≤ 1000000) {a : In6Addr}
    {last prev : Timeval} {calls : List WarnCall} {w : IpHash} {ipsessions : IpEntry}
    (hentry : w a = some ipsessions) (h : Tracks last prev ipsessions.lastMessage)
    (hrecent : protoVersionV22_1 ≤ ipsessions.protoVersion)
    (hnorm : ∀ t ∈ limitedTimes a calls, t.Normalised)
    (htimes : (prev :: limitedTimes a calls).Pairwise fun t t' ↦ t.micros ≤ t'.micros) :
    ∃ ipsessions', (Nufw.warnRun pushDelay calls w).2 a = some ipsessions' ∧
      Tracks (lastQueued a last (Nufw.warnRun pushDelay calls w).1)
        ((limitedTimes a calls).getLast?.getD prev) ipsessions'.lastMessage ∧
      ipsessions'.toIpSessions = ipsessions.toIpSessions := by
  induction calls generalizing last prev w ipsessions with
  | nil => exact ⟨ipsessions, hentry, h, rfl⟩
  | cons c calls ih =>
    rw [Nufw.warnRun]
    dsimp only
    rw [lastQueued, List.foldl_cons, ← lastQueued]
    by_cases hc : c.limitedAt a = true
    · have hsplit : limitedTimes a (c :: calls) = c.timestamp :: limitedTimes a calls := by
        rw [limitedTimes, List.filter_cons_of_pos hc, List.map_cons, ← limitedTimes]
      rw [hsplit] at hnorm htimes ⊢
      obtain ⟨hnormc, hnorm⟩ := List.forall_mem_cons.1 hnorm
      obtain ⟨hfirst, htimes⟩ := List.pairwise_cons.1 htimes
      obtain ⟨hresult, hafter⟩ := warnClients_of_limitedAt pushDelay hc hentry
      obtain ⟨-, htracks, hsame⟩ := h.warnEntry hdelay hrecent (of_decide_eq_true hc).2 hnormc
        (hfirst _ List.mem_cons_self)
      obtain ⟨ipsessions', hthere, htracks', hsame'⟩ :=
        ih hafter htracks (by rw [hsame]; exact hrecent) hnorm htimes
      have hlast : (if c.limitedAt a = true ∧ (warnClients pushDelay c w).1 ≠ .delayed then
          c.timestamp else last) =
            if (Nufw.warnEntry pushDelay c ipsessions).1 ≠ .delayed then c.timestamp else last := by
        rw [hresult]
        simp only [hc, true_and]
      refine ⟨ipsessions', hthere, ?_, hsame'.trans hsame⟩
      rw [hlast, List.getLast?_cons, Option.getD_some]
      exact htracks'
    · have hsplit : limitedTimes a (c :: calls) = limitedTimes a calls := by
        rw [limitedTimes, List.filter_cons_of_neg hc, ← limitedTimes]
      rw [hsplit] at hnorm htimes ⊢
      rw [if_neg fun h ↦ hc h.1]
      refine ih ?_ h hrecent hnorm htimes
      rw [warnClients_of_not_limitedAt pushDelay hc, hentry]

/-- **The limit is exact.** Whatever calls there have been, a limited call is dropped if and only if
less than `push_delay` has passed since the last one at the address that was not. Before the first
one this is the time that the entry comes with. -/
theorem delayed_iff {pushDelay : ℕ} (hdelay : pushDelay ≤ 1000000) {a : In6Addr} {w : IpHash}
    {ipsessions : IpEntry} (hentry : w a = some ipsessions)
    (hrecent : protoVersionV22_1 ≤ ipsessions.protoVersion)
    (hstored : ipsessions.lastMessage.Normalised) {past : List WarnCall} {c : WarnCall}
    (hc : c.limitedAt a = true) (hnorm : ∀ t ∈ limitedTimes a (past ++ [c]), t.Normalised)
    (htimes : (ipsessions.lastMessage :: limitedTimes a (past ++ [c])).Pairwise
      fun t t' ↦ t.micros ≤ t'.micros) :
    (warnClients pushDelay c (warnRun pushDelay past w).2).1 = .delayed ↔
      c.timestamp.micros -
        (lastQueued a ipsessions.lastMessage (warnRun pushDelay past w).1).micros < pushDelay := by
  have hsplit : limitedTimes a (past ++ [c]) = limitedTimes a past ++ [c.timestamp] := by
    rw [limitedTimes, List.filter_append, List.map_append, List.filter_cons_of_pos hc]
    rfl
  rw [hsplit] at hnorm htimes
  rw [← List.cons_append, List.pairwise_append] at htimes
  obtain ⟨htimes, -, hbefore⟩ := htimes
  obtain ⟨ipsessions', hthere, htracks, hsame⟩ :=
    (Tracks.of_normalised hstored).warnRun hdelay hentry hrecent
      (fun t ht ↦ hnorm t (List.mem_append_left _ ht)) htimes
  have hlast : (limitedTimes a past).getLast?.getD ipsessions.lastMessage ∈
      ipsessions.lastMessage :: limitedTimes a past := by
    cases hget : (limitedTimes a past).getLast? with
    | none => exact List.mem_cons_self
    | some t => exact List.mem_cons_of_mem _ (List.mem_of_getLast? hget)
  rw [(warnClients_of_limitedAt pushDelay hc hthere).1]
  exact (htracks.warnEntry hdelay (by rw [hsame]; exact hrecent) (of_decide_eq_true hc).2
    (hnorm _ (List.mem_append_right _ List.mem_cons_self))
    (hbefore _ hlast _ List.mem_cons_self)).1

/-- The entry that `add_client` makes for the first session at an address. -/
def newIpEntry (s : ClientId) (protoVersion : ℕ) : IpEntry where
  sessions := [s]
  protoVersion := protoVersion
  lastMessage := ⟨0, 0⟩

/-- A call at the address of the client. -/
def warnClient (sec usec : Int) : WarnCall := ⟨clientAddr, none, false, ⟨sec, usec⟩⟩

/-- Three calls within a second: the second one is dropped and rewrites what is stored, and the
third one is compared with the first. -/
theorem third_call_delayed_iff :
    (warnClients 150000 (warnClient 100 50000)
        (warnRun 150000 [warnClient 99 900000, warnClient 100 10000]
          fun _ ↦ some (newIpEntry 0 protoVersionV24)).2).1 = .delayed ↔
      (100050000 : Int) -
        (lastQueued clientAddr ⟨0, 0⟩ (warnRun 150000 [warnClient 99 900000, warnClient 100 10000]
          fun _ ↦ some (newIpEntry 0 protoVersionV24)).1).micros < 150000 := by
  have hnorm : ∀ t ∈ limitedTimes clientAddr ([warnClient 99 900000, warnClient 100 10000] ++
      [warnClient 100 50000]), t.Normalised := by
    intro t ht
    have hcases : t = ⟨99, 900000⟩ ∨ t = ⟨100, 10000⟩ ∨ t = ⟨100, 50000⟩ := by
      simpa [limitedTimes, WarnCall.limitedAt, WarnCall.limited, warnClient] using ht
    rcases hcases with rfl | rfl | rfl <;> exact ⟨by decide, by decide, by decide⟩
  exact delayed_iff (w := fun _ ↦ some (newIpEntry 0 protoVersionV24)) (by decide) rfl (by decide)
    ⟨by decide, by decide, by decide⟩ (by decide) hnorm (by decide)

end Nufw
