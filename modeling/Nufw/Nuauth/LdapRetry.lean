import Nufw.Lib.WhileLoop

/-!
# The query loop of the LDAP module

`acl_check` of `ldap.c` sends its query in a loop, for which `LDAP_MAX_TRY` is two: if the server is
down the connection is given up, and made again in the next turn. What the server and the library
answer is a sequence of results of `ldap_search_ext_s` and one of `ldap_conn_init`.

The loop goes on if the query has failed *or* there are tries left. So it goes on after a first
success; it does not count a server that stays down, with which it need not end; and an error that
breaks out of the first turn is taken for a success by the test behind the loop, which looks at the
last try only. What is left is a server that is down at first and comes back, or cannot be reached
any more (`boundedRetry_iff`).
-/

namespace Nufw

/-- `LDAP_MAX_TRY`. -/
def ldapMaxTry : ℕ := 2

/-- What `ldap_search_ext_s` returns. -/
inductive LdapResult where
  | success
  | serverDown
  /-- Another error. -/
  | other (code : Int)
  deriving DecidableEq

/-- How the code around the loop goes on. -/
inductive LdapExit where
  /-- "Can not initiate LDAP conn". -/
  | noConnection
  /-- "invalid return from ldap_search_st". -/
  | failed
  /-- The entries of `res` are counted. -/
  | reads
  deriving DecidableEq

/-- What has come of the loop: the results of its searches, in order. -/
structure LdapOutcome where
  searches : List LdapResult
  exit : LdapExit
  deriving DecidableEq

/-- The variables of the loop. -/
structure LdapLoop where
  tries : ℕ
  /-- `ld` is not `NULL`. -/
  connected : Bool
  /-- How often `ldap_conn_init` has been called. -/
  inits : ℕ
  searches : List LdapResult

/-- The test behind the loop. -/
def ldapExit (tries : ℕ) (err : LdapResult) : LdapExit :=
  if tries = ldapMaxTry ∧ err ≠ .success then .failed else .reads

namespace LdapLoop

variable (init : ℕ → Bool) (search : ℕ → LdapResult)

/-- The search of a turn, and what follows it. -/
def query (s : LdapLoop) : LdapLoop ⊕ LdapOutcome :=
  let err := search s.searches.length
  let s := { s with searches := s.searches ++ [err], connected := err ≠ .serverDown }
  if err ≠ .success ∧ err ≠ .serverDown then .inr ⟨s.searches, ldapExit s.tries err⟩
  else if err ≠ .success ∨ s.tries < ldapMaxTry then .inl s
  else .inr ⟨s.searches, ldapExit s.tries err⟩

/-- A turn of the loop. -/
def turn (s : LdapLoop) : LdapLoop ⊕ LdapOutcome :=
  let s := { s with tries := s.tries + 1 }
  if s.connected then query search s
  else if init s.inits then query search { s with inits := s.inits + 1, connected := true }
  else .inr ⟨s.searches, .noConnection⟩

/-- The loop at its start; `ld` may be there from an earlier call. -/
def start (connected : Bool) : LdapLoop := ⟨0, connected, 0, []⟩

/-- The searches of the loop and of its outcome. -/
def searchesOf : LdapLoop ⊕ LdapOutcome → List LdapResult
  | .inl s => s.searches
  | .inr r => r.searches

end LdapLoop

/-- **The loop is a bounded retry**: it ends, with at most `LDAP_MAX_TRY` searches and none after a
success, and `res` is read only after a success. -/
def BoundedRetry (connected : Bool) (init : ℕ → Bool) (search : ℕ → LdapResult) : Prop :=
  ∃ r, WhileLoop.Returns (LdapLoop.turn init search) (LdapLoop.start connected) r ∧
    r.searches.length ≤ ldapMaxTry ∧
    (∀ i, r.searches[i]? = some .success → i + 1 = r.searches.length) ∧
    (r.exit = .reads → r.searches.getLast? = some .success)

/-- The number of the call of `ldap_conn_init` that is the next one after the first search. -/
def secondInit (connected : Bool) : ℕ := if connected then 0 else 1

/-- There is no connection at all; or the server is down at first, and then it cannot be reached, or
answers the second search, or cannot be reached after it. -/
def RetryFine (connected : Bool) (init : ℕ → Bool) (search : ℕ → LdapResult) : Prop :=
  (connected = false ∧ init 0 = false) ∨
    search 0 = .serverDown ∧
      (init (secondInit connected) = false ∨ search 1 ≠ .serverDown ∨
        init (secondInit connected + 1) = false)

namespace LdapLoop

variable {init : ℕ → Bool} {search : ℕ → LdapResult} {s s' : LdapLoop} {r : LdapOutcome}

/-! ### One turn -/

theorem turn_of_connected (h : s.connected = true) :
    turn init search s = query search { s with tries := s.tries + 1 } := by
  rw [turn]
  exact if_pos h

theorem turn_of_init (h : s.connected = false) (hinit : init s.inits = true) :
    turn init search s =
      query search { s with tries := s.tries + 1, inits := s.inits + 1, connected := true } := by
  rw [turn]
  dsimp only
  rw [h, if_neg Bool.false_ne_true, if_pos hinit]

theorem turn_of_not_init (h : s.connected = false) (hinit : init s.inits = false) :
    turn init search s = .inr ⟨s.searches, .noConnection⟩ := by
  rw [turn]
  dsimp only
  rw [h, hinit, if_neg Bool.false_ne_true, if_neg Bool.false_ne_true]

/-- The server is down: the loop goes on, whatever the number of tries. -/
theorem query_of_serverDown (h : search s.searches.length = .serverDown) :
    query search s =
      .inl { s with searches := s.searches ++ [.serverDown], connected := false } := by
  rw [query]
  dsimp only
  rw [h]
  rfl

/-- The query succeeds: the loop goes on if there are tries left. -/
theorem query_of_success (h : search s.searches.length = .success) :
    query search s =
      if s.tries < ldapMaxTry then
        .inl { s with searches := s.searches ++ [.success], connected := true }
      else .inr ⟨s.searches ++ [.success], .reads⟩ := by
  rw [query]
  dsimp only
  rw [h]
  simp [ldapExit]

theorem query_of_other {code : Int} (h : search s.searches.length = .other code) :
    query search s = .inr ⟨s.searches ++ [.other code], ldapExit s.tries (.other code)⟩ := by
  rw [query]
  dsimp only
  rw [h]
  rfl

/-- A query is one more search. -/
theorem searchesOf_query (s : LdapLoop) :
    searchesOf (query search s) = s.searches ++ [search s.searches.length] := by
  cases h : search s.searches.length with
  | success =>
    rw [query_of_success h]
    split <;> rfl
  | serverDown => rw [query_of_serverDown h, searchesOf]
  | other code => rw [query_of_other h, searchesOf]

/-! ### Runs -/

/-- What has been searched for stays. -/
theorem prefix_searchesOf_turn (s : LdapLoop) :
    s.searches <+: searchesOf (turn init search s) := by
  cases hconn : s.connected with
  | true =>
    rw [turn_of_connected hconn, searchesOf_query]
    exact List.prefix_append _ _
  | false =>
    cases hinit : init s.inits with
    | true =>
      rw [turn_of_init hconn hinit, searchesOf_query]
      exact List.prefix_append _ _
    | false =>
      rw [turn_of_not_init hconn hinit]
      exact List.prefix_refl _

theorem prefix_of_returns (h : WhileLoop.Returns (turn init search) s r) :
    s.searches <+: r.searches := by
  obtain ⟨fuel, hrun⟩ := h
  induction fuel generalizing s with
  | zero => cases hrun
  | succ fuel ih =>
    have hturn := @prefix_searchesOf_turn init search s
    cases hstep : turn init search s with
    | inl s' =>
      rw [WhileLoop.run_of_inl hstep] at hrun
      rw [hstep] at hturn
      exact hturn.trans (ih hrun)
    | inr r' =>
      rw [WhileLoop.run_of_inr hstep] at hrun
      rw [hstep] at hturn
      obtain rfl := Option.some.inj hrun
      exact hturn

/-- A loop that has a connection, or gets one, searches at least once more. -/
theorem prefix_of_query (hturn : ∃ s', turn init search s = query search s' ∧
      s'.searches = s.searches)
    (h : WhileLoop.Returns (turn init search) s r) :
    s.searches ++ [search s.searches.length] <+: r.searches := by
  obtain ⟨s', hquery, hsearches⟩ := hturn
  have hnext := @searchesOf_query search s'
  rw [← hquery, hsearches] at hnext
  cases hstep : turn init search s with
  | inl t =>
    rw [hstep, searchesOf] at hnext
    rw [← hnext]
    exact prefix_of_returns ((WhileLoop.returns_iff_of_inl hstep).1 h)
  | inr r' =>
    rw [hstep, searchesOf] at hnext
    exact ⟨[], by rw [List.append_nil, ← hnext, (WhileLoop.returns_of_inr hstep).unique h]⟩

/-! ### The first turns -/

/-- The first turn, unless there is no connection. -/
theorem turn_start {connected : Bool} (h : ¬(connected = false ∧ init 0 = false)) :
    turn init search (start connected) =
      query search ⟨1, true, secondInit connected, []⟩ := by
  cases connected with
  | true => exact turn_of_connected rfl
  | false => exact turn_of_init rfl (Bool.of_not_eq_false fun hinit ↦ h ⟨rfl, hinit⟩)

/-- After a first search in which the server is down. -/
def afterDown (connected : Bool) : LdapLoop :=
  ⟨1, false, secondInit connected, [.serverDown]⟩

theorem returns_afterDown_iff {connected : Bool} (h : ¬(connected = false ∧ init 0 = false))
    (hdown : search 0 = .serverDown) :
    WhileLoop.Returns (turn init search) (start connected) r ↔
      WhileLoop.Returns (turn init search) (afterDown connected) r := by
  refine WhileLoop.returns_iff_of_inl ?_
  rw [turn_start h, query_of_serverDown hdown]
  rfl

/-- After two of them. -/
def afterTwoDown (connected : Bool) : LdapLoop :=
  ⟨2, false, secondInit connected + 1, [.serverDown, .serverDown]⟩

theorem returns_afterTwoDown_iff {connected : Bool}
    (hinit : init (secondInit connected) = true) (hdown : search 1 = .serverDown) :
    WhileLoop.Returns (turn init search) (afterDown connected) r ↔
      WhileLoop.Returns (turn init search) (afterTwoDown connected) r := by
  refine WhileLoop.returns_iff_of_inl ?_
  have hturn := @turn_of_init init search (afterDown connected) rfl hinit
  rw [hturn, query_of_serverDown hdown]
  rfl

/-! ### What follows from the first results -/

/-- After a first success there is a second search. -/
theorem not_boundedRetry_of_success {connected : Bool}
    (h : ¬(connected = false ∧ init 0 = false)) (hfirst : search 0 = .success) :
    ¬BoundedRetry connected init search := by
  rintro ⟨r, hreturns, -, hlast, -⟩
  have hstep : turn init search (start connected) =
      .inl ⟨1, true, secondInit connected, [.success]⟩ := by
    rw [turn_start h, query_of_success hfirst]
    rfl
  have hnext := prefix_of_query ⟨_, turn_of_connected rfl, rfl⟩
    ((WhileLoop.returns_iff_of_inl hstep).1 hreturns)
  obtain ⟨rest, hrest⟩ := hnext
  have hlength := hlast 0 (by rw [← hrest]; rfl)
  rw [← hrest] at hlength
  simp at hlength

/-- Another error in the first turn is read as a success. -/
theorem not_boundedRetry_of_other {connected : Bool} {code : Int}
    (h : ¬(connected = false ∧ init 0 = false)) (hfirst : search 0 = .other code) :
    ¬BoundedRetry connected init search := by
  rintro ⟨r, hreturns, -, -, hreads⟩
  have hstep : turn init search (start connected) = .inr ⟨[.other code], .reads⟩ := by
    rw [turn_start h, query_of_other hfirst]
    rfl
  obtain rfl := (WhileLoop.returns_of_inr hstep).unique hreturns
  cases hreads rfl

/-- A server that is down twice, and can be reached, is asked a third time. -/
theorem not_boundedRetry_of_down {connected : Bool}
    (h : ¬(connected = false ∧ init 0 = false)) (hfirst : search 0 = .serverDown)
    (hinit : init (secondInit connected) = true) (hsecond : search 1 = .serverDown)
    (hinit' : init (secondInit connected + 1) = true) :
    ¬BoundedRetry connected init search := by
  rintro ⟨r, hreturns, hlength, -, -⟩
  rw [returns_afterDown_iff h hfirst, returns_afterTwoDown_iff hinit hsecond] at hreturns
  have hnext := prefix_of_query ⟨_, turn_of_init rfl hinit', rfl⟩ hreturns
  have hle : 3 ≤ r.searches.length := hnext.length_le
  exact absurd (hle.trans hlength) (by decide)

/-- An outcome that meets the requirements. -/
theorem boundedRetry_of_returns {connected : Bool} {searches : List LdapResult} {exit : LdapExit}
    (h : WhileLoop.Returns (turn init search) (start connected) ⟨searches, exit⟩)
    (hlength : searches.length ≤ ldapMaxTry)
    (hlast : ∀ i, searches[i]? = some .success → i + 1 = searches.length)
    (hreads : exit = .reads → searches.getLast? = some .success) :
    BoundedRetry connected init search := ⟨_, h, hlength, hlast, hreads⟩

/-- A list of failures has no success. -/
theorem no_success {searches : List LdapResult} (h : .success ∉ searches) (i : ℕ)
    (hi : searches[i]? = some .success) : i + 1 = searches.length :=
  absurd (List.mem_of_getElem? hi) h

theorem boundedRetry_of_noConnection (hinit : init 0 = false) :
    BoundedRetry false init search :=
  boundedRetry_of_returns (WhileLoop.returns_of_inr (turn_of_not_init rfl hinit))
    (Nat.zero_le _) (no_success List.not_mem_nil) (by intro h; cases h)

theorem boundedRetry_of_down {connected : Bool} (h : ¬(connected = false ∧ init 0 = false))
    (hfirst : search 0 = .serverDown)
    (hrest : init (secondInit connected) = false ∨ search 1 ≠ .serverDown ∨
      init (secondInit connected + 1) = false) : BoundedRetry connected init search := by
  cases hinit : init (secondInit connected) with
  | false =>
    have hstep : turn init search (afterDown connected) = .inr ⟨[.serverDown], .noConnection⟩ :=
      turn_of_not_init rfl hinit
    exact boundedRetry_of_returns ((returns_afterDown_iff h hfirst).2
      (WhileLoop.returns_of_inr hstep)) (by decide) (no_success (by decide)) (by decide)
  | true =>
    have hturn := @turn_of_init init search (afterDown connected) rfl hinit
    cases hsecond : search 1 with
    | success =>
      have hstep : turn init search (afterDown connected) =
          .inr ⟨[.serverDown, .success], .reads⟩ := by
        rw [hturn, query_of_success hsecond]
        rfl
      refine boundedRetry_of_returns ((returns_afterDown_iff h hfirst).2
        (WhileLoop.returns_of_inr hstep)) (by decide) (fun i hi ↦ ?_) (fun _ ↦ rfl)
      obtain _ | _ | i := i
      · cases hi
      · rfl
      · cases hi
    | other code =>
      have hstep : turn init search (afterDown connected) =
          .inr ⟨[.serverDown, .other code], .failed⟩ := by
        rw [hturn, query_of_other hsecond]
        rfl
      refine boundedRetry_of_returns ((returns_afterDown_iff h hfirst).2
        (WhileLoop.returns_of_inr hstep)) (Nat.le_refl 2) (no_success ?_) (by intro h; cases h)
      simp
    | serverDown =>
      rw [hinit, hsecond] at hrest
      have hinit' : init (secondInit connected + 1) = false := by simpa using hrest
      have hstep : turn init search (afterTwoDown connected) =
          .inr ⟨[.serverDown, .serverDown], .noConnection⟩ := turn_of_not_init rfl hinit'
      exact boundedRetry_of_returns ((returns_afterDown_iff h hfirst).2
        ((returns_afterTwoDown_iff hinit hsecond).2 (WhileLoop.returns_of_inr hstep)))
        (by decide) (no_success (by decide)) (by decide)

end LdapLoop

open LdapLoop in
/-- **The loop is a bounded retry exactly if there is no connection, or the server is down at first
and answers the second query or cannot be reached for it or after it.** -/
theorem boundedRetry_iff (connected : Bool) (init : ℕ → Bool) (search : ℕ → LdapResult) :
    BoundedRetry connected init search ↔ RetryFine connected init search := by
  by_cases hnone : connected = false ∧ init 0 = false
  · obtain ⟨rfl, hinit⟩ := hnone
    exact ⟨fun _ ↦ Or.inl ⟨rfl, hinit⟩, fun _ ↦ boundedRetry_of_noConnection hinit⟩
  · constructor
    · intro h
      cases hfirst : search 0 with
      | success => exact absurd h (not_boundedRetry_of_success hnone hfirst)
      | other code => exact absurd h (not_boundedRetry_of_other hnone hfirst)
      | serverDown =>
        refine Or.inr ⟨hfirst, ?_⟩
        by_contra hrest
        push Not at hrest
        obtain ⟨hinit, hsecond, hinit'⟩ := hrest
        exact not_boundedRetry_of_down hnone hfirst (Bool.of_not_eq_false hinit) hsecond
          (Bool.of_not_eq_false hinit') h
    · rintro (h | ⟨hfirst, hrest⟩)
      · exact absurd h hnone
      · exact boundedRetry_of_down hnone hfirst hrest

open LdapLoop in
/-- **A server that stays down is asked forever**, if it can be reached. -/
theorem not_returns_of_staysDown {init : ℕ → Bool} {search : ℕ → LdapResult}
    (hinit : ∀ n, init n = true) (hdown : ∀ n, search n = .serverDown) (connected : Bool)
    (r : LdapOutcome) : ¬WhileLoop.Returns (turn init search) (start connected) r := by
  refine WhileLoop.not_returns (I := fun _ ↦ True) (fun s _ ↦ ?_) trivial r
  cases hconn : s.connected with
  | true => exact ⟨_, (turn_of_connected hconn).trans (query_of_serverDown (hdown _)), trivial⟩
  | false =>
    exact ⟨_, (turn_of_init hconn (hinit _)).trans (query_of_serverDown (hdown _)), trivial⟩

open LdapLoop in
/-- A first success is followed by a second search, which may fail; the first result is lost
then. -/
theorem retry_after_success :
    ¬BoundedRetry true (fun _ ↦ true) (fun n ↦ if n = 0 then .success else .other 80) ∧
      WhileLoop.Returns
        (turn (fun _ ↦ true) fun n ↦ if n = 0 then .success else .other 80) (start true)
        ⟨[.success, .other 80], .failed⟩ := by
  refine ⟨not_boundedRetry_of_success (fun h ↦ Bool.false_ne_true h.1.symm) rfl, 2, ?_⟩
  decide

end Nufw
