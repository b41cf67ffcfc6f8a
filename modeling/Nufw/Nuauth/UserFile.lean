import Nufw.Nubase.Scanf
import Nufw.Nuauth.PortLists
import Nufw.Nuauth.PasswordCheck
import Nufw.Nuauth.TlsSasl

/-!
# The file of the users

`plaintext.c`: `read_user_list` reads the file line by line, and `user_check`, `get_user_id` and
`get_user_groups` look a user up. An error, after which the module does not start, is `none`. A line
is at most 1023 bytes long, a longer one is read as several.

Every user that is read is put in front of the others, so that the last line for a name is the one
that counts (`user_file_answers`). Names are compared without the domain that is asked for, and the
file is not: a name with an `@` in the file is found by nobody.
-/

namespace Nufw

/-- `struct plaintext_user`. -/
structure PlaintextUser where
  passwd : Bytes
  username : Bytes
  uid : UInt32
  groups : List UInt32
  deriving DecidableEq, Repr

/-- One round of the loop of `read_user_list`, for a line. -/
def readUserLine (userlist : List PlaintextUser) (line : Bytes) : Option (List PlaintextUser) :=
  match stripComment line with
  | none => some userlist
  | some text =>
    -- "Malformed line" without one of the separators, or without a number
    match strchr text 58 with
    | none => none
    | some (username, text) =>
      match strchr text 58 with
      | none => none
      | some (passwd, text) =>
        match scanDecimal text, strchr text 58 with
        | some (uid, _), some (_, groups) =>
          (parseInts groups []).map fun groups ↦ ⟨passwd, username, .ofInt uid, groups⟩ :: userlist
        | _, _ => none

/-- What `fgets (line, sizeof(line), fd)` gives of a file, one after the other. -/
def userLines (file : Bytes) : List Bytes := (readAll 1023 file.length file).map cString

/-- `read_user_list`. -/
def readUserList (file : Bytes) : Option (List PlaintextUser) :=
  (userLines file).foldlM readUserLine []

/-! ### Questions -/

/-- `fill_user_by_username`. -/
def fillUserByUsername (userlist : List PlaintextUser) (username : Bytes) : Option PlaintextUser :=
  userlist.find? fun u ↦ u.username = getRidOfDomain username

/-- `user_check`. It is `none` when `verify_user_password` uses a part of the password that is
missing. -/
def userCheck (env : PasswordEnv) (conf : Params) (userlist : List PlaintextUser)
    (username : Bytes) (clientpass : Option Bytes) : Option SaslResult :=
  match fillUserByUsername userlist username with
  | none => some .badAuth
  | some user =>
    -- "Account is disabled"
    if user.passwd = ascii "*" ∨ user.passwd = ascii "!" then some .badAuth
    else
      match clientpass with
      | none => some .ok
      | some clientpass =>
        (verifyUserPassword env conf clientpass user.passwd).map fun ret ↦
          if ret = .ok then .ok else .badAuth

/-- `get_user_id`. -/
def getUserId (userlist : List PlaintextUser) (username : Bytes) : UInt32 :=
  ((fillUserByUsername userlist username).map PlaintextUser.uid).getD 0

/-- `get_user_groups`. -/
def getUserGroups (userlist : List PlaintextUser) (username : Bytes) : List UInt32 :=
  ((fillUserByUsername userlist username).map PlaintextUser.groups).getD []

/-! ### Files as they are written -/

namespace PlaintextUser

/-- "gid1,gid2,gid3". -/
def groupsText (u : PlaintextUser) : Bytes :=
  [44].intercalate (u.groups.map fun g ↦ decimal g.toNat)

/-- "username:passwd:uid:gid1,gid2,gid3". -/
def text (u : PlaintextUser) : Bytes :=
  u.username ++ 58 :: (u.passwd ++ 58 :: (decimal u.uid.toNat ++ 58 :: u.groupsText))

/-- The text has no separator and no end in it. -/
def Plain (text : Bytes) : Prop := 58 ∉ text ∧ 10 ∉ text ∧ 0 ∉ text

/-- A user that can be written on a line. -/
structure WellFormed (u : PlaintextUser) : Prop where
  username : Plain u.username
  passwd : Plain u.passwd
  /-- The line is neither empty nor a comment, and does not begin with a blank. -/
  first : ∃ c rest, u.username = c :: rest ∧ isBlank c = false ∧ c ≠ 35 ∧ c ≠ 13
  short : u.text.length < 1023

/-- What is read of the line. -/
def stored (u : PlaintextUser) : PlaintextUser := { u with groups := u.groups.reverse }

end PlaintextUser

/-- The file with a line for each user. -/
def userFile (users : List PlaintextUser) : Bytes := users.flatMap fun u ↦ u.text ++ [10]

/-! ### Lines -/

/-- A line that fits is read whole. -/
theorem readAll_line {n : ℕ} {core : Bytes} (hend : 10 ∉ core) (hlength : core.length ≤ n) :
    readAll (n + 1) (core ++ [10]).length (core ++ [10]) = [core ++ [10]] := by
  have hfgets : fgets (n + 1) (core ++ [10]) = (core ++ [10], []) := by
    induction core generalizing n with
    | nil => rfl
    | cons c core ih =>
      obtain ⟨hc, hrest⟩ := List.ne_and_not_mem_of_not_mem_cons hend
      obtain _ | n := n
      · cases hlength
      · rw [List.cons_append, fgets, if_neg hc.symm, ih hrest (Nat.le_of_succ_le_succ hlength)]
  obtain ⟨c, data, hdata⟩ := List.exists_cons_of_ne_nil (List.append_ne_nil_of_right_ne_nil core
    (List.cons_ne_nil 10 []))
  rw [hdata] at hfgets ⊢
  rw [List.length_cons, readAll, hfgets]
  cases data.length <;> rfl

namespace PlaintextUser

variable {u : PlaintextUser}

theorem chars_intercalate {l : List ℕ} {c : UInt8} (h : c ∈ [44].intercalate (l.map decimal)) :
    isdigit c = true ∨ c = 44 := by
  induction l with
  | nil => cases h
  | cons n l ih =>
    obtain _ | ⟨m, l⟩ := l
    · rw [List.map_cons, List.map_nil, List.intercalate_singleton] at h
      exact .inl (isdigit_of_mem_decimal h)
    · rw [List.map_cons, List.intercalate_cons_of_ne_nil (by simp)] at h
      obtain h | h := List.mem_append.1 h
      · obtain h | h := List.mem_append.1 h
        · exact .inl (isdigit_of_mem_decimal h)
        · exact .inr (List.mem_singleton.1 h)
      · exact ih h

theorem groupsText_eq (u : PlaintextUser) :
    u.groupsText = [44].intercalate ((u.groups.map UInt32.toNat).map decimal) := by
  rw [groupsText, List.map_map]
  rfl

theorem chars_groupsText {c : UInt8} (h : c ∈ u.groupsText) : isdigit c = true ∨ c = 44 :=
  chars_intercalate (u.groupsText_eq ▸ h)

theorem chars_text (hu : u.WellFormed) : 10 ∉ u.text ∧ 0 ∉ u.text := by
  have hother : ∀ c : UInt8, isdigit c = false → c ≠ 44 → c ≠ 58 → c ∉ u.username →
      c ∉ u.passwd → c ∉ u.text := by
    intro c hdigit hcomma hcolon husername hpasswd hmem
    simp only [text, List.mem_append, List.mem_cons] at hmem
    rcases hmem with h | h | h | h | h | h | h
    · exact husername h
    · exact hcolon h
    · exact hpasswd h
    · exact hcolon h
    · rw [isdigit_of_mem_decimal h] at hdigit
      cases hdigit
    · exact hcolon h
    · rcases chars_groupsText h with h | h
      · rw [h] at hdigit
        cases hdigit
      · exact hcomma h
  exact ⟨hother 10 (by decide) (by decide) (by decide) hu.username.2.1 hu.passwd.2.1,
    hother 0 (by decide) (by decide) (by decide) hu.username.2.2 hu.passwd.2.2⟩

/-- The line is not stripped but of its end. -/
theorem stripComment_text (hu : u.WellFormed) : stripComment (u.text ++ [10]) = some u.text := by
  obtain ⟨c, rest, hname, hblank, hcomment, hcr⟩ := hu.first
  have htext : u.text =
      c :: (rest ++ 58 :: (u.passwd ++ 58 :: (decimal u.uid.toNat ++ 58 :: u.groupsText))) := by
    rw [text, hname, List.cons_append]
  have hnewline : c ≠ 10 := fun h ↦ hu.username.2.1 (hname ▸ h ▸ List.mem_cons_self)
  have hlast : ∀ b, (58 :: u.groupsText).getLast? = some b → isTrailing b = false := by
    intro b hb
    obtain rfl | hmem := List.mem_cons.1 (List.mem_of_getLast? hb)
    · decide
    · obtain hdigit | rfl := chars_groupsText hmem
      · have hbounds := isdigit_iff.1 hdigit
        simp only [isTrailing, Bool.or_eq_false_iff, decide_eq_false_iff_not, ← UInt8.toNat_inj]
        refine ⟨⟨⟨?_, ?_⟩, ?_⟩, ?_⟩ <;> · simp; omega
      · decide
  have hrest : ∀ front : Bytes, (front ++ 58 :: u.groupsText ++ [10]).rdropWhile isTrailing =
      front ++ 58 :: u.groupsText := by
    intro front
    rw [List.rdropWhile_concat_pos isTrailing _ _ (by decide), List.rdropWhile_eq_self_iff]
    intro hl
    have hb := hlast _ (List.getLast?_eq_some_getLast (List.cons_ne_nil 58 u.groupsText))
    rw [List.getLast_append_of_ne_nil hl (List.cons_ne_nil _ _), hb]
    exact Bool.false_ne_true
  have hfront : rest ++ 58 :: (u.passwd ++ 58 :: (decimal u.uid.toNat ++ 58 :: u.groupsText)) =
      rest ++ 58 :: (u.passwd ++ 58 :: decimal u.uid.toNat) ++ 58 :: u.groupsText := by simp
  rw [stripComment, stripLine, htext, List.cons_append,
    List.dropWhile_cons_of_neg (by rw [hblank]; exact Bool.false_ne_true)]
  dsimp only
  rw [hfront, hrest, if_neg (by simp [hcomment, hcr, hnewline])]

theorem scanUnsigned_decimal (g : UInt32) : scanUnsigned (decimal g.toNat) = some g := by
  have hscan : scanNumber (decimal g.toNat) = some (false, g.toNat, []) := by
    have hdigits := @scanNumber_digits [] (decimal g.toNat) [] (fun _ h ↦ by cases h)
      (fun _ h ↦ isdigit_of_mem_decimal h) (decimal_ne_nil _) (fun _ h ↦ by cases h)
    rwa [List.nil_append, List.append_nil, ofDigits_decimal] at hdigits
  have hlt := g.toNat_lt
  rw [scanUnsigned, strtoul, hscan]
  dsimp only
  rw [if_neg (by omega)]
  exact congrArg some (UInt32.ofNat_toNat)

theorem parseIntsLoop_decimal (groups intlist : List UInt32) :
    parseIntsLoop (groups.map fun g ↦ decimal g.toNat) intlist =
      some (groups.reverse ++ intlist) := by
  induction groups generalizing intlist with
  | nil => rfl
  | cons g groups ih =>
    rw [List.map_cons, parseIntsLoop, scanUnsigned_decimal]
    dsimp only
    rw [ih, List.reverse_cons, List.append_assoc]
    rfl

theorem parseInts_groupsText : parseInts u.groupsText [] = some u.groups.reverse := by
  obtain hnil | hne := eq_or_ne u.groups []
  · rw [groupsText, hnil]
    decide
  · have hsplit : u.groupsText.splitOn 44 = u.groups.map fun g ↦ decimal g.toNat := by
      refine List.splitOn_intercalate 44 ?_ (by simpa using hne)
      intro item h
      obtain ⟨g, -, rfl⟩ := List.mem_map.1 h
      intro hmem
      have hdigit := isdigit_of_mem_decimal hmem
      cases hdigit
    rw [parseInts, hsplit, parseIntsLoop_decimal, List.append_nil]

theorem scanDecimal_uid (rest : Bytes) :
    (scanDecimal (decimal u.uid.toNat ++ 58 :: rest)).map (fun r ↦ UInt32.ofInt r.1) =
      some u.uid := by
  have hdigits := @scanNumber_digits [] (decimal u.uid.toNat) (58 :: rest) (fun _ h ↦ by cases h)
    (fun _ h ↦ isdigit_of_mem_decimal h) (decimal_ne_nil _)
    (fun _ h ↦ by rw [← Option.some.inj h]; rfl)
  rw [List.nil_append, ofDigits_decimal] at hdigits
  have hlt := u.uid.toNat_lt
  rw [scanDecimal, hdigits, Option.map_some, Option.map_some]
  refine congrArg some (UInt32.toNat_inj.1 ?_)
  simp only [Bool.false_eq_true, if_false]
  have hmod : (u.uid.toNat : Int).bmod (2 ^ 32) % (2 ^ 32 : ℕ) = u.uid.toNat % (2 ^ 32 : ℕ) :=
    Int.bmod_emod
  rw [min_eq_left (by omega), UInt32.ofInt, UInt32.toNat_ofNat']
  omega

/-- **A line is read as it is written.** -/
theorem readUserLine_text (hu : u.WellFormed) (userlist : List PlaintextUser) :
    readUserLine userlist (u.text ++ [10]) = some (u.stored :: userlist) := by
  obtain ⟨hname, -, -⟩ := hu.username
  obtain ⟨hpasswd, -, -⟩ := hu.passwd
  have huid : 58 ∉ decimal u.uid.toNat := fun h ↦ by
    have hdigit := isdigit_of_mem_decimal h
    cases hdigit
  obtain ⟨r, hr, hvalue⟩ := Option.map_eq_some_iff.1 (scanDecimal_uid (u := u) u.groupsText)
  rw [readUserLine, stripComment_text hu]
  dsimp only
  rw [text, strchr_append hname]
  dsimp only
  rw [strchr_append hpasswd]
  dsimp only
  rw [hr, strchr_append huid]
  dsimp only
  rw [parseInts_groupsText, hvalue]
  rfl

end PlaintextUser

theorem userLines_userFile {users : List PlaintextUser} (h : ∀ u ∈ users, u.WellFormed) :
    userLines (userFile users) = users.map fun u ↦ u.text ++ [10] := by
  induction users with
  | nil => rfl
  | cons u users ih =>
    obtain ⟨hu, hrest⟩ := List.forall_mem_cons.1 h
    obtain ⟨hend, hnul⟩ := PlaintextUser.chars_text hu
    have hline : cString (u.text ++ [10]) = u.text ++ [10] := cString_of_notMem (by simp [hnul])
    rw [userLines, userFile, List.flatMap_cons, readAll_append (by simp), List.map_append,
      readAll_line hend (by have := hu.short; omega), List.map_singleton, hline]
    exact congrArg _ (ih hrest)

/-- **The file is read as it is written**, the last line first. -/
theorem readUserList_userFile {users : List PlaintextUser} (h : ∀ u ∈ users, u.WellFormed) :
    readUserList (userFile users) = some (users.map PlaintextUser.stored).reverse := by
  have hfold : ∀ userlist, (users.map fun u ↦ u.text ++ [10]).foldlM readUserLine userlist =
      some ((users.map PlaintextUser.stored).reverse ++ userlist) := by
    induction users with
    | nil => exact fun _ ↦ rfl
    | cons u users ih =>
      intro userlist
      obtain ⟨hu, hrest⟩ := List.forall_mem_cons.1 h
      rw [List.map_cons, List.foldlM_cons, PlaintextUser.readUserLine_text hu]
      show (users.map fun u ↦ u.text ++ [10]).foldlM readUserLine (u.stored :: userlist) = _
      rw [ih hrest, List.map_cons, List.reverse_cons, List.append_assoc]
      rfl
  rw [readUserList, userLines_userFile h, hfold, List.append_nil]

/-! ### Answers -/

section

variable {users : List PlaintextUser} {username : Bytes}

theorem fillUserByUsername_of_last {before after : List PlaintextUser} {u : PlaintextUser}
    (husers : users = before ++ u :: after) (hname : u.username = getRidOfDomain username)
    (hafter : ∀ v ∈ after, v.username ≠ u.username) :
    fillUserByUsername (users.map PlaintextUser.stored).reverse username = some u.stored := by
  have hnone : (after.map PlaintextUser.stored).reverse.find?
      (fun v ↦ v.username = getRidOfDomain username) = none := by
    refine List.find?_eq_none.2 fun v hv ↦ ?_
    obtain ⟨w, hw, rfl⟩ := List.mem_map.1 (List.mem_reverse.1 hv)
    exact fun h ↦ hafter w hw ((of_decide_eq_true h).trans hname.symm)
  rw [fillUserByUsername, husers, List.map_append, List.map_cons, List.reverse_append,
    List.reverse_cons, List.append_assoc, List.find?_append, hnone, Option.none_or,
    List.singleton_append]
  exact List.find?_cons_of_pos (decide_eq_true hname)

theorem fillUserByUsername_of_notMem (h : ∀ u ∈ users, u.username ≠ getRidOfDomain username) :
    fillUserByUsername (users.map PlaintextUser.stored).reverse username = none := by
  refine List.find?_eq_none.2 fun v hv ↦ ?_
  obtain ⟨w, hw, rfl⟩ := List.mem_map.1 (List.mem_reverse.1 hv)
  exact fun hname ↦ h w hw (of_decide_eq_true hname)

theorem userCheck_eq_ok_iff {env : PasswordEnv} {conf : Params} {userlist : List PlaintextUser}
    {u : PlaintextUser} (hfill : fillUserByUsername userlist username = some u)
    (clientpass : Bytes) : userCheck env conf userlist username (some clientpass) = some .ok ↔
      u.passwd ≠ ascii "*" ∧ u.passwd ≠ ascii "!" ∧
        verifyUserPassword env conf clientpass u.passwd = some .ok := by
  rw [userCheck, hfill]
  dsimp only
  split
  · next hdisabled =>
    refine iff_of_false (fun hok ↦ by cases hok) fun ⟨hstar, hbang, _⟩ ↦ ?_
    exact hdisabled.elim hstar hbang
  · next hdisabled =>
    rw [not_or] at hdisabled
    rw [← and_assoc, and_iff_right hdisabled, Option.map_eq_some_iff]
    constructor
    · rintro ⟨ret, hret, hok⟩
      split at hok
      · next h => rw [hret, h]
      · cases hok
    · exact fun h ↦ ⟨.ok, h, rfl⟩

end

/-- **The last line for a name answers.** A file of users is read, and then every question about a
user, with a domain or without, is answered by the last line that has the name: the identifiers,
and whether a password is right. For a name that has no line there is no user. -/
theorem user_file_answers (env : PasswordEnv) (conf : Params) {users : List PlaintextUser}
    (h : ∀ u ∈ users, u.WellFormed) :
    ∃ userlist, readUserList (userFile users) = some userlist ∧ ∀ username,
      (∀ before u after, users = before ++ u :: after → u.username = getRidOfDomain username →
        (∀ v ∈ after, v.username ≠ u.username) →
          getUserId userlist username = u.uid ∧
          getUserGroups userlist username = u.groups.reverse ∧
          ∀ clientpass, userCheck env conf userlist username (some clientpass) = some .ok ↔
            u.passwd ≠ ascii "*" ∧ u.passwd ≠ ascii "!" ∧
              verifyUserPassword env conf clientpass u.passwd = some .ok) ∧
      ((∀ u ∈ users, u.username ≠ getRidOfDomain username) →
        getUserId userlist username = 0 ∧ getUserGroups userlist username = [] ∧
          ∀ clientpass, userCheck env conf userlist username clientpass = some .badAuth) := by
  refine ⟨_, readUserList_userFile h, fun username ↦ ⟨?_, fun hnone ↦ ?_⟩⟩
  · intro before u after husers hname hafter
    have hfill := fillUserByUsername_of_last husers hname hafter
    exact ⟨by rw [getUserId, hfill]; rfl, by rw [getUserGroups, hfill]; rfl,
      fun clientpass ↦ (userCheck_eq_ok_iff hfill clientpass :)⟩
  · have hfill := fillUserByUsername_of_notMem hnone
    exact ⟨by rw [getUserId, hfill]; rfl, by rw [getUserGroups, hfill]; rfl,
      fun clientpass ↦ by rw [userCheck, hfill]⟩

/-- A user in two groups. -/
def PlaintextUser.sample : PlaintextUser := ⟨ascii "secret", ascii "ann", 1000, [100, 101]⟩

theorem PlaintextUser.sample_wellFormed : PlaintextUser.sample.WellFormed where
  username := by unfold Plain; decide +kernel
  passwd := by unfold Plain; decide +kernel
  first := ⟨97, ascii "nn", by decide +kernel, by decide, by decide, by decide⟩
  short := by decide +kernel

/-- A file of one line. -/
theorem user_file_answers_sample :
    ∃ userlist, readUserList (userFile [.sample]) = some userlist ∧ ∀ username,
      (∀ before u after, [PlaintextUser.sample] = before ++ u :: after →
        u.username = getRidOfDomain username → (∀ v ∈ after, v.username ≠ u.username) →
          getUserId userlist username = u.uid ∧
          getUserGroups userlist username = u.groups.reverse ∧
          ∀ clientpass, userCheck .sample .default userlist username (some clientpass) = some .ok ↔
            u.passwd ≠ ascii "*" ∧ u.passwd ≠ ascii "!" ∧
              verifyUserPassword .sample .default clientpass u.passwd = some .ok) ∧
      ((∀ u ∈ [PlaintextUser.sample], u.username ≠ getRidOfDomain username) →
        getUserId userlist username = 0 ∧ getUserGroups userlist username = [] ∧
          ∀ clientpass, userCheck .sample .default userlist username clientpass = some .badAuth) :=
  user_file_answers .sample .default (List.forall_mem_singleton.2 PlaintextUser.sample_wellFormed)

end Nufw
