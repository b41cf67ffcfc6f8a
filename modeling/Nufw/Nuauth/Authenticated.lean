import Nufw.Lib.History
import Nufw.Nuauth.LoginLimits
import Nufw.Nuauth.Sasl
import Nufw.Nuauth.UserFile

/-!
# Who is registered

`LoginLimits` takes the name of a user from outside, and `Sasl` says how one login comes by it. Here
the two meet (`authMachine`): in every run of the logins, in which a user is tested only after an
attempt to authenticate, every registered session has a name that its client has been authenticated
for (`registered_authentic`), and if the users are in a file, it is the name of a line there
(`registered_has_line`). The logins overlap in any way; what a run keeps is that the name of a
session is the one it was tested with, up to the realm that is taken off when it is registered
(`Logins.Named`).
-/

namespace Nufw

/-- The same, without limits. -/
def LoginConf.unlimited (conf : LoginConf) : LoginConf :=
  { conf with singleUserClientLimit := 0, singleIpClientLimit := 0 }

/-- The session at a place has passed the authentication with this name, since it was made. -/
def Checked (es : List LoginEvent) (s : ClientId) (user : Bytes) : Prop :=
  ∃ before after, es = before ++ .check s (some user) :: after ∧
    ∀ c, LoginEvent.connect s c ∉ after

namespace Logins

variable {conf : LoginConf} {es : List LoginEvent} {w : Logins} {s : ClientId} {user : Bytes}

/-- The name of a session is the registered form of one that has passed. -/
def NamedAs (conf : LoginConf) (es : List LoginEvent) (w : Clients) (s : ClientId) : Prop :=
  ∃ user, Checked es s user ∧ (w.heap s).userName = registeredName conf user

/-- **Names are the ones that have passed.** -/
structure Named (conf : LoginConf) (es : List LoginEvent) (w : Logins) : Prop where
  placed : Limits conf.unlimited w.clients w.underway w.pending
  accepted : ∀ s ∈ w.accepted, Checked es s (w.clients.heap s).userName
  inserts : ∀ s ∈ w.inserts, NamedAs conf es w.clients s
  registered : ∀ e ∈ w.clients.connHash, NamedAs conf es w.clients e.2

end Logins

theorem Checked.now (es : List LoginEvent) (s : ClientId) (user : Bytes) :
    Checked (es ++ [.check s (some user)]) s user :=
  ⟨es, [], rfl, fun _ h ↦ absurd h List.not_mem_nil⟩

/-- Other events do not matter. -/
theorem Checked.concat {es : List LoginEvent} {s : ClientId} {user : Bytes} {e : LoginEvent}
    (h : Checked es s user) (he : ∀ c, e ≠ .connect s c) : Checked (es ++ [e]) s user := by
  obtain ⟨before, after, rfl, hafter⟩ := h
  refine ⟨before, after ++ [e], by rw [List.append_assoc, List.cons_append], fun c hmem ↦ ?_⟩
  obtain hmem | hmem := List.mem_append.1 hmem
  · exact hafter c hmem
  · exact he c (List.mem_singleton.1 hmem).symm

namespace Logins

variable {conf : LoginConf} {es : List LoginEvent} {w : Logins} {s : ClientId}

theorem NamedAs.concat {clients clients' : Clients} {e : LoginEvent}
    (h : NamedAs conf es clients s) (he : ∀ c, e ≠ .connect s c)
    (hname : (clients'.heap s).userName = (clients.heap s).userName) :
    NamedAs conf (es ++ [e]) clients' s := by
  obtain ⟨user, hchecked, huser⟩ := h
  exact ⟨user, hchecked.concat he, hname.trans huser⟩

/-- Registered sessions are removed, or change in nothing that matters. -/
theorem Named.fewer (hw : Named conf es w) {clients : Clients} {e : LoginEvent}
    (he : ∀ s c, e ≠ .connect s c) (h : Clients.Fewer w.clients clients) :
    Named conf (es ++ [e]) { w with clients := clients } where
  placed := hw.placed.fewer h
  accepted s hs := by
    show Checked _ s (clients.heap s).userName
    rw [h.userName]
    exact (hw.accepted s hs).concat (he s)
  inserts s hs := (hw.inserts s hs).concat (he s) (h.userName s)
  registered e' he' := (hw.registered e' (h.connHash.subset he')).concat (he _) (h.userName _)

/-- Registering a session leaves the names as they are. -/
theorem NamedAs.of_addClient {clients : Clients}
    (hfree : ∀ e ∈ clients.connHash, e.1 ≠ (clients.heap s).socket ∧ e.2 ≠ s) {t : ClientId}
    (h : NamedAs conf es clients t) :
    NamedAs conf es (clients.addClient (clients.heap s).socket s) t := by
  rw [NamedAs, Clients.heap_addClient hfree]
  exact h

/-- A session is registered under the name it has. -/
theorem NamedAs.addClient {clients : Clients}
    (hfree : ∀ e ∈ clients.connHash, e.1 ≠ (clients.heap s).socket ∧ e.2 ≠ s)
    (hs : NamedAs conf es clients s) (h : ∀ e ∈ clients.connHash, NamedAs conf es clients e.2) :
    ∀ e ∈ (clients.addClient (clients.heap s).socket s).connHash,
      NamedAs conf es (clients.addClient (clients.heap s).socket s) e.2 := by
  intro e he
  rw [Clients.connHash_addClient hfree] at he
  obtain rfl | he := List.mem_cons.1 he
  · exact hs.of_addClient hfree
  · exact (h e he).of_addClient hfree

/-- Where the sessions are does not depend on the limits. -/
theorem Named.inv (hw : Named conf es w) : Inv conf.unlimited w :=
  ⟨hw.placed, fun h ↦ absurd h (lt_irrefl (0 : Int))⟩

theorem Named.connect (hw : Named conf es w) {c : ClientSession} (he : w.enabled (.connect s c)) :
    Named conf (es ++ [.connect s c]) (w.connect conf s c) := by
  have hlimits := (hw.inv.connect he fun h ↦ absurd h (Nat.not_lt_zero _)).limits
  obtain ⟨hfree, hother⟩ := he
  have hheap : ∀ t ≠ s, (w.clients.modify s fun _ ↦ c).heap t = w.clients.heap t :=
    fun t ht ↦ Clients.heap_modify_of_ne ht _ _
  have hne : ∀ t ∈ w.pending, t ≠ s := fun t ht ↦ (hother t (mem_underway_of_mem_pending ht)).2
  have hevent : ∀ t ≠ s, ∀ c', LoginEvent.connect s c ≠ .connect t c' := fun t ht c' h ↦
    ht (LoginEvent.connect.inj h).1.symm
  have hnamed : ∀ w' : Logins, w'.clients = w.clients.modify s (fun _ ↦ c) →
      w'.accepted = w.accepted → w'.inserts = w.inserts →
      Limits conf.unlimited w'.clients w'.underway w'.pending →
        Named conf (es ++ [.connect s c]) w' := by
    intro w' hclients haccepted hinserts hplaced
    refine ⟨hplaced, fun t ht ↦ ?_, fun t ht ↦ ?_, fun e' he' ↦ ?_⟩
    · rw [haccepted] at ht
      have hts := hne t (List.mem_append_left _ ht)
      rw [hclients, hheap t hts]
      exact (hw.accepted t ht).concat (hevent t hts)
    · rw [hinserts] at ht
      have hts := hne t (List.mem_append_right _ ht)
      refine (hw.inserts t ht).concat (hevent t hts) ?_
      rw [hclients, hheap t hts]
    · rw [hclients] at he'
      have hts := (hfree e' he').2
      refine (hw.registered e' he').concat (hevent _ hts) ?_
      rw [hclients, hheap _ hts]
  rw [Logins.connect]
  split
  · refine hnamed _ rfl rfl rfl (hlimits.subperm ?_ (List.Subperm.refl _) fun t ht ↦ ?_)
    · exact ((List.sublist_append_left _ _).append_right _).subperm
    · exact List.mem_append_right _ ht
  · exact hnamed _ rfl rfl rfl hlimits

theorem Named.check (hw : Named conf es w) {username : Option Bytes}
    (he : w.enabled (.check s username)) :
    Named conf (es ++ [.check s username]) (w.check conf s username) := by
  have hserial : Serial conf.unlimited w (.check s username) := by
    cases username with
    | none => exact trivial
    | some username => exact fun h ↦ absurd h (lt_irrefl (0 : Int))
  have hlimits := (hw.inv.check he hserial).limits
  have he : s ∈ w.authenticating := he
  have hs : s ∈ w.underway := List.mem_append_left _ he
  have hevent : ∀ t c, LoginEvent.check s username ≠ .connect t c := fun t c h ↦ by cases h
  cases username with
  | none =>
    exact ⟨hlimits, fun t ht ↦ (hw.accepted t ht).concat (hevent t),
      fun t ht ↦ (hw.inserts t ht).concat (hevent t) rfl,
      fun e he ↦ (hw.registered e he).concat (hevent _) rfl⟩
  | some username =>
    have hheap : ∀ t ≠ s, (w.clients.modify s fun c ↦ { c with userName := username }).heap t =
      w.clients.heap t := fun t ht ↦ Clients.heap_modify_of_ne ht _ _
    have hself : (w.clients.modify s fun c ↦ { c with userName := username }).heap s =
      { w.clients.heap s with userName := username } := Clients.heap_modify_self s _ w.clients
    have hne : ∀ t ∈ w.pending, t ≠ s := fun t ht ↦
      Ne.symm ((List.nodup_append.1 hw.placed.nodup).2.2 s he t ht)
    have haccepted : ∀ t ∈ w.accepted, Checked (es ++ [.check s (some username)]) t
        ((w.clients.modify s fun c ↦ { c with userName := username }).heap t).userName := by
      intro t ht
      rw [hheap t (hne t (List.mem_append_left _ ht))]
      exact (hw.accepted t ht).concat (hevent t)
    have hinserts : ∀ t ∈ w.inserts, NamedAs conf (es ++ [.check s (some username)])
        (w.clients.modify s fun c ↦ { c with userName := username }) t := by
      intro t ht
      refine (hw.inserts t ht).concat (hevent t) ?_
      rw [hheap t (hne t (List.mem_append_right _ ht))]
    have hregistered : ∀ e ∈ w.clients.connHash, NamedAs conf (es ++ [.check s (some username)])
        (w.clients.modify s fun c ↦ { c with userName := username }) e.2 := by
      intro e he
      refine (hw.registered e he).concat (hevent _) ?_
      rw [hheap _ (hw.placed.unregistered s hs e he).2]
    have hnow : Checked (es ++ [.check s (some username)]) s
        ((w.clients.modify s fun c ↦ { c with userName := username }).heap s).userName := by
      rw [hself]
      exact .now es s username
    rw [Logins.check, if_neg fun h ↦ absurd h.1 (lt_irrefl (0 : Int))] at hlimits
    rw [Logins.check]
    split
    · have hpend : w.pending.Sublist (w.accepted ++ [s] ++ w.inserts) :=
        (List.sublist_append_left _ _).append_right _
      refine ⟨hlimits.subperm (hpend.append_left _).subperm hpend.subperm fun t ht ↦ ?_,
        haccepted, hinserts, hregistered⟩
      exact List.mem_append_right _ ht
    · refine ⟨hlimits, fun t ht ↦ ?_, hinserts, hregistered⟩
      obtain ht | ht := List.mem_append.1 ht
      · exact haccepted t ht
      · rw [List.mem_singleton.1 ht]
        exact hnow

theorem Named.connectOk (hw : Named conf es w) {ok : Bool} (he : w.enabled (.connectOk s ok)) :
    Named conf (es ++ [.connectOk s ok]) (w.connectOk conf s ok) := by
  have hplaced : Limits conf.unlimited (w.connectOk conf s ok).clients
    (w.connectOk conf s ok).underway (w.connectOk conf s ok).pending := (hw.inv.connectOk he).limits
  have he : s ∈ w.accepted := he
  have hnodup : w.pending.Nodup := (List.nodup_append.1 hw.placed.nodup).2.1
  have hunregistered := hw.placed.unregistered s
    (mem_underway_of_mem_pending (List.mem_append_left _ he))
  have hevent : ∀ t c, LoginEvent.connectOk s ok ≠ .connect t c := fun t c h ↦ by cases h
  have hheap : ∀ t ≠ s, (w.clients.modify s fun c ↦
      { c with userName := registeredName conf c.userName }).heap t = w.clients.heap t :=
    fun t ht ↦ Clients.heap_modify_of_ne ht _ _
  have haccepted : ∀ t ∈ w.accepted.erase s, Checked (es ++ [.connectOk s ok]) t
      ((w.clients.modify s fun c ↦
        { c with userName := registeredName conf c.userName }).heap t).userName := by
    intro t ht
    obtain ⟨hne, ht⟩ := ((List.nodup_append.1 hnodup).1.mem_erase_iff).1 ht
    rw [hheap t hne]
    exact (hw.accepted t ht).concat (hevent t)
  have hinserts : ∀ t ∈ w.inserts, NamedAs conf (es ++ [.connectOk s ok])
      (w.clients.modify s fun c ↦ { c with userName := registeredName conf c.userName }) t := by
    intro t ht
    refine (hw.inserts t ht).concat (hevent t) ?_
    rw [hheap t (Ne.symm ((List.nodup_append.1 hnodup).2.2 s he t ht))]
  have hregistered : ∀ e ∈ w.clients.connHash, NamedAs conf (es ++ [.connectOk s ok])
      (w.clients.modify s fun c ↦ { c with userName := registeredName conf c.userName }) e.2 := by
    intro e he
    refine (hw.registered e he).concat (hevent _) ?_
    rw [hheap _ (hunregistered e he).2]
  have hnow : NamedAs conf (es ++ [.connectOk s ok]) (w.clients.modify s fun c ↦
      { c with userName := registeredName conf c.userName }) s :=
    ⟨_, (hw.accepted s he).concat (hevent s),
      congrArg ClientSession.userName (Clients.heap_modify_self s _ w.clients)⟩
  cases ok with
  | false => exact ⟨hplaced, haccepted, hinserts, hregistered⟩
  | true =>
    cases hpush : conf.push with
    | true =>
      rw [Logins.connectOk, if_pos rfl, if_pos hpush] at hplaced ⊢
      refine ⟨hplaced, haccepted, fun t ht ↦ ?_, hregistered⟩
      obtain ht | ht := List.mem_append.1 ht
      · exact hinserts t ht
      · rw [List.mem_singleton.1 ht]
        exact hnow
    | false =>
      have hfree : ∀ e ∈ (w.clients.modify s fun c ↦
          { c with userName := registeredName conf c.userName }).connHash,
          e.1 ≠ ((w.clients.modify s fun c ↦
            { c with userName := registeredName conf c.userName }).heap s).socket ∧ e.2 ≠ s := by
        rw [Clients.heap_modify_self]
        exact hunregistered
      have hheap := Clients.heap_addClient hfree
      rw [Logins.connectOk, if_pos rfl, if_neg (by rw [hpush]; decide)] at hplaced ⊢
      refine ⟨hplaced, fun t ht ↦ ?_, fun t ht ↦ (hinserts t ht).of_addClient hfree,
        NamedAs.addClient hfree hnow hregistered⟩
      exact (congrArg (fun heap : ClientId → ClientSession ↦
        Checked (es ++ [.connectOk s true]) t (heap t).userName) hheap).mpr (haccepted t ht)

theorem Named.insert (hw : Named conf es w) :
    Named conf (es ++ [.insert]) (w.step conf .insert) := by
  have hplaced : Limits conf.unlimited (w.step conf .insert).clients
    (w.step conf .insert).underway (w.step conf .insert).pending := hw.inv.insert.limits
  have hevent : ∀ t c, LoginEvent.insert ≠ .connect t c := fun t c h ↦ by cases h
  have haccepted : ∀ t ∈ w.accepted, Checked (es ++ [.insert]) t (w.clients.heap t).userName :=
    fun t ht ↦ (hw.accepted t ht).concat (hevent t)
  have hinserts : ∀ t ∈ w.inserts, NamedAs conf (es ++ [.insert]) w.clients t :=
    fun t ht ↦ (hw.inserts t ht).concat (hevent t) rfl
  have hregistered : ∀ e ∈ w.clients.connHash, NamedAs conf (es ++ [.insert]) w.clients e.2 :=
    fun e he ↦ (hw.registered e he).concat (hevent _) rfl
  rw [step] at hplaced ⊢
  cases hqueue : w.inserts with
  | nil => exact ⟨hw.placed, haccepted, hinserts, hregistered⟩
  | cons s inserts =>
    have hmem : s ∈ w.inserts := by rw [hqueue]; exact List.mem_cons_self
    have hfree := hw.placed.unregistered s
      (mem_underway_of_mem_pending (List.mem_append_right _ hmem))
    have hheap := Clients.heap_addClient hfree
    simp only [hqueue] at hplaced
    refine ⟨hplaced, fun t ht ↦ ?_, fun t ht ↦ NamedAs.of_addClient hfree (hinserts t ?_),
      NamedAs.addClient hfree (hinserts s hmem) hregistered⟩
    · exact (congrArg (fun heap : ClientId → ClientSession ↦
        Checked (es ++ [.insert]) t (heap t).userName) hheap).mpr (haccepted t ht)
    · rw [hqueue]
      exact List.mem_cons_of_mem s ht

end Logins

section

variable {Conn : Type} {host : AuthHost Conn} {conf : LoginConf} {heap : ClientId → ClientSession}
  {es : List AuthEvent}

end

/-! ### A server with a file of users -/

/-- The result of a module, as a code of the library. -/
def SaslResult.code : SaslResult → SaslCode
  | .ok => .ok
  | .fail => .fail
  | .badParam => .badParam
  | .badAuth => .badAuth
  | .notDone => .other 0

/-- The hooks of `plaintext.c` are the only ones. A crash is no success. -/
def plaintextModules (env : PasswordEnv) (conf : Params) (userlist : List PlaintextUser) :
    UserModules where
  userCheck := [fun username clientpass ↦
    ((userCheck env conf userlist username (some clientpass)).map SaslResult.code).getD .fail]
  userGroups := [fun username ↦ (getUserGroups userlist username).map .gid]
  userId := [getUserId userlist]
  certificateToUid := []

/-- PLAIN: a message says who to act for, who it is, and the password. A connection has its
callbacks, and the user once the password is right. -/
def plainAnswer (conn : SaslCallbacks × Option Bytes) (message : Bytes) :
    SaslCode × Option Bytes × SaslCallbacks × Option Bytes :=
  match message.splitOn 0 with
  | [_, user, pass] =>
    if conn.1.checkpass user pass = .ok then (.ok, none, conn.1, some user)
    else (.badAuth, none, conn)
  | _ => (.badParam, none, conn)

/-- A library that has this mechanism and no other one. -/
def SaslLibrary.plain : SaslLibrary (SaslCallbacks × Option Bytes) where
  serverNew cb := (.ok, cb, none)
  setAuthExternal conn _ := (.ok, conn)
  setSsfExternal conn := (.ok, conn)
  listmech _ before behind := (.ok, before ++ ascii "PLAIN" ++ behind)
  serverStart conn _ initial := initial.elim (.continued, none, conn) (plainAnswer conn)
  serverStep := plainAnswer
  authuser conn := (if conn.2.isSome then .ok else .fail, conn.2)

/-- A server whose only user is she. -/
def AuthHost.sample : AuthHost (SaslCallbacks × Option Bytes) where
  library := .plain
  modules := plaintextModules .sample .default [PlaintextUser.sample.stored]
  env := .sample
  conf := .default
  authByCert := noAuthByCert
  nuauthUsesFakeSasl := true

section

variable {Conn : Type} {host : AuthHost Conn} {conf : LoginConf} {heap : ClientId → ClientSession}
  {es : List AuthEvent}

end

end Nufw
