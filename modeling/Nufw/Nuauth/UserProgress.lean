import Mathlib.Logic.Relation
import Nufw.Lib.Wire
import Nufw.Nuauth.UserAuthsrv

/-!
# The loops of `user_request`

The two loops as machines: `FieldState.turn` is a turn of the loop over the fields of a request,
`RequestTurn` one of the loop over the requests of a message, and a message leads to the states that
are reached from its beginning.

A request of length zero is refused, and one that is shorter than its header has no fields and fails
the check at its end. A field is only compared with what is left of the request: one whose length is
zero is read for ever, and with a length below four the next field starts inside its header. So the
loops end just when no field of length zero is taken, and every turn of theirs goes on by the four
bytes of the header it has read just when no field with a length below four is
(`user_request_progress_iff`).
-/

namespace Memory

/-- The length that has been converted in place. -/
theorem host16_swap16 (e : ByteOrder) (m : Memory) (o : ℕ) :
    (m.swap16 e o).host16 e o = m.be16 o := by
  cases e with
  | big => rfl
  | little => simp [host16, swap16, be16]

/-- Two bytes in network order. -/
theorem toNat_be16 (m : Memory) (o : ℕ) :
    (m.be16 o).toNat = (m o).toNat * 256 + (m (o + 1)).toNat := by
  have hhigh := (m o).toNat_lt
  have hlow := (m (o + 1)).toNat_lt
  simp only [be16, UInt16.toNat_add, UInt16.toNat_mul, UInt8.toNat_toUInt16, UInt16.reduceToNat]
  omega

/-- Converting zero changes nothing. -/
theorem swap16_of_zero (e : ByteOrder) {m : Memory} {o : ℕ} (h : m.be16 o = 0) :
    m.swap16 e o = m := by
  cases e with
  | big => rfl
  | little =>
    have hsum := toNat_be16 m o
    rw [h, UInt16.toNat_zero] at hsum
    have heq : m o = m (o + 1) := UInt8.toNat_inj.1 (by omega)
    funext i
    dsimp only [swap16]
    split_ifs with hi hi'
    · rw [hi, heq]
    · rw [hi', heq]
    · rfl

end Memory

namespace Nufw

/-! ### The fields of a request -/

/-- The loop over the fields of a request, before a field. -/
structure FieldState where
  memory : Memory
  offset : ℕ
  /-- `auth_buffer_len`. -/
  room : Int
  connection : Connection

namespace FieldState

/-- The length that the field declares. -/
def length (s : FieldState) : ℕ := (s.memory.be16 (s.offset + 2)).toNat

/-- One turn, which nothing is left of when the loop ends or returns. -/
def turn (conf : Params) (env : UserEnv) (s : FieldState) : Option FieldState :=
  if s.room < 4 then none
  else
    (userProcessField conf env s.connection s.room s.memory s.offset).map fun (n, m, c) ↦
      ⟨m, s.offset + n, s.room - n, c⟩

/-- Some turns lead from a state to another one. -/
def Leads (conf : Params) (env : UserEnv) : FieldState → FieldState → Prop :=
  Relation.ReflTransGen fun s s' ↦ s.turn conf env = some s'

/-- The loop, from a state on. -/
def loop (conf : Params) (env : UserEnv) (fuel : ℕ) (s : FieldState) :
    Option (Option (Memory × Connection)) :=
  userFields conf env fuel s.memory s.offset s.room s.connection

/-- **A field that is taken however short it is**: an application or signature field, or one of the
others when enough is left of the request and its protocol is supported. -/
def TakesShort (s : FieldState) : Prop :=
  let field := s.memory.drop s.offset
  let version := s.connection.protoVersion
  let ipv4 := field 12 = ipprotoTcp ∨ field 12 = ipprotoUdp ∨ field 12 = ipprotoIcmp
  let ipv6 := field 36 = ipprotoTcp ∨ field 36 = ipprotoUdp ∨ field 36 = ipprotoIcmp ∨
    field 36 = ipprotoIcmpv6
  field 0 = appField ∨ field 0 = hashField ∨ field 0 = helloField ∧ 8 ≤ s.room ∨
    field 0 = ipv6Field ∧ 44 ≤ s.room ∧ ipv6 ∨
    field 0 = ipv4Field ∧ 20 ≤ s.room ∧
      if version = protoVersionV20 then ipv4
      else version ≠ protoVersionV22 ∧ version ≠ protoVersionV24

section

variable {conf : Params} {env : UserEnv} {s s' : FieldState}

theorem loop_succ (fuel : ℕ) : s.loop conf env (fuel + 1) =
    if s.room ≤ 0 then some (some (s.memory, s.connection))
    else
      match s.turn conf env with
      | none => some none
      | some s' => s'.loop conf env fuel := by
  rw [loop, userFields, turn]
  split_ifs with hend hshort
  · rfl
  · rfl
  · cases userProcessField conf env s.connection s.room s.memory s.offset with
    | none => rfl
    | some r => rfl

/-- What a turn does. -/
theorem turn_eq_some (h : s.turn conf env = some s') :
    4 ≤ s.room ∧ (s.length : Int) ≤ s.room ∧
      s'.memory = s.memory.swap16 env.order (s.offset + 2) ∧ s'.offset = s.offset + s.length ∧
      s'.room = s.room - s.length ∧
      userProcessFieldType conf env s.connection s.room
        ((s.memory.swap16 env.order (s.offset + 2)).drop s.offset) = some s'.connection := by
  rw [turn] at h
  split_ifs at h with hshort
  obtain ⟨⟨n, m, c⟩, hfield, rfl⟩ := Option.map_eq_some_iff.1 h
  rw [userProcessField, Memory.host16_drop, Memory.host16_swap16] at hfield
  split_ifs at hfield with hlong
  obtain ⟨c', htype, heq⟩ := Option.map_eq_some_iff.1 hfield
  obtain ⟨rfl, rfl, rfl⟩ : _ = n ∧ _ = m ∧ c' = c := by simpa using heq
  exact ⟨by omega, by rw [length]; omega, rfl, rfl, rfl, htype⟩

/-- When there is a turn. -/
theorem exists_turn (hroom : 4 ≤ s.room) (hlength : (s.length : Int) ≤ s.room) {c : Connection}
    (h : userProcessFieldType conf env s.connection s.room
      ((s.memory.swap16 env.order (s.offset + 2)).drop s.offset) = some c) :
    s.turn conf env = some ⟨s.memory.swap16 env.order (s.offset + 2), s.offset + s.length,
      s.room - s.length, c⟩ := by
  rw [length] at hlength
  rw [turn, if_neg (by omega), userProcessField]
  dsimp only
  rw [Memory.host16_drop, Memory.host16_swap16, if_neg (by omega), h]
  rfl

end

end FieldState

/-! ### Short fields -/

section Short

variable {conf : Params} {env : UserEnv} {c : Connection} {field : Memory}

theorem exists_ipv6_iff : (∃ c', userProcessFieldIpv6 c field = some c') ↔
    field 36 = ipprotoTcp ∨ field 36 = ipprotoUdp ∨ field 36 = ipprotoIcmp ∨
      field 36 = ipprotoIcmpv6 := by
  rw [userProcessFieldIpv6]
  dsimp only
  split_ifs with hports hicmp
  · exact iff_of_true ⟨_, rfl⟩ (by tauto)
  · exact iff_of_true ⟨_, rfl⟩ (by tauto)
  · exact iff_of_false (by simp) (by tauto)

theorem exists_ipv4_iff : (∃ c', userProcessFieldIpv4 c field = some c') ↔
    field 12 = ipprotoTcp ∨ field 12 = ipprotoUdp ∨ field 12 = ipprotoIcmp := by
  rw [userProcessFieldIpv4]
  dsimp only
  split_ifs with hports hicmp
  · exact iff_of_true ⟨_, rfl⟩ (by tauto)
  · exact iff_of_true ⟨_, rfl⟩ (by tauto)
  · exact iff_of_false (by simp) (by tauto)

/-- A length below the header wraps around to one that is too large. -/
theorem contentLength_of_short (h : (field.host16 env.order 2).toNat < 4) :
    512 < contentLength env field := by
  rw [contentLength]
  omega

theorem app_of_short (h : (field.host16 env.order 2).toNat < 4) :
    userProcessFieldApp conf env c (field.host16 env.order 2).toNat field =
      some { c with appName := none } := by
  unfold userProcessFieldApp
  dsimp only
  rw [if_neg (Nat.lt_irrefl _), if_pos (Or.inl (contentLength_of_short h))]

/-- **Which short fields are taken.** -/
theorem exists_type_iff (conf : Params) (env : UserEnv) {s : FieldState} (hroom : 4 ≤ s.room)
    (hlength : s.length < 4) :
    (∃ c, userProcessFieldType conf env s.connection s.room
      ((s.memory.swap16 env.order (s.offset + 2)).drop s.offset) = some c) ↔ s.TakesShort := by
  have hbyte : ∀ i, i ≠ 2 → i ≠ 3 → (s.memory.swap16 env.order (s.offset + 2)).drop s.offset i =
      s.memory.drop s.offset i := by
    intro i h₂ h₃
    exact Memory.swap16_of_ne _ _ (by omega) (by omega)
  have hshort : (((s.memory.swap16 env.order (s.offset + 2)).drop s.offset).host16
      env.order 2).toNat < 4 := by
    rw [Memory.host16_drop, Memory.host16_swap16]
    exact hlength
  rw [FieldState.TakesShort, ← hbyte 0 (by omega) (by omega), ← hbyte 12 (by omega) (by omega),
    ← hbyte 36 (by omega) (by omega)]
  generalize (s.memory.swap16 env.order (s.offset + 2)).drop s.offset = field at hshort ⊢
  unfold userProcessFieldType
  dsimp only
  by_cases h6 : field 0 = ipv6Field
  · have hne : ipv6Field ≠ appField ∧ ipv6Field ≠ hashField ∧ ipv6Field ≠ helloField ∧
        ipv6Field ≠ ipv4Field := by decide
    simp only [h6, hne, if_true, false_and, false_or, or_false, true_and]
    split_ifs with hsmall
    · exact iff_of_false (by simp) (by omega)
    · rw [exists_ipv6_iff, and_iff_right (by omega)]
  by_cases h4 : field 0 = ipv4Field
  · have hne : ipv4Field ≠ appField ∧ ipv4Field ≠ hashField ∧ ipv4Field ≠ helloField ∧
        ipv4Field ≠ ipv6Field := by decide
    simp only [h4, hne, if_true, if_false, false_and, false_or, true_and]
    by_cases hsmall : s.room < 20
    · rw [if_pos hsmall]
      exact iff_of_false (by simp) (by omega)
    rw [if_neg hsmall, and_iff_right (by omega)]
    by_cases hold : s.connection.protoVersion = protoVersionV20
    · rw [if_pos hold, if_pos hold, exists_ipv4_iff]
    rw [if_neg hold, if_neg hold]
    split_ifs with hnew
    · exact iff_of_false (by simp) (by tauto)
    · exact iff_of_true ⟨_, rfl⟩ (by tauto)
  by_cases happ : field 0 = appField
  · have hne : appField ≠ ipv6Field ∧ appField ≠ ipv4Field := by decide
    simp only [happ, hne, if_true, if_false, true_or, iff_true]
    rw [if_neg (by omega), app_of_short hshort]
    exact ⟨_, rfl⟩
  by_cases hhash : field 0 = hashField
  · have hne : hashField ≠ ipv6Field ∧ hashField ≠ ipv4Field ∧ hashField ≠ appField := by decide
    simp only [hhash, hne, if_true, if_false, true_or, or_true, iff_true]
    rw [if_neg (by omega)]
    exact ⟨_, rfl⟩
  by_cases hhello : field 0 = helloField
  · have hne : helloField ≠ ipv6Field ∧ helloField ≠ ipv4Field ∧ helloField ≠ appField ∧
        helloField ≠ hashField := by decide
    simp only [hhello, hne, if_true, if_false, false_or, false_and, or_false, true_and]
    split_ifs with hsmall
    · exact iff_of_false (by simp) (by omega)
    · exact iff_of_true ⟨_, rfl⟩ (by omega)
  · simp only [h6, h4, happ, hhash, hhello, if_false, false_or, false_and, iff_false]
    simp

/-! ### What a field leaves alone -/

theorem protoVersion_ipv6 {c' : Connection} (h : userProcessFieldIpv6 c field = some c') :
    c'.protoVersion = c.protoVersion := by
  rw [userProcessFieldIpv6] at h
  dsimp only at h
  split_ifs at h
  · rw [← Option.some.inj h]
  · rw [← Option.some.inj h]

theorem protoVersion_ipv4 {c' : Connection} (h : userProcessFieldIpv4 c field = some c') :
    c'.protoVersion = c.protoVersion := by
  rw [userProcessFieldIpv4] at h
  dsimp only at h
  split_ifs at h
  · rw [← Option.some.inj h]
  · rw [← Option.some.inj h]

theorem protoVersion_app {c' : Connection} {length : ℕ}
    (h : userProcessFieldApp conf env c length field = some c') :
    c'.protoVersion = c.protoVersion := by
  rw [userProcessFieldApp] at h
  split_ifs at h
  · rw [← Option.some.inj h]
  · cases hdecode : env.saslDecode64 (field.bytes 4 (contentLength env field)).toList with
    | none =>
      rw [hdecode] at h
      cases h
    | some decAppname =>
      rw [hdecode] at h
      rw [← Option.some.inj h]

theorem protoVersion_hash (env : UserEnv) (c : Connection) (length : ℕ) (field : Memory) :
    (userProcessFieldHash env c length field).protoVersion = c.protoVersion := by
  rw [userProcessFieldHash]
  split_ifs <;> rfl

/-- No field changes the version of the protocol. -/
theorem protoVersion_type {c' : Connection} {room : Int}
    (h : userProcessFieldType conf env c room field = some c') :
    c'.protoVersion = c.protoVersion := by
  rw [userProcessFieldType] at h
  split_ifs at h
  · exact protoVersion_ipv6 h
  · exact protoVersion_ipv4 h
  · rw [← Option.some.inj h]
  · exact protoVersion_app h
  · rw [← Option.some.inj h]
    exact protoVersion_hash env c _ field
  · rw [← Option.some.inj h]
    rfl

/-- A turn over a short field. -/
theorem exists_turn_iff (conf : Params) (env : UserEnv) {s : FieldState} (hroom : 4 ≤ s.room)
    (hlength : s.length < 4) :
    (∃ s', s.turn conf env = some s') ↔ s.TakesShort := by
  rw [← exists_type_iff conf env hroom hlength]
  constructor
  · rintro ⟨s', h⟩
    exact ⟨_, (FieldState.turn_eq_some h).2.2.2.2.2⟩
  · rintro ⟨c, h⟩
    exact ⟨_, FieldState.exists_turn hroom (by omega) h⟩

end Short

/-! ### The loop over fields -/

namespace FieldState

variable {conf : Params} {env : UserEnv} {data : TlsBufferRead} {s s' : FieldState}

/-- The version stays as it is. -/
theorem protoVersion_turn (h : s.turn conf env = some s') :
    s'.connection.protoVersion = s.connection.protoVersion :=
  protoVersion_type (turn_eq_some h).2.2.2.2.2

/-- **A field of length zero that is taken is read for ever.** -/
theorem loop_of_zero (fuel : ℕ) (hroom : 4 ≤ s.room) (hzero : s.length = 0) (h : s.TakesShort) :
    s.loop conf env fuel = none := by
  induction fuel generalizing s with
  | zero => rfl
  | succ fuel ih =>
    obtain ⟨s', hturn⟩ := (exists_turn_iff conf env hroom (by omega)).2 h
    obtain ⟨-, -, hmemory, hoffset, hroom', -⟩ := turn_eq_some hturn
    have hbe : s.memory.be16 (s.offset + 2) = 0 := UInt16.toNat_inj.1 hzero
    rw [Memory.swap16_of_zero env.order hbe] at hmemory
    rw [hzero] at hoffset hroom'
    rw [loop_succ, if_neg (by omega), hturn]
    refine ih (by omega) ?_ ?_
    · rw [length, hmemory, hoffset]
      exact hzero
    · rw [TakesShort, hmemory, hoffset, protoVersion_turn hturn, hroom']
      simpa [TakesShort] using h

/-- The loop ends in no way if it does not end behind a turn. -/
theorem loop_of_turn (hturn : s.turn conf env = some s') (fuel : ℕ) :
    s.loop conf env (fuel + 1) = s'.loop conf env fuel := by
  have hroom := (turn_eq_some hturn).1
  rw [loop_succ, if_neg (by omega), hturn]

theorem Leads.loop_eq_none (h : Leads conf env s s') (hnone : ∀ fuel, s'.loop conf env fuel = none)
    (fuel : ℕ) : s.loop conf env fuel = none := by
  induction h using Relation.ReflTransGen.head_induction_on generalizing fuel with
  | refl => exact hnone fuel
  | head hturn _ ih =>
    cases fuel with
    | zero => rfl
    | succ fuel =>
      rw [loop_of_turn hturn]
      exact ih fuel

/-- More turns change nothing once the loop has ended. -/
theorem loop_mono {fuel fuel' : ℕ} (hle : fuel ≤ fuel') {r : Option (Memory × Connection)}
    (h : s.loop conf env fuel = some r) : s.loop conf env fuel' = some r := by
  induction fuel generalizing s fuel' with
  | zero => cases h
  | succ fuel ih =>
    obtain ⟨fuel', rfl⟩ : ∃ k, fuel' = k + 1 := ⟨fuel' - 1, by omega⟩
    rw [loop_succ] at h ⊢
    split_ifs at h ⊢ with hend
    · exact h
    · cases hturn : s.turn conf env with
      | none =>
        rw [hturn] at h
        exact h
      | some s' =>
        rw [hturn] at h
        exact ih (by omega) h

/-- **The loop ends** if no field of length zero is taken. -/
theorem exists_loop (s : FieldState)
    (h : ∀ s', Leads conf env s s' → 4 ≤ s'.room → s'.length = 0 → ¬s'.TakesShort) :
    ∃ fuel r, s.loop conf env fuel = some r := by
  induction hn : s.room.toNat using Nat.strong_induction_on generalizing s with
  | _ n ih =>
    subst hn
    by_cases hend : s.room ≤ 0
    · exact ⟨1, _, by rw [loop_succ, if_pos hend]⟩
    cases hturn : s.turn conf env with
    | none => exact ⟨1, none, by rw [loop_succ, if_neg hend, hturn]⟩
    | some s' =>
      obtain ⟨hroom, -, -, -, hroom', -⟩ := turn_eq_some hturn
      have hpositive : s.length ≠ 0 := fun hzero ↦ h s .refl hroom hzero
        ((exists_turn_iff conf env hroom (by omega)).1 ⟨s', hturn⟩)
      obtain ⟨fuel, r, hr⟩ := ih s'.room.toNat (by omega) s'
        (fun s'' hleads ↦ h s'' (.head hturn hleads)) rfl
      exact ⟨fuel + 1, r, (loop_of_turn hturn fuel).trans hr⟩

/-- The loop that has come to its end. -/
theorem Leads.loop_of_end (h : Leads conf env s s') (hend : s'.room ≤ 0) (fuel : ℕ) :
    s.loop conf env fuel = none ∨
      s.loop conf env fuel = some (some (s'.memory, s'.connection)) := by
  induction h using Relation.ReflTransGen.head_induction_on generalizing fuel with
  | refl =>
    cases fuel with
    | zero => exact Or.inl rfl
    | succ fuel => exact Or.inr (by rw [loop_succ, if_pos hend])
  | head hturn _ ih =>
    cases fuel with
    | zero => exact Or.inl rfl
    | succ fuel =>
      rw [loop_of_turn hturn]
      exact ih fuel

/-- Where a loop that has ended has led. -/
theorem exists_leads_of_loop {fuel : ℕ} {m : Memory} {c : Connection}
    (h : s.loop conf env fuel = some (some (m, c))) :
    ∃ s', Leads conf env s s' ∧ s'.room ≤ 0 ∧ s'.memory = m ∧ s'.connection = c := by
  induction fuel generalizing s with
  | zero => cases h
  | succ fuel ih =>
    rw [loop_succ] at h
    split_ifs at h with hend
    · obtain ⟨rfl, rfl⟩ := Prod.mk.inj (Option.some.inj (Option.some.inj h))
      exact ⟨s, .refl, hend, rfl, rfl⟩
    · cases hturn : s.turn conf env with
      | none =>
        rw [hturn] at h
        cases h
      | some s' =>
        rw [hturn] at h
        obtain ⟨s'', hleads, hs''⟩ := ih h
        exact ⟨s'', .head hturn hleads, hs''⟩

/-- What lies before a field is left alone. -/
theorem Leads.memory_eq (h : Leads conf env s s') :
    s.offset ≤ s'.offset ∧ ∀ i < s.offset, s'.memory i = s.memory i := by
  induction h with
  | refl => exact ⟨Nat.le_refl _, fun _ _ ↦ rfl⟩
  | tail _ hturn ih =>
    obtain ⟨-, -, hmemory, hoffset, -⟩ := turn_eq_some hturn
    refine ⟨by omega, fun i hi ↦ ?_⟩
    rw [hmemory, Memory.swap16_of_ne _ _ (by omega) (by omega)]
    exact ih.2 i hi

end FieldState

/-! ### The loop over requests -/

/-- The loop over the requests of a message, before a request. -/
structure RequestState where
  memory : Memory
  start : ℕ
  /-- `buffer_len`. -/
  room : Int

namespace RequestState

/-- `packet_length`, as the request has it. -/
def length (r : RequestState) : ℕ := (r.memory.be16 (r.start + 2)).toNat

/-- The request passes the checks of its length. -/
def Opens (r : RequestState) : Prop := 4 ≤ r.room ∧ r.length ≠ 0 ∧ (r.length : Int) ≤ r.room

instance decidableOpens (r : RequestState) : Decidable r.Opens :=
  inferInstanceAs (Decidable (_ ∧ _ ∧ _))

/-- The loop over its fields, before the first one. -/
def fields (env : UserEnv) (data : TlsBufferRead) (r : RequestState) : FieldState where
  memory := r.memory.swap16 env.order (r.start + 2)
  offset := r.start + 4
  room := r.length - 4
  connection := newUserConnection data

/-- A turn of the loop: the fields of the request have been read, and its connection is kept. -/
def Turn (conf : Params) (env : UserEnv) (data : TlsBufferRead) (clock : ℕ → Int)
    (r r' : RequestState) : Prop :=
  r.Opens ∧ ∃ s, (r.fields env data).Leads conf env s ∧ s.room ≤ 0 ∧
    (userRequestEnd conf data (clock r.start) s.connection).isSome ∧
    r' = ⟨s.memory, r.start + (s.memory.host16 env.order (r.start + 2)).toNat,
      r.room - (s.memory.host16 env.order (r.start + 2)).toNat⟩

/-- The loop, from a request on. -/
def loop (conf : Params) (env : UserEnv) (data : TlsBufferRead) (clock : ℕ → Int) (fuel : ℕ)
    (r : RequestState) (connElts : List Connection) : Option (List Connection) :=
  userRequestLoop conf env data clock fuel r.memory r.start r.room connElts

section

variable {conf : Params} {env : UserEnv} {data : TlsBufferRead} {clock : ℕ → Int}
  {r r' : RequestState} {connElts : List Connection}

theorem loop_succ (fuel : ℕ) : r.loop conf env data clock (fuel + 1) connElts =
    if r.room ≤ 0 then some connElts
    else if r.Opens then
      match (r.fields env data).loop conf env fuel with
      | none => none
      | some none => some []
      | some (some (m, connection)) =>
        match userRequestEnd conf data (clock r.start) connection with
        | none => some []
        | some connection =>
          (⟨m, r.start + (m.host16 env.order (r.start + 2)).toNat,
            r.room - (m.host16 env.order (r.start + 2)).toNat⟩ : RequestState).loop conf env data
              clock fuel (connection :: connElts)
    else some [] := by
  rw [loop, userRequestLoop]
  dsimp only
  rw [Memory.host16_swap16]
  by_cases hend : r.room ≤ 0
  · rw [if_pos hend, if_pos hend]
  rw [if_neg hend, if_neg hend]
  by_cases hopens : r.Opens
  · have hlength : ¬((r.memory.be16 (r.start + 2)).toNat = 0 ∨
        r.room < (r.memory.be16 (r.start + 2)).toNat) :=
      not_or.2 ⟨hopens.2.1, Int.not_lt.2 hopens.2.2⟩
    rw [if_pos hopens, if_neg (Int.not_lt.2 hopens.1), if_neg hlength]
    rfl
  · rw [if_neg hopens]
    split_ifs with hshort hlength
    · rfl
    · rfl
    · obtain ⟨hzero, hlong⟩ := not_or.1 hlength
      exact absurd ⟨by omega, hzero, by rw [length]; omega⟩ hopens

/-- The length of the request is not touched by its fields. -/
theorem host16_of_leads {s : FieldState} (h : (r.fields env data).Leads conf env s) :
    (s.memory.host16 env.order (r.start + 2)).toNat = r.length := by
  have hmemory := h.memory_eq.2
  have hoffset : (r.fields env data).offset = r.start + 4 := rfl
  rw [Memory.host16_congr env.order (hmemory _ (by omega)) (hmemory _ (by omega)), fields,
    Memory.host16_swap16]
  rfl

/-- **A request is kept only if it is not shorter than its header.** -/
theorem Turn.length_ge (h : r.Turn conf env data clock r') :
    4 ≤ r.length ∧ r'.start = r.start + r.length ∧ r'.room = r.room - r.length := by
  obtain ⟨⟨-, hzero, -⟩, s, hleads, -, hkept, rfl⟩ := h
  have hlength := host16_of_leads hleads
  refine ⟨?_, by rw [hlength], by rw [hlength]⟩
  by_contra hshort
  -- there is no room for a field, and nothing has been read
  have hs : s = r.fields env data := by
    cases hleads.cases_head with
    | inl heq => exact heq.symm
    | inr hturn =>
      obtain ⟨s', hturn, -⟩ := hturn
      have hroom := (FieldState.turn_eq_some hturn).1
      rw [fields] at hroom
      dsimp only at hroom
      omega
  rw [hs] at hkept
  have hnone : userRequestEnd conf data (clock r.start) (newUserConnection data) = none := by
    rw [userRequestEnd]
    exact if_pos ⟨Or.inl (ipv6Equal_iff.2 rfl), rfl⟩
  rw [fields, hnone] at hkept
  cases hkept

/-- The loop behind a turn. -/
theorem Turn.loop_cases (h : r.Turn conf env data clock r') (fuel : ℕ)
    (connElts : List Connection) :
    r.loop conf env data clock (fuel + 1) connElts = none ∨ ∃ c,
      r.loop conf env data clock (fuel + 1) connElts =
        r'.loop conf env data clock fuel (c :: connElts) := by
  obtain ⟨hopens, s, hleads, hend, hkept, rfl⟩ := h
  obtain ⟨c, hc⟩ := Option.isSome_iff_exists.1 hkept
  rw [loop_succ, if_neg (by have := hopens.1; omega), if_pos hopens]
  obtain hnone | hsome := hleads.loop_of_end hend fuel
  · rw [hnone]
    exact Or.inl rfl
  · rw [hsome]
    dsimp only
    rw [hc]
    exact Or.inr ⟨c, rfl⟩

/-- The state before the first request. -/
def first (data : TlsBufferRead) : RequestState := ⟨data.buffer, 4, data.bufferLen - 4⟩

/-- Some turns lead from a request to another one. -/
def Leads (conf : Params) (env : UserEnv) (data : TlsBufferRead) (clock : ℕ → Int) :
    RequestState → RequestState → Prop :=
  Relation.ReflTransGen (Turn conf env data clock)

/-- **The parser comes to a field**, of some request of those it comes to from here. -/
def Meets (conf : Params) (env : UserEnv) (data : TlsBufferRead) (clock : ℕ → Int)
    (r : RequestState) (s : FieldState) : Prop :=
  ∃ r', r.Leads conf env data clock r' ∧ r'.Opens ∧ (r'.fields env data).Leads conf env s

/-- **A field of length zero that is taken keeps the parser busy for ever.** -/
theorem loop_eq_none {s : FieldState} (h : r.Meets conf env data clock s) (hroom : 4 ≤ s.room)
    (hzero : s.length = 0) (hshort : s.TakesShort) (fuel : ℕ) (connElts : List Connection) :
    r.loop conf env data clock fuel connElts = none := by
  obtain ⟨r', hleads, hopens, hfields⟩ := h
  induction hleads using Relation.ReflTransGen.head_induction_on generalizing fuel connElts with
  | refl =>
    cases fuel with
    | zero => rfl
    | succ fuel =>
      have hnone := hfields.loop_eq_none (fun fuel ↦ s.loop_of_zero fuel hroom hzero hshort) fuel
      rw [loop_succ, if_neg (by have := hopens.1; omega), if_pos hopens, hnone]
  | head hturn _ ih =>
    cases fuel with
    | zero => rfl
    | succ fuel =>
      obtain hnone | ⟨c, heq⟩ := Turn.loop_cases hturn fuel connElts
      · exact hnone
      · rw [heq]
        exact ih fuel _

/-- More turns change nothing once the loop has ended. -/
theorem loop_mono {fuel fuel' : ℕ} (hle : fuel ≤ fuel') {conns : List Connection}
    (h : r.loop conf env data clock fuel connElts = some conns) :
    r.loop conf env data clock fuel' connElts = some conns := by
  induction fuel generalizing r fuel' connElts with
  | zero => cases h
  | succ fuel ih =>
    obtain ⟨fuel', rfl⟩ : ∃ k, fuel' = k + 1 := ⟨fuel' - 1, by omega⟩
    rw [loop_succ] at h ⊢
    by_cases hend : r.room ≤ 0
    · rw [if_pos hend] at h ⊢
      exact h
    rw [if_neg hend] at h ⊢
    by_cases hopens : r.Opens
    · rw [if_pos hopens] at h ⊢
      cases hfields : (r.fields env data).loop conf env fuel with
      | none =>
        rw [hfields] at h
        cases h
      | some o =>
        rw [hfields] at h
        rw [FieldState.loop_mono (by omega) hfields]
        cases o with
        | none => exact h
        | some mc =>
          obtain ⟨m, c⟩ := mc
          dsimp only at h ⊢
          cases hkept : userRequestEnd conf data (clock r.start) c with
          | none =>
            rw [hkept] at h
            exact h
          | some c' =>
            rw [hkept] at h
            exact ih (by omega) h
    · rw [if_neg hopens] at h ⊢
      exact h

/-- **The loop ends** if no field of length zero is taken. -/
theorem exists_loop (h : ∀ s, r.Meets conf env data clock s → 4 ≤ s.room → s.length = 0 →
      ¬s.TakesShort) (connElts : List Connection) :
    ∃ fuel conns, r.loop conf env data clock fuel connElts = some conns := by
  induction hn : r.room.toNat using Nat.strong_induction_on generalizing r connElts with
  | _ n ih =>
    subst hn
    by_cases hend : r.room ≤ 0
    · exact ⟨1, _, by rw [loop_succ, if_pos hend]⟩
    by_cases hopens : r.Opens
    · obtain ⟨fuel, o, hfields⟩ :=
        FieldState.exists_loop (r.fields env data) fun s hleads ↦ h s ⟨r, .refl, hopens, hleads⟩
      cases o with
      | none =>
        exact ⟨fuel + 1, [], by rw [loop_succ, if_neg hend, if_pos hopens, hfields]⟩
      | some mc =>
        obtain ⟨m, c⟩ := mc
        cases hkept : userRequestEnd conf data (clock r.start) c with
        | none =>
          refine ⟨fuel + 1, [], ?_⟩
          rw [loop_succ, if_neg hend, if_pos hopens, hfields]
          dsimp only
          rw [hkept]
        | some c' =>
          obtain ⟨s, hleads, hroom, rfl, rfl⟩ := FieldState.exists_leads_of_loop hfields
          have hturn : r.Turn conf env data clock _ :=
            ⟨hopens, s, hleads, hroom, by rw [hkept]; rfl, rfl⟩
          obtain ⟨hlength, -, hroom'⟩ := hturn.length_ge
          obtain ⟨fuel', conns, hconns⟩ := ih _ (by omega)
            (fun s' ⟨r'', hr'', hs'⟩ ↦ h s' ⟨r'', .head hturn hr'', hs'⟩) (c' :: connElts) rfl
          refine ⟨max fuel fuel' + 1, conns, ?_⟩
          rw [loop_succ, if_neg hend, if_pos hopens,
            FieldState.loop_mono (Nat.le_max_left fuel fuel') hfields]
          dsimp only
          rw [hkept]
          exact loop_mono (Nat.le_max_right fuel fuel') hconns
    · exact ⟨1, [], by rw [loop_succ, if_neg hend, if_neg hopens]⟩

end

end RequestState

/-! ### Progress -/

/-- **Every turn of the two loops goes on by the header it has read**, and the function returns. -/
structure Progresses (conf : Params) (env : UserEnv) (clock : ℕ → Int) (data : TlsBufferRead) :
    Prop where
  returns : ∃ fuel conns, userRequest conf env clock fuel data = some conns
  requests : ∀ r r', (RequestState.first data).Leads conf env data clock r →
    r.Turn conf env data clock r' → r.start + 4 ≤ r'.start ∧ r'.room + 4 ≤ r.room
  fields : ∀ s s', (RequestState.first data).Meets conf env data clock s →
    s.turn conf env = some s' → s.offset + 4 ≤ s'.offset ∧ s'.room + 4 ≤ s.room

/-- **When `user_request` progresses.** It returns if and only if the parser comes to no field of
length zero that is taken; and every turn of its loops goes on by at least four bytes if and only if
it comes to no field with a length below four that is taken. -/
theorem user_request_progress_iff (conf : Params) (env : UserEnv) (clock : ℕ → Int)
    (data : TlsBufferRead) :
    ((∃ fuel conns, userRequest conf env clock fuel data = some conns) ↔
      ∀ s, (RequestState.first data).Meets conf env data clock s → 4 ≤ s.room → s.length = 0 →
        ¬s.TakesShort) ∧
    (Progresses conf env clock data ↔
      ∀ s, (RequestState.first data).Meets conf env data clock s → 4 ≤ s.room → s.length < 4 →
        ¬s.TakesShort) := by
  have hreturns : (∃ fuel conns, userRequest conf env clock fuel data = some conns) ↔
      ∀ s, (RequestState.first data).Meets conf env data clock s → 4 ≤ s.room → s.length = 0 →
        ¬s.TakesShort := by
    constructor
    · rintro ⟨fuel, conns, hconns⟩ s hmeets hroom hzero hshort
      have hnone := RequestState.loop_eq_none hmeets hroom hzero hshort fuel []
      exact absurd (hconns.symm.trans hnone) (by simp)
    · intro h
      exact RequestState.exists_loop h []
  refine ⟨hreturns, fun h s hmeets hroom hlength hshort ↦ ?_, fun h ↦ ⟨?_, ?_, ?_⟩⟩
  · obtain ⟨s', hturn⟩ := (exists_turn_iff conf env hroom hlength).2 hshort
    obtain ⟨-, -, -, hoffset, -⟩ := FieldState.turn_eq_some hturn
    have hprogress := (h.fields s s' hmeets hturn).1
    omega
  · exact hreturns.2 fun s hmeets hroom hzero ↦ h s hmeets hroom (by omega)
  · intro r r' _ hturn
    obtain ⟨hlength, hstart, hroom⟩ := hturn.length_ge
    exact ⟨by omega, by omega⟩
  · intro s s' hmeets hturn
    obtain ⟨hroom, -, -, hoffset, hroom', -⟩ := FieldState.turn_eq_some hturn
    have hlength : ¬s.length < 4 := fun hlength ↦ h s hmeets hroom hlength
      ((exists_turn_iff conf env hroom hlength).1 ⟨s', hturn⟩)
    exact ⟨by omega, by omega⟩

/-- A message of the user, in the buffer of its session. -/
def messageData (message : Bytes) : TlsBufferRead :=
  UserSession.sample.bufferRead Params.default (Memory.ofBytes message) message.length

/-- A request with an application field of length zero. -/
def endlessMessage : Bytes := [0x36, 0, 0, 12, 0, 0, 0, 8, 3, 0, 0, 0]

/-- **A message of twelve bytes keeps the parser busy for ever.** -/
theorem endlessMessage_busy :
    (∀ fuel, userRequest Params.default UserEnv.sample (fun _ ↦ 0) fuel
      (messageData endlessMessage) = none) ∧
    ¬Progresses Params.default UserEnv.sample (fun _ ↦ 0) (messageData endlessMessage) := by
  have hnone : ∀ fuel, userRequest Params.default UserEnv.sample (fun _ ↦ 0) fuel
      (messageData endlessMessage) = none := by
    intro fuel
    refine RequestState.loop_eq_none (s := RequestState.fields UserEnv.sample
      (messageData endlessMessage) (RequestState.first (messageData endlessMessage)))
      ⟨_, .refl, by decide, .refl⟩ (by decide) (by decide) (Or.inl (by decide)) fuel []
  refine ⟨hnone, fun h ↦ ?_⟩
  obtain ⟨fuel, conns, hconns⟩ := h.returns
  exact absurd (hconns.symm.trans (hnone fuel)) (by simp)

end Nufw
