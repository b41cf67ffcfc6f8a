import Nufw.Nuauth.UserProgress

/-!
# The grammar of user messages

What a message of a user should look like: requests one behind the other, each of them a header and
fields one behind the other (`RequestsTile`, `FieldsTile`), and a field at least as long as the
structure of its type. The connection of a request is then a function of the bytes of its fields
alone (`requestConnection`).

`user_request` compares the length of a field with what is left of the request, and the size of the
structure too; it does not compare the two. So a message for which it returns connections is in the
grammar if and only if no field the parser comes to is shorter than its structure
(`user_request_grammar_iff`).
-/

namespace Nufw

/-! ### Messages -/

/-- The size of the structure that is read for a type of field. -/
def fieldSize (type : UInt8) : ℕ :=
  if type = ipv6Field then 44
  else if type = ipv4Field then 20
  else if type = helloField then 8
  else 4

/-- Fields one behind the other, from an offset to `stop`, by their offsets. -/
inductive FieldsTile (m : Memory) (stop : ℕ) : ℕ → List ℕ → Prop
  | nil : FieldsTile m stop stop []
  | cons {o : ℕ} {fields : List ℕ} (hsize : fieldSize (m o) ≤ (m.be16 (o + 2)).toNat)
    (hstop : o + (m.be16 (o + 2)).toNat ≤ stop)
    (hrest : FieldsTile m stop (o + (m.be16 (o + 2)).toNat) fields) :
    FieldsTile m stop o (o :: fields)

/-- **Requests one behind the other**, from an offset to `stop`, each of which is covered by its
fields. -/
inductive RequestsTile (m : Memory) (stop : ℕ) : ℕ → List (ℕ × List ℕ) → Prop
  | nil : RequestsTile m stop stop []
  | cons {start : ℕ} {fields : List ℕ} {requests : List (ℕ × List ℕ)}
    (hheader : 4 ≤ (m.be16 (start + 2)).toNat)
    (hstop : start + (m.be16 (start + 2)).toNat ≤ stop)
    (hfields : FieldsTile m (start + (m.be16 (start + 2)).toNat) (start + 4) fields)
    (hrest : RequestsTile m stop (start + (m.be16 (start + 2)).toNat) requests) :
    RequestsTile m stop start ((start, fields) :: requests)

theorem FieldsTile.le {m : Memory} {stop o : ℕ} {fields : List ℕ} (h : FieldsTile m stop o fields) :
    o ≤ stop := by
  cases h with
  | nil => exact Nat.le_refl _
  | cons _ hstop _ => omega

/-- The bytes of a field, and nothing behind them. -/
def fieldExtent (m : Memory) (o : ℕ) : Memory :=
  fun i ↦ if i < (m.be16 (o + 2)).toNat then m (o + i) else 0

/-- What a field gives a connection, from its own bytes. -/
def fieldConnection (conf : Params) (env : UserEnv) (m : Memory) (c : Connection) (o : ℕ) :
    Option Connection :=
  userProcessFieldType conf env c (m.be16 (o + 2)).toNat ((fieldExtent m o).swap16 env.order 2)

/-- **The connection of a request**, from the bytes of its fields. -/
def requestConnection (conf : Params) (env : UserEnv) (clock : ℕ → Int) (data : TlsBufferRead)
    (request : ℕ × List ℕ) : Option Connection :=
  (request.2.foldlM (fieldConnection conf env data.buffer) (newUserConnection data)).bind
    (userRequestEnd conf data (clock request.1))

/-- **The message is in the grammar**, and the connections are those of its requests, in the
opposite order. -/
def InGrammar (conf : Params) (env : UserEnv) (clock : ℕ → Int) (data : TlsBufferRead)
    (conns : List Connection) : Prop :=
  ∃ requests, RequestsTile data.buffer data.bufferLen 4 requests ∧
    requests.mapM (requestConnection conf env clock data) = some conns.reverse

/-! ### One field -/

theorem four_le_fieldSize (type : UInt8) : 4 ≤ fieldSize type := by
  rw [fieldSize]
  split_ifs <;> omega

section Field

variable {conf : Params} {env : UserEnv} {c : Connection} {field field' : Memory} {n : ℕ}

theorem ipv6_congr (h : ∀ i < n, field i = field' i) (hn : 44 ≤ n) :
    userProcessFieldIpv6 c field = userProcessFieldIpv6 c field' := by
  rw [userProcessFieldIpv6, userProcessFieldIpv6, Memory.bytes_congr h (by omega),
    Memory.bytes_congr h (by omega), h 36 (by omega), Memory.be16_congr h (by omega),
    Memory.be16_congr h (by omega)]

theorem ipv4_congr (h : ∀ i < n, field i = field' i) (hn : 20 ≤ n) :
    userProcessFieldIpv4 c field = userProcessFieldIpv4 c field' := by
  rw [userProcessFieldIpv4, userProcessFieldIpv4, Memory.bytes_congr h (by omega),
    Memory.bytes_congr h (by omega), h 12 (by omega), Memory.be16_congr h (by omega),
    Memory.be16_congr h (by omega)]

theorem contentLength_eq (h : (field.host16 env.order 2).toNat = n) (hn : 4 ≤ n) :
    contentLength env field = n - 4 := by
  have hlt := (field.host16 env.order 2).toNat_lt
  rw [contentLength]
  omega

/-- **A field that is as long as its structure is read from its own bytes.** -/
theorem type_congr {room : Int} (h : ∀ i < n, field i = field' i)
    (hlength : (field.host16 env.order 2).toNat = n) (hsize : fieldSize (field 0) ≤ n)
    (hroom : n ≤ room) :
    userProcessFieldType conf env c room field = userProcessFieldType conf env c n field' := by
  have hfour : 4 ≤ n := Nat.le_trans (four_le_fieldSize _) hsize
  have hlength' : (field'.host16 env.order 2).toNat = n := by
    rw [← hlength, Memory.host16_congr env.order (h 2 (by omega)) (h 3 (by omega))]
  have hcontent := contentLength_eq hlength hfour
  have hcontent' := contentLength_eq hlength' hfour
  have hbytes : (field.bytes 4 (n - 4)) = field'.bytes 4 (n - 4) :=
    Memory.bytes_congr h (by omega)
  unfold userProcessFieldType
  dsimp only
  rw [← h 0 (by omega), hlength, hlength']
  rw [fieldSize] at hsize
  by_cases h6 : field 0 = ipv6Field
  · rw [if_pos h6] at hsize
    rw [if_pos h6, if_pos h6, if_neg (show ¬room < 44 by omega),
      if_neg (show ¬(n : Int) < 44 by omega), ipv6_congr h hsize]
  rw [if_neg h6] at hsize
  rw [if_neg h6, if_neg h6]
  by_cases h4 : field 0 = ipv4Field
  · rw [if_pos h4] at hsize
    rw [if_pos h4, if_pos h4, if_neg (show ¬room < 20 by omega),
      if_neg (show ¬(n : Int) < 20 by omega), ipv4_congr h hsize]
  rw [if_neg h4] at hsize
  rw [if_neg h4, if_neg h4]
  by_cases happ : field 0 = appField
  · rw [if_pos happ, if_pos happ, if_neg (by omega), if_neg (by omega), userProcessFieldApp,
      userProcessFieldApp, hlength, hlength', hcontent, hcontent', hbytes]
  rw [if_neg happ, if_neg happ]
  by_cases hhash : field 0 = hashField
  · rw [if_pos hhash, if_pos hhash, if_neg (by omega), if_neg (by omega), userProcessFieldHash,
      userProcessFieldHash, hlength, hlength', hcontent, hcontent', hbytes]
  rw [if_neg hhash, if_neg hhash]
  by_cases hhello : field 0 = helloField
  · rw [if_pos hhello] at hsize
    have hid : field.host32 env.order 4 = field'.host32 env.order 4 :=
      Memory.host32_congr env.order fun i hi ↦ h _ (by omega)
    rw [if_pos hhello, if_pos hhello, if_neg (by omega), if_neg (by omega), userProcessFieldHello,
      userProcessFieldHello, hid]
  · rw [if_neg hhello, if_neg hhello]

end Field

/-! ### The fields of a request -/

namespace FieldState

variable {conf : Params} {env : UserEnv} {m₀ : Memory} {s s' : FieldState}

/-- Nothing has been converted from the field on. -/
def Untouched (m₀ : Memory) (s : FieldState) : Prop := ∀ i, s.offset ≤ i → s.memory i = m₀ i

theorem Untouched.length_eq (h : s.Untouched m₀) : s.length = (m₀.be16 (s.offset + 2)).toNat := by
  rw [length, Memory.be16, Memory.be16, h _ (by omega), h _ (by omega)]

/-- A turn over a field that is not shorter than its header. -/
theorem Untouched.turn (h : s.Untouched m₀) (hturn : s.turn conf env = some s')
    (hlength : 4 ≤ s.length) : s'.Untouched m₀ := by
  obtain ⟨-, -, hmemory, hoffset, -⟩ := turn_eq_some hturn
  intro i hi
  rw [hmemory, Memory.swap16_of_ne _ _ (by omega) (by omega)]
  exact h i (by omega)

/-- **A field that is as long as its structure gives the connection what its own bytes say.** -/
theorem Untouched.fieldConnection (h : s.Untouched m₀) (hturn : s.turn conf env = some s')
    (hsize : fieldSize (s.memory s.offset) ≤ s.length) :
    fieldConnection conf env m₀ s.connection s.offset = some s'.connection := by
  obtain ⟨-, hroom, -, -, -, htype⟩ := turn_eq_some hturn
  have hfour : 4 ≤ s.length := Nat.le_trans (four_le_fieldSize _) hsize
  have hlength := h.length_eq
  have hzero : (s.memory.swap16 env.order (s.offset + 2)).drop s.offset 0 = s.memory s.offset :=
    Memory.swap16_of_ne _ _ (by omega) (by omega)
  -- the bytes of the field, with its length converted
  have hsame : ∀ i < s.length, (s.memory.swap16 env.order (s.offset + 2)).drop s.offset i =
      (fieldExtent m₀ s.offset).swap16 env.order 2 i := by
    intro i hi
    have hextent : ∀ j < s.length, fieldExtent m₀ s.offset j = s.memory (s.offset + j) := by
      intro j hj
      rw [fieldExtent, if_pos (by omega), h _ (by omega)]
    rw [Memory.drop]
    cases env.order with
    | big => exact (hextent i hi).symm
    | little =>
      dsimp only [Memory.swap16]
      rw [hextent _ hi, hextent 2 (by omega), hextent (2 + 1) (by omega)]
      split_ifs <;> first
        | rfl
        | omega
  rw [Nufw.fieldConnection, ← hlength]
  have hlength' : (((s.memory.swap16 env.order (s.offset + 2)).drop s.offset).host16
      env.order 2).toNat = s.length := by
    rw [Memory.host16_drop, Memory.host16_swap16]
    rfl
  rw [type_congr hsame hlength' (by rw [hzero]; exact hsize) hroom] at htype
  exact htype

/-- **The fields of a request that has been read** lie one behind the other. -/
theorem Untouched.exists_tile {fuel : ℕ} {m : Memory} {c : Connection} {stop : ℕ}
    (h : s.Untouched m₀) (hstop : (s.offset : Int) + s.room = stop) (hroom : 0 ≤ s.room)
    (hsize : ∀ s', Leads conf env s s' → 4 ≤ s'.room →
      fieldSize (s'.memory s'.offset) ≤ s'.length)
    (hloop : s.loop conf env fuel = some (some (m, c))) :
    (∃ fields, FieldsTile m₀ stop s.offset fields ∧
      fields.foldlM (Nufw.fieldConnection conf env m₀) s.connection = some c) ∧
      ∀ i, stop ≤ i → m i = m₀ i := by
  induction fuel generalizing s with
  | zero => cases hloop
  | succ fuel ih =>
    rw [loop_succ] at hloop
    split_ifs at hloop with hend
    · obtain ⟨rfl, rfl⟩ := Prod.mk.inj (Option.some.inj (Option.some.inj hloop))
      obtain rfl : s.offset = stop := by omega
      exact ⟨⟨[], .nil, rfl⟩, h⟩
    · cases hturn : s.turn conf env with
      | none =>
        rw [hturn] at hloop
        cases hloop
      | some s' =>
        rw [hturn] at hloop
        obtain ⟨hfour, hlong, -, hoffset, hroom', -⟩ := turn_eq_some hturn
        have hfield := hsize s .refl hfour
        have hlength := h.length_eq
        have hheader := Nat.le_trans (four_le_fieldSize _) hfield
        obtain ⟨⟨fields, htile, hfold⟩, hrest⟩ := ih (h.turn hturn hheader) (by omega) (by omega)
          (fun s'' hleads ↦ hsize s'' (.head hturn hleads)) hloop
        refine ⟨⟨s.offset :: fields, .cons ?_ ?_ ?_, ?_⟩, hrest⟩
        · rw [← h s.offset (Nat.le_refl _), ← hlength]
          exact hfield
        · omega
        · rw [← hlength, ← hoffset]
          exact htile
        · rw [List.foldlM_cons, h.fieldConnection hturn hfield]
          exact hfold

/-- The fields the loop comes to are those of the tiling. -/
theorem Leads.exists_tile {stop : ℕ} (hleads : Leads conf env s s') (h : s.Untouched m₀)
    (hstop : (s.offset : Int) + s.room = stop)
    (htile : ∃ fields, FieldsTile m₀ stop s.offset fields) :
    s'.Untouched m₀ ∧ (s'.offset : Int) + s'.room = stop ∧
      ∃ fields, FieldsTile m₀ stop s'.offset fields := by
  induction hleads with
  | refl => exact ⟨h, hstop, htile⟩
  | tail _ hturn ih =>
    obtain ⟨huntouched, hstop', fields, htile'⟩ := ih
    obtain ⟨hfour, hlong, -, hoffset, hroom', -⟩ := turn_eq_some hturn
    have hlength := huntouched.length_eq
    cases htile' with
    | nil => omega
    | @cons _ fields hfield hle hrest =>
      have hheader := Nat.le_trans (four_le_fieldSize _) hfield
      refine ⟨huntouched.turn hturn (by omega), by omega, fields, ?_⟩
      rw [hoffset, hlength]
      exact hrest

/-- A field of a tiling is not shorter than its structure. -/
theorem Untouched.fieldSize_le {stop : ℕ} (h : s.Untouched m₀)
    (hstop : (s.offset : Int) + s.room = stop) (hroom : 4 ≤ s.room) {fields : List ℕ}
    (htile : FieldsTile m₀ stop s.offset fields) :
    fieldSize (s.memory s.offset) ≤ s.length := by
  cases htile with
  | nil => omega
  | cons hfield =>
    rw [h _ (Nat.le_refl _), h.length_eq]
    exact hfield

end FieldState

/-! ### The requests of a message -/

namespace RequestState

variable {conf : Params} {env : UserEnv} {data : TlsBufferRead} {clock : ℕ → Int} {m₀ : Memory}
  {r r' : RequestState}

/-- Nothing has been converted from the request on. -/
def Untouched (m₀ : Memory) (r : RequestState) : Prop := ∀ i, r.start ≤ i → r.memory i = m₀ i

theorem Untouched.length_eq (h : r.Untouched m₀) : r.length = (m₀.be16 (r.start + 2)).toNat := by
  rw [length, Memory.be16, Memory.be16, h _ (by omega), h _ (by omega)]

theorem Untouched.fields (h : r.Untouched m₀) : (r.fields env data).Untouched m₀ := by
  intro i hi
  have hoffset : (r.fields env data).offset = r.start + 4 := rfl
  show r.memory.swap16 env.order (r.start + 2) i = m₀ i
  rw [Memory.swap16_of_ne _ _ (by omega) (by omega)]
  exact h i (by omega)

/-- Where the fields of a request end. -/
theorem fields_stop (r : RequestState) (env : UserEnv) (data : TlsBufferRead) :
    ((r.fields env data).offset : Int) + (r.fields env data).room = (r.start + r.length : ℕ) := by
  rw [RequestState.fields]
  push_cast
  omega

/-- **The requests of a message that has been read** lie one behind the other. -/
theorem Untouched.exists_tile {fuel : ℕ} {connElts conns : List Connection} {stop : ℕ}
    (h : r.Untouched data.buffer) (hstop : (r.start : Int) + r.room = stop) (hroom : 0 ≤ r.room)
    (hsize : ∀ s, r.Meets conf env data clock s → 4 ≤ s.room →
      fieldSize (s.memory s.offset) ≤ s.length)
    (hne : conns ≠ []) (hloop : r.loop conf env data clock fuel connElts = some conns) :
    ∃ requests kept, RequestsTile data.buffer stop r.start requests ∧
      requests.mapM (requestConnection conf env clock data) = some kept ∧
      conns = kept.reverse ++ connElts := by
  induction fuel generalizing r connElts with
  | zero => cases hloop
  | succ fuel ih =>
    rw [loop_succ] at hloop
    split_ifs at hloop with hend hopens
    · obtain rfl := Option.some.inj hloop
      obtain rfl : r.start = stop := by omega
      exact ⟨[], [], .nil, rfl, rfl⟩
    · cases hfields : (r.fields env data).loop conf env fuel with
      | none =>
        rw [hfields] at hloop
        cases hloop
      | some o =>
        rw [hfields] at hloop
        cases o with
        | none => exact absurd (Option.some.inj hloop).symm hne
        | some mc =>
          obtain ⟨m, c⟩ := mc
          dsimp only at hloop
          cases hkept : userRequestEnd conf data (clock r.start) c with
          | none =>
            rw [hkept] at hloop
            exact absurd (Option.some.inj hloop).symm hne
          | some c' =>
            rw [hkept] at hloop
            obtain ⟨s, hleads, hend', rfl, rfl⟩ := FieldState.exists_leads_of_loop hfields
            generalize hr' : (⟨s.memory, r.start + (s.memory.host16 env.order (r.start + 2)).toNat,
              r.room - (s.memory.host16 env.order (r.start + 2)).toNat⟩ :
                RequestState) = r' at hloop
            have hturn : r.Turn conf env data clock r' :=
              ⟨hopens, s, hleads, hend', by rw [hkept]; rfl, hr'.symm⟩
            have hmemory : r'.memory = s.memory := by rw [← hr']
            obtain ⟨hheader, hstart, hroom'⟩ := hturn.length_ge
            have hlength := h.length_eq
            obtain ⟨⟨fields, htile, hfold⟩, hrest⟩ := h.fields.exists_tile (fields_stop _ env data)
              (by rw [RequestState.fields]; dsimp only; omega)
              (fun s' hleads' ↦ hsize s' ⟨r, .refl, hopens, hleads'⟩) hfields
            have huntouched : r'.Untouched data.buffer := by
              intro i hi
              rw [hmemory]
              exact hrest i (by omega)
            have hlong := hopens.2.2
            have hsize' : ∀ s', r'.Meets conf env data clock s' → 4 ≤ s'.room →
                fieldSize (s'.memory s'.offset) ≤ s'.length := by
              intro s' hmeets
              obtain ⟨r'', hr'', hs'⟩ := hmeets
              exact hsize s' ⟨r'', .head hturn hr'', hs'⟩
            obtain ⟨requests, kept, hrequests, hmap, hconns⟩ := ih huntouched (by omega) (by omega)
              hsize' hloop
            rw [hstart, hlength] at hrequests
            refine ⟨(r.start, fields) :: requests, c' :: kept, .cons ?_ ?_ ?_ hrequests, ?_, ?_⟩
            · omega
            · omega
            · rw [← hlength]
              exact htile
            · have hrequest :
                  requestConnection conf env clock data (r.start, fields) = some c' := by
                rw [requestConnection]
                dsimp only
                rw [show newUserConnection data = (r.fields env data).connection from rfl, hfold]
                exact hkept
              rw [List.mapM_cons, hrequest, hmap]
              rfl
            · rw [hconns]
              simp
    · exact absurd (Option.some.inj hloop).symm hne

/-- The requests the loop comes to are those of the tiling. -/
theorem Leads.exists_tile {stop : ℕ} (hleads : Leads conf env data clock r r')
    (h : r.Untouched m₀) (hstop : (r.start : Int) + r.room = stop)
    (htile : ∃ requests, RequestsTile m₀ stop r.start requests) :
    r'.Untouched m₀ ∧ (r'.start : Int) + r'.room = stop ∧
      ∃ requests, RequestsTile m₀ stop r'.start requests := by
  induction hleads with
  | refl => exact ⟨h, hstop, htile⟩
  | tail _ hturn ih =>
    obtain ⟨huntouched, hstop', requests, htile'⟩ := ih
    obtain ⟨hheader, hstart, hroom⟩ := hturn.length_ge
    obtain ⟨hopens, s, hfields, hend, -, rfl⟩ := hturn
    have hlength := huntouched.length_eq
    have hopen := hopens.1
    cases htile' with
    | nil => omega
    | @cons _ _ requests _ hle htiles hrest =>
      rw [← hlength] at htiles
      obtain ⟨huntouched', hsum, fields', hfields'⟩ := hfields.exists_tile huntouched.fields
        (fields_stop _ env data) ⟨_, htiles⟩
      dsimp only at hstart hroom
      have hle' := hfields'.le
      refine ⟨fun i hi ↦ huntouched' i ?_, ?_, requests, ?_⟩
      · dsimp only at hi
        omega
      · dsimp only
        omega
      · dsimp only
        rw [hstart, hlength]
        exact hrest

/-- **No field of a tiling is shorter than its structure.** -/
theorem Meets.fieldSize_le {stop : ℕ} {s : FieldState} (hmeets : r.Meets conf env data clock s)
    (h : r.Untouched m₀) (hstop : (r.start : Int) + r.room = stop)
    (htile : ∃ requests, RequestsTile m₀ stop r.start requests) (hroom : 4 ≤ s.room) :
    fieldSize (s.memory s.offset) ≤ s.length := by
  obtain ⟨r', hleads, hopens, hfields⟩ := hmeets
  obtain ⟨huntouched, hstop', requests, htile'⟩ := hleads.exists_tile h hstop htile
  have hlength := huntouched.length_eq
  have hopen := hopens.1
  cases htile' with
  | nil => omega
  | cons hheader hle htiles hrest =>
    rw [← hlength] at htiles hheader
    obtain ⟨huntouched', hsum, fields', hfields'⟩ := hfields.exists_tile huntouched.fields
      (fields_stop _ env data) ⟨_, htiles⟩
    exact huntouched'.fieldSize_le hsum hroom hfields'

end RequestState

/-- **When `user_request` accepts only its grammar.** A message for which it returns connections is
in the grammar if and only if no field that the parser comes to is shorter than the structure of its
type. -/
theorem user_request_grammar_iff {conf : Params} {env : UserEnv} {clock : ℕ → Int} {fuel : ℕ}
    {data : TlsBufferRead} {conns : List Connection}
    (h : userRequest conf env clock fuel data = some conns) (hne : conns ≠ []) :
    InGrammar conf env clock data conns ↔
      ∀ s, (RequestState.first data).Meets conf env data clock s → 4 ≤ s.room →
        fieldSize (s.memory s.offset) ≤ s.length := by
  have huntouched : (RequestState.first data).Untouched data.buffer := fun _ _ ↦ rfl
  have hstop : ((RequestState.first data).start : Int) + (RequestState.first data).room =
      data.bufferLen := by
    rw [RequestState.first]
    push_cast
    omega
  constructor
  · rintro ⟨requests, htile, -⟩ s hmeets hroom
    exact hmeets.fieldSize_le huntouched hstop ⟨requests, htile⟩ hroom
  · intro hsize
    -- a message that is shorter than its header has no connections
    have hroom : 0 ≤ (RequestState.first data).room := by
      by_contra hshort
      cases fuel with
      | zero => cases h
      | succ fuel =>
        have hnil :
            (RequestState.first data).loop conf env data clock (fuel + 1) [] = some conns := h
        rw [RequestState.loop_succ, if_pos (by omega)] at hnil
        exact hne (Option.some.inj hnil).symm
    obtain ⟨requests, kept, htile, hmap, hconns⟩ :=
      huntouched.exists_tile hstop hroom hsize hne h
    refine ⟨requests, htile, ?_⟩
    rw [hmap, hconns, List.append_nil, List.reverse_reverse]

/-- The announcement of the example is in the grammar. -/
theorem synUserMessage_inGrammar :
    ∃ conns, userRequest Params.default UserEnv.sample (fun _ ↦ 0) 4 (messageData synUserMessage) =
        some conns ∧ conns ≠ [] ∧
      InGrammar Params.default UserEnv.sample (fun _ ↦ 0) (messageData synUserMessage) conns ∧
      ∀ s, (RequestState.first (messageData synUserMessage)).Meets Params.default UserEnv.sample
          (messageData synUserMessage) (fun _ ↦ 0) s → 4 ≤ s.room →
        fieldSize (s.memory s.offset) ≤ s.length := by
  have hone : (userRequest Params.default UserEnv.sample (fun _ ↦ 0) 4
      (messageData synUserMessage)).any (fun conns ↦ conns.length = 1) = true := by decide +kernel
  obtain ⟨conns, hconns, hlength⟩ := Option.any_eq_true _ _ |>.1 hone
  have hne : conns ≠ [] := by
    rintro rfl
    cases hlength
  have htile : RequestsTile (Memory.ofBytes synUserMessage) 60 4 [(4, [8, 52])] :=
    .cons (by decide) (by decide) (.cons (by decide) (by decide)
      (.cons (by decide) (by decide) .nil)) .nil
  have hgrammar : InGrammar Params.default UserEnv.sample (fun _ ↦ 0)
      (messageData synUserMessage) conns := by
    refine ⟨[(4, [8, 52])], htile, ?_⟩
    have hsame : [(4, [8, 52])].mapM (requestConnection Params.default UserEnv.sample (fun _ ↦ 0)
        (messageData synUserMessage)) = (userRequest Params.default UserEnv.sample (fun _ ↦ 0) 4
          (messageData synUserMessage)).map List.reverse := by rfl
    rw [hsame, hconns]
    rfl
  exact ⟨conns, hconns, hne, hgrammar, (user_request_grammar_iff hconns hne).1 hgrammar⟩

/-- A request with a hello field of four bytes, and an empty application field behind it. -/
def shortHelloMessage : Bytes := [0x36, 0, 0, 16, 0, 0, 0, 12, 6, 0, 0, 4, 3, 0, 0, 4]

/-- **The identifier of a short hello is taken from the next field.** -/
theorem shortHelloMessage_not_inGrammar :
    ∃ conns, userRequest Params.default UserEnv.sample (fun _ ↦ 0) 4
        (messageData shortHelloMessage) = some conns ∧
      conns.map (fun c ↦ c.packetId.map (fun p ↦ p.id)) = [[0x04000003]] ∧
      ¬InGrammar Params.default UserEnv.sample (fun _ ↦ 0)
        (messageData shortHelloMessage) conns := by
  have hone : (userRequest Params.default UserEnv.sample (fun _ ↦ 0) 4
      (messageData shortHelloMessage)).any (fun conns ↦
        conns.map (fun c ↦ c.packetId.map (fun p ↦ p.id)) = [[0x04000003]]) = true := by
    decide +kernel
  obtain ⟨conns, hconns, hid⟩ := Option.any_eq_true _ _ |>.1 hone
  refine ⟨conns, hconns, of_decide_eq_true hid, ?_⟩
  rintro ⟨requests, htile, -⟩
  have hmeets : (RequestState.first (messageData shortHelloMessage)).Meets Params.default
      UserEnv.sample (messageData shortHelloMessage) (fun _ ↦ 0)
      ((RequestState.first (messageData shortHelloMessage)).fields UserEnv.sample
        (messageData shortHelloMessage)) := ⟨_, .refl, by decide, .refl⟩
  have hsize := hmeets.fieldSize_le (fun _ _ ↦ rfl) (by decide) ⟨requests, htile⟩ (by decide)
  exact absurd hsize (by decide)

end Nufw
