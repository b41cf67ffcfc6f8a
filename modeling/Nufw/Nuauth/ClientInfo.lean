import Nufw.Nuauth.PasswordCheck

/-!
# What a client says about itself

Three functions of `tls_sasl.c` that read the answers of a client during the negotiation: its
operating system, its name and version, and its capabilities. An answer is one field with a header
of four bytes and a text in base 64. The three are alike up to what they do with the text
(`parseField`).

The length in the header is compared with two constants, and never with the number of bytes that
were received. So an answer can be accepted whose text was partly in the buffer before
(`usesReceived_iff`). All else is as it should be: a rejected answer leaves the session alone, and
the text ends in its buffer.
-/

namespace Nufw

/-- What `user_session_t` has from these answers. -/
structure ClientInfo where
  sysname : Option Bytes
  release : Option Bytes
  version : Option Bytes
  clientName : Option Bytes
  clientVersion : Option Bytes
  capaFlags : UInt32
  deriving DecidableEq

/-- Before the negotiation. -/
def ClientInfo.start : ClientInfo := ⟨none, none, none, none, none, 0⟩

/-- `OS_FIELD`. -/
def osField : UInt8 := 4
/-- `VERSION_FIELD`. -/
def versionField : UInt8 := 5
/-- `CAPA_FIELD`. -/
def capaField : UInt8 := 7
/-- `CLIENT_SRV`, and `OS_SRV`. -/
def clientSrv : UInt8 := 1

/-- `UNKNOWN_STRING`. -/
def unknownString : Bytes := ascii "UNKNOWN"

/-! ### Texts -/

section

variable (conf : Params) (env : UserEnv)

/-- The pointer that `string_escape` returns. -/
def escaped (orig : Bytes) : Option Bytes := some (stringEscape conf env orig)

/-- A text as it is stored. -/
def storedText (text : Bytes) : Option Bytes :=
  if text.length < 128 then escaped conf env text else some unknownString

/-! ### The parsers -/

/-- The text of a field, in a buffer of the length that is announced, with zeros behind it. -/
def decodeField (fieldType : UInt8) (buf : Memory) (bufSize : ℕ) : Except SaslResult Bytes :=
  if bufSize < 4 then .error .fail
  else if buf 0 ≠ fieldType then .error .fail
  else
    let decBufSize := (buf.be16 2).toNat
    if 1024 < decBufSize ∨ decBufSize ≤ 4 then .error .badAuth
    else
      match env.saslDecode64 (buf.bytes 4 (decBufSize - 4)).toList with
      | none => .error .badAuth
      | some decoded => .ok (decoded ++ List.replicate (decBufSize - decoded.length) 0)

/-- What the three functions have in common. -/
def parseField (fieldType : UInt8) (use : Bytes → ClientInfo → SaslResult × ClientInfo)
    (buf : Memory) (bufSize : ℕ) (s : ClientInfo) : SaslResult × ClientInfo :=
  match decodeField env fieldType buf bufSize with
  | .error e => (e, s)
  | .ok decBuf => if buf 1 = clientSrv then use (cString decBuf) s else (.fail, s)

/-- What `parse_user_os` does with the text. -/
def useOs (text : Bytes) (s : ClientInfo) : SaslResult × ClientInfo :=
  match strsplitMax text 59 5 with
  | sysname :: release :: version :: _ =>
    let s := { s with sysname := storedText conf env sysname }
    if s.sysname = none then (.badAuth, s)
    else
      let s := { s with release := storedText conf env release }
      if s.release = none then (.badAuth, s)
      else
        let s := { s with version := storedText conf env version }
        if s.version = none then (.badAuth, s) else (.ok, s)
  | _ => (.badAuth, s)

/-- What `parse_user_version` does with the text. -/
def useVersion (text : Bytes) (s : ClientInfo) : SaslResult × ClientInfo :=
  match strsplitMax text 59 2 with
  | clientName :: clientVersion :: _ =>
    let s := { s with clientName := storedText conf env clientName }
    if s.clientName = none then (.badAuth, s)
    else
      let s := { s with clientVersion := storedText conf env clientVersion }
      if s.clientVersion = none then (.badAuth, s) else (.ok, s)
  | _ => (.badAuth, s)

/-- The loop of `add_client_capa`, over the capabilities that modules have registered. -/
def addClientCapaFrom (capaArray : ℕ → Option Bytes) (value : Bytes) :
    ℕ → ℕ → UInt32 → SaslResult × UInt32
  | 0, _, flags => (.notDone, flags)
  | n + 1, i, flags =>
    match capaArray i with
    | none => (.notDone, flags)
    | some capa =>
      if capa = value then (.ok, flags ||| 1 <<< UInt32.ofNat i)
      else addClientCapaFrom capaArray value n (i + 1) flags

/-- `add_client_capa`. -/
def addClientCapa (capaArray : ℕ → Option Bytes) (value : Bytes) (flags : UInt32) :
    SaslResult × UInt32 := addClientCapaFrom capaArray value 32 0 flags

/-- The loop of `parse_user_capabilities`. -/
def addClientCapas (capaArray : ℕ → Option Bytes) :
    List Bytes → ClientInfo → SaslResult × ClientInfo
  | [], s => (.ok, s)
  | value :: values, s =>
    let r := addClientCapa capaArray value s.capaFlags
    let s := { s with capaFlags := r.2 }
    if r.1 = .fail then (.fail, s) else addClientCapas capaArray values s

/-- What `parse_user_capabilities` does with the text; `g_strsplit` has no limit here. -/
def useCapabilities (capaArray : ℕ → Option Bytes) (text : Bytes) (s : ClientInfo) :
    SaslResult × ClientInfo :=
  addClientCapas capaArray (if text = [] then [] else text.splitOn 59) s

/-- `parse_user_os`. -/
def parseUserOs (buf : Memory) (bufSize : ℕ) (s : ClientInfo) : SaslResult × ClientInfo :=
  parseField env osField (useOs conf env) buf bufSize s

/-- `parse_user_version`. -/
def parseUserVersion (buf : Memory) (bufSize : ℕ) (s : ClientInfo) : SaslResult × ClientInfo :=
  parseField env versionField (useVersion conf env) buf bufSize s

/-- `parse_user_capabilities`. -/
def parseUserCapabilities (capaArray : ℕ → Option Bytes) (buf : Memory) (bufSize : ℕ)
    (s : ClientInfo) : SaslResult × ClientInfo :=
  parseField env capaField (useCapabilities capaArray) buf bufSize s

end

/-! ### What is done with the text -/

/-- The number of tokens. -/
theorem length_strsplitFrom (delimiter : UInt8) (n : ℕ) (string : Bytes) :
    (strsplitFrom delimiter n string).length = min n (string.count delimiter) + 1 := by
  induction n generalizing string with
  | zero => simp [strsplitFrom]
  | succ n ih =>
    rw [strsplitFrom]
    by_cases hmem : delimiter ∈ string
    · obtain ⟨token, rest, rfl, htoken⟩ := List.eq_append_cons_of_mem hmem
      rw [strchr_append htoken, List.count_append, List.count_cons_self,
        List.count_eq_zero.2 htoken]
      dsimp only
      rw [List.length_cons, ih]
      omega
    · rw [strchr, if_neg hmem, List.count_eq_zero.2 hmem]
      rfl

/-- There is one token more than delimiters, up to the limit. -/
theorem le_length_strsplitMax {string : Bytes} {delimiter : UInt8} {maxTokens k : ℕ}
    (hk : 0 < k) (hmax : k < maxTokens) :
    k < (strsplitMax string delimiter maxTokens).length ↔ k ≤ string.count delimiter := by
  rw [strsplitMax]
  split_ifs with hnil
  · rw [hnil, List.length_nil, List.count_nil]
    omega
  · rw [length_strsplitFrom]
    omega

/-- A text is accepted if it has enough parts, and otherwise the session stays as it is. -/
def Careful (use : Bytes → ClientInfo → SaslResult × ClientInfo) (parts : ℕ) : Prop :=
  ∀ text s, ((use text s).1 = .ok ∧ parts ≤ text.count 59) ∨
    (use text s = (.badAuth, s) ∧ ¬parts ≤ text.count 59)

section

variable {conf : Params} {env : UserEnv}

/-- `string_escape` never returns `NULL`. -/
theorem storedText_ne_none (text : Bytes) : storedText conf env text ≠ none := by
  rw [storedText, escaped]
  split_ifs <;> exact Option.some_ne_none _

theorem useOs_careful : Careful (useOs conf env) 2 := by
  intro text s
  have hlength := @le_length_strsplitMax text 59 5 2 (by decide) (by decide)
  rw [useOs]
  generalize strsplitMax text 59 5 = tokens at hlength
  rw [← hlength]
  rcases tokens with _ | ⟨a, _ | ⟨b, _ | ⟨c, tokens⟩⟩⟩
  · exact Or.inr ⟨rfl, by simp⟩
  · exact Or.inr ⟨rfl, by simp⟩
  · exact Or.inr ⟨rfl, by simp⟩
  · refine Or.inl ⟨?_, by simp⟩
    dsimp only
    rw [if_neg (storedText_ne_none a), if_neg (storedText_ne_none b),
      if_neg (storedText_ne_none c)]

theorem useVersion_careful : Careful (useVersion conf env) 1 := by
  intro text s
  have hlength := @le_length_strsplitMax text 59 2 1 (by decide) (by decide)
  rw [useVersion]
  generalize strsplitMax text 59 2 = tokens at hlength
  rw [← hlength]
  rcases tokens with _ | ⟨a, _ | ⟨b, tokens⟩⟩
  · exact Or.inr ⟨rfl, by simp⟩
  · exact Or.inr ⟨rfl, by simp⟩
  · refine Or.inl ⟨?_, by simp⟩
    dsimp only
    rw [if_neg (storedText_ne_none a), if_neg (storedText_ne_none b)]

/-- `add_client_capa` does not fail. -/
theorem addClientCapaFrom_ne_fail (capaArray : ℕ → Option Bytes) (value : Bytes) (n i : ℕ)
    (flags : UInt32) : (addClientCapaFrom capaArray value n i flags).1 ≠ .fail := by
  induction n generalizing i with
  | zero => exact SaslResult.noConfusion
  | succ n ih =>
    rw [addClientCapaFrom]
    cases capaArray i with
    | none => exact SaslResult.noConfusion
    | some capa =>
      dsimp only
      split_ifs
      · exact SaslResult.noConfusion
      · exact ih (i + 1)

theorem addClientCapas_ok (capaArray : ℕ → Option Bytes) (values : List Bytes) (s : ClientInfo) :
    (addClientCapas capaArray values s).1 = .ok := by
  induction values generalizing s with
  | nil => rfl
  | cons value values ih =>
    have hne : (addClientCapa capaArray value s.capaFlags).1 ≠ .fail :=
      addClientCapaFrom_ne_fail capaArray value 32 0 s.capaFlags
    rw [addClientCapas, if_neg hne]
    exact ih _

theorem useCapabilities_careful (capaArray : ℕ → Option Bytes) :
    Careful (useCapabilities capaArray) 0 :=
  fun _ s ↦ Or.inl ⟨addClientCapas_ok capaArray _ s, Nat.zero_le _⟩

end

/-! ### What was received -/

/-- The field can be read, with whatever lies in the buffer. -/
def Readable (env : UserEnv) (fieldType : UInt8) (parts : ℕ) (buf : Memory) (bufSize : ℕ) : Prop :=
  4 ≤ bufSize ∧ buf 0 = fieldType ∧ buf 1 = clientSrv ∧
    4 < (buf.be16 2).toNat ∧ (buf.be16 2).toNat ≤ 1024 ∧
    ∃ decoded, env.saslDecode64 (buf.bytes 4 ((buf.be16 2).toNat - 4)).toList = some decoded ∧
      parts ≤ (cString decoded).count 59

/-- **Only what was received is used**: an answer that is rejected leaves no trace, one that is
accepted lies below `buf_size`, and a text that is decoded ends in its buffer. Behind what was
received the buffer is as it was. -/
def UsesReceived (env : UserEnv) (fieldType : UInt8)
    (parse : Memory → ℕ → ClientInfo → SaslResult × ClientInfo) (received : Bytes) (stale : Memory)
    (s : ClientInfo) : Prop :=
  let buf := stale.write 0 received
  let r := parse buf received.length s
  (r.1 ≠ .ok → r.2 = s) ∧ (r.1 = .ok → (buf.be16 2).toNat ≤ received.length) ∧
    ∀ decBuf, decodeField env fieldType buf received.length = .ok decBuf →
      decBuf.length = (buf.be16 2).toNat ∧ 0 ∈ decBuf

theorem decodeField_eq_ok_iff {env : UserEnv} {fieldType : UInt8} {buf : Memory} {bufSize : ℕ}
    {decBuf : Bytes} :
    decodeField env fieldType buf bufSize = .ok decBuf ↔
      4 ≤ bufSize ∧ buf 0 = fieldType ∧ 4 < (buf.be16 2).toNat ∧ (buf.be16 2).toNat ≤ 1024 ∧
        ∃ decoded, env.saslDecode64 (buf.bytes 4 ((buf.be16 2).toNat - 4)).toList = some decoded ∧
          decBuf = decoded ++ List.replicate ((buf.be16 2).toNat - decoded.length) 0 := by
  rw [decodeField]
  by_cases hsize : bufSize < 4
  · rw [if_pos hsize]
    exact iff_of_false (by simp) fun h ↦ absurd h.1 (not_le.2 hsize)
  rw [if_neg hsize]
  by_cases htype : buf 0 = fieldType
  swap
  · rw [if_pos htype]
    exact iff_of_false (by simp) fun h ↦ htype h.2.1
  rw [if_neg (not_not.2 htype)]
  dsimp only
  by_cases hlength : 1024 < (buf.be16 2).toNat ∨ (buf.be16 2).toNat ≤ 4
  · rw [if_pos hlength]
    refine iff_of_false (by simp) ?_
    rintro ⟨-, -, hgt, hle, -⟩
    omega
  rw [if_neg hlength]
  cases hdecode : env.saslDecode64 (buf.bytes 4 ((buf.be16 2).toNat - 4)).toList with
  | none =>
    refine iff_of_false (by simp) ?_
    rintro ⟨-, -, -, -, decoded, hsome, -⟩
    cases hsome
  | some decoded =>
    constructor
    · intro h
      obtain rfl := Except.ok.inj h
      exact ⟨by omega, htype, by omega, by omega, decoded, rfl, rfl⟩
    · rintro ⟨-, -, -, -, decoded', hsome, rfl⟩
      obtain rfl := Option.some.inj hsome
      rfl

/-- What is returned for a text that cannot be decoded. -/
theorem ne_ok_of_decodeField {env : UserEnv} {fieldType : UInt8} {buf : Memory} {bufSize : ℕ}
    {e : SaslResult} (h : decodeField env fieldType buf bufSize = .error e) : e ≠ .ok := by
  rw [decodeField] at h
  dsimp only at h
  split_ifs at h
  · cases h
    exact SaslResult.noConfusion
  · cases h
    exact SaslResult.noConfusion
  · cases h
    exact SaslResult.noConfusion
  · cases hdecode : env.saslDecode64 (buf.bytes 4 ((buf.be16 2).toNat - 4)).toList with
    | none =>
      rw [hdecode] at h
      cases h
      exact SaslResult.noConfusion
    | some decoded =>
      rw [hdecode] at h
      cases h

/-- Zeros behind a text are not part of it. -/
theorem cString_append_replicate (text : Bytes) (n : ℕ) :
    cString (text ++ List.replicate n 0) = cString text := by
  rw [cString, cString]
  induction text with
  | nil => cases n <;> rfl
  | cons c text ih =>
    by_cases hc : c = 0
    · simp [hc]
    · rw [List.cons_append, List.takeWhile_cons_of_pos (by simpa using hc),
        List.takeWhile_cons_of_pos (by simpa using hc), ih]

/-- **An answer is accepted exactly if it can be read**, and leaves the session alone otherwise. -/
theorem parseField_cases {env : UserEnv} {use : Bytes → ClientInfo → SaslResult × ClientInfo}
    {parts : ℕ} (huse : Careful use parts) (fieldType : UInt8) (buf : Memory) (bufSize : ℕ)
    (s : ClientInfo) :
    ((parseField env fieldType use buf bufSize s).1 = .ok ∧
        Readable env fieldType parts buf bufSize) ∨
      ((parseField env fieldType use buf bufSize s).1 ≠ .ok ∧
        (parseField env fieldType use buf bufSize s).2 = s ∧
        ¬Readable env fieldType parts buf bufSize) := by
  rw [parseField]
  cases hdecode : decodeField env fieldType buf bufSize with
  | error e =>
    refine Or.inr ⟨ne_ok_of_decodeField hdecode, rfl, ?_⟩
    rintro ⟨hsize, htype, -, hgt, hle, decoded, hdecoded, -⟩
    rw [decodeField_eq_ok_iff.2 ⟨hsize, htype, hgt, hle, decoded, hdecoded, rfl⟩] at hdecode
    cases hdecode
  | ok decBuf =>
    obtain ⟨hsize, htype, hgt, hle, decoded, hdecoded, rfl⟩ := decodeField_eq_ok_iff.1 hdecode
    dsimp only
    rw [cString_append_replicate]
    by_cases hoption : buf 1 = clientSrv
    · rw [if_pos hoption]
      obtain ⟨hok, hparts⟩ | ⟨hbad, hparts⟩ := huse (cString decoded) s
      · exact Or.inl ⟨hok, hsize, htype, hoption, hgt, hle, decoded, hdecoded, hparts⟩
      · rw [hbad]
        refine Or.inr ⟨SaslResult.noConfusion, rfl, ?_⟩
        rintro ⟨-, -, -, -, -, decoded', hdecoded', hparts'⟩
        obtain rfl := Option.some.inj (hdecoded.symm.trans hdecoded')
        exact hparts hparts'
    · rw [if_neg hoption]
      exact Or.inr ⟨SaslResult.noConfusion, rfl, fun h ↦ hoption h.2.2.1⟩

section

variable {env : UserEnv} (henv : ∀ text decoded,
  env.saslDecode64 text = some decoded → decoded.length ≤ text.length)

include henv

/-- The text that is decoded ends in its buffer. -/
theorem zero_mem_decodeField {fieldType : UInt8} {buf : Memory} {bufSize : ℕ} {decBuf : Bytes}
    (h : decodeField env fieldType buf bufSize = .ok decBuf) :
    decBuf.length = (buf.be16 2).toNat ∧ 0 ∈ decBuf := by
  obtain ⟨-, -, hgt, -, decoded, hdecoded, rfl⟩ := decodeField_eq_ok_iff.1 h
  have hshort : decoded.length ≤ (buf.be16 2).toNat - 4 := by
    have hle := henv _ _ hdecoded
    rwa [Vector.length_toList] at hle
  constructor
  · rw [List.length_append, List.length_replicate]
    omega
  · exact List.mem_append_right _ (List.mem_replicate.2 ⟨by omega, rfl⟩)

/-- What the three parsers have in common. -/
theorem usesReceived_parseField_iff {use : Bytes → ClientInfo → SaslResult × ClientInfo}
    {parts : ℕ} (huse : Careful use parts) (fieldType : UInt8) (received : Bytes)
    (stale : Memory) (s : ClientInfo) :
    UsesReceived env fieldType (parseField env fieldType use) received stale s ↔
      (Readable env fieldType parts (stale.write 0 received) received.length →
        ((stale.write 0 received).be16 2).toNat ≤ received.length) := by
  have hcases := @parseField_cases env use parts huse fieldType (stale.write 0 received)
    received.length s
  constructor
  · rintro ⟨-, hle, -⟩ hreadable
    obtain ⟨hok, -⟩ | ⟨-, -, hnot⟩ := hcases
    · exact hle hok
    · exact absurd hreadable hnot
  · intro h
    obtain ⟨hok, hreadable⟩ | ⟨hne, hsame, -⟩ := hcases
    · exact ⟨fun hne ↦ absurd hok hne, fun _ ↦ h hreadable,
        fun decBuf hdecode ↦ zero_mem_decodeField henv hdecode⟩
    · exact ⟨fun _ ↦ hsame, fun hok ↦ absurd hok hne,
        fun decBuf hdecode ↦ zero_mem_decodeField henv hdecode⟩

/-- **The parsers use only what was received exactly if** the length of a field that can be read is
at most that. -/
theorem usesReceived_iff (conf : Params) (capaArray : ℕ → Option Bytes) (received : Bytes)
    (stale : Memory) (s : ClientInfo) :
    (UsesReceived env osField (parseUserOs conf env) received stale s ↔
      (Readable env osField 2 (stale.write 0 received) received.length →
        ((stale.write 0 received).be16 2).toNat ≤ received.length)) ∧
    (UsesReceived env versionField (parseUserVersion conf env) received stale s ↔
      (Readable env versionField 1 (stale.write 0 received) received.length →
        ((stale.write 0 received).be16 2).toNat ≤ received.length)) ∧
    (UsesReceived env capaField (parseUserCapabilities env capaArray) received stale s ↔
      (Readable env capaField 0 (stale.write 0 received) received.length →
        ((stale.write 0 received).be16 2).toNat ≤ received.length)) :=
  ⟨usesReceived_parseField_iff henv useOs_careful osField received stale s,
    usesReceived_parseField_iff henv useVersion_careful versionField received stale s,
    usesReceived_parseField_iff henv (useCapabilities_careful capaArray) capaField received stale s⟩

end

/-- An operating system, in base 64. -/
def linuxText : Bytes := ascii "TGludXg7NjsxMg=="

/-- A server that can decode it. -/
def UserEnv.linux : UserEnv where
  order := .little
  saslDecode64 text := if text = linuxText then some (ascii "Linux;6;12") else none
  localeFromUtf8 := some
  processExtMessage := none

theorem UserEnv.linux_shrinks (text decoded : Bytes)
    (h : UserEnv.linux.saslDecode64 text = some decoded) : decoded.length ≤ text.length := by
  rw [UserEnv.linux] at h
  dsimp only at h
  split_ifs at h with htext
  rw [htext, ← Option.some.inj h]
  decide +kernel

/-- The header of an answer with this text. -/
def linuxHeader : Bytes := [4, 1, 0, 20]

/-- A whole answer. -/
theorem linux_usesReceived :
    UsesReceived .linux osField (parseUserOs Params.default .linux) (linuxHeader ++ linuxText)
      (fun _ ↦ 255) ClientInfo.start := by
  refine (usesReceived_iff UserEnv.linux_shrinks Params.default (fun _ ↦ none) _ _ _).1.2 fun _ ↦ ?_
  decide +kernel

/-- **A header alone**, when the text is in the buffer already. -/
theorem linuxHeader_not_usesReceived :
    ¬UsesReceived .linux osField (parseUserOs Params.default .linux) linuxHeader
      (Memory.ofBytes (linuxHeader ++ linuxText)) ClientInfo.start := by
  intro h
  have hle := (usesReceived_parseField_iff UserEnv.linux_shrinks useOs_careful osField _ _ _).1 h
    ⟨by decide, by decide, by decide, by decide, by decide, ascii "Linux;6;12", by decide +kernel,
      by decide +kernel⟩
  exact absurd hle (by decide)

end Nufw
