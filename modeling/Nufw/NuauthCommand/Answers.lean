import Nufw.NuauthCommand.Listings

/-!
# The answers to the commands

`encode_answer` announces the size of its content, and `decode_answer` reads one value of it. So
an answer arrives as a whole if the content is one value. The dump of the configuration has a value
for each entry of the table, and all but the first are dropped, without an error
(`answer_complete_iff`).
-/

namespace Nufw

open Reader

/-- What the client reads of a value. -/
def Added.toPy : Added → PyValue
  | .string text => .str text
  | .int32 value => .int (Nufw.int32 value)
  | .uptime start diff => .uptime (seconds start) (Nufw.int32 diff)
  | .users now sessions => .list (sessions.reverse.map (UserEntry.read now))
  | .servers now sessions => .list (sessions.reverse.map (NufwEntry.toPy now))

/-- The items of a list that is not too large. -/
theorem PyValue.size_lt_of_list {l : List PyValue} (h : (PyValue.list l).size < 2 ^ 31) :
    l.length < 2 ^ 31 ∧ ∀ x ∈ l, x.size < 2 ^ 31 := by
  rw [PyValue.size] at h
  have hcount := PyValue.length_le_sizes l
  refine ⟨by omega, fun x hx ↦ ?_⟩
  have hle := PyValue.size_le_sizes hx
  omega

/-- **A value that is not too large is read back.** -/
theorem Added.add_denotes {a : Added} (h : a.toPy.size < 2 ^ 31) :
    ∃ e, a.add Encoder.new = some e ∧ Denotes e.data a.toPy := by
  cases a with
  | string text =>
    rw [Added.toPy, PyValue.size] at h
    have hshort : text.length < 2 ^ 31 := by omega
    obtain ⟨e, he, hdata⟩ := (Encoder.adds_addString hshort).new (by simp; omega)
    exact ⟨e, he, hdata ▸ denotes_string hshort⟩
  | int32 value =>
    obtain ⟨e, he, hdata⟩ := (Encoder.adds_addInt32 value).new (by simp)
    exact ⟨e, he, hdata ▸ denotes_int32 value⟩
  | uptime start diff =>
    obtain ⟨e, he, hdata⟩ := (Encoder.adds_addUptime start diff).new (by simp)
    exact ⟨e, he, hdata ▸ denotes_uptime start diff⟩
  | users now sessions =>
    obtain ⟨hlength, hsize⟩ := PyValue.size_lt_of_list h
    rw [List.length_map, List.length_reverse] at hlength
    exact commandUsers_denotes hlength fun s hs ↦
      hsize _ (List.mem_map_of_mem (List.mem_reverse.2 hs))
  | servers now sessions =>
    obtain ⟨hlength, -⟩ := PyValue.size_lt_of_list h
    rw [List.length_map, List.length_reverse] at hlength
    exact commandServers_denotes hlength now

/-! ### The answer -/

/-- The head of an answer. -/
theorem encodeAnswer_eq (ok : UInt8) (content : Encoder) :
    ∃ e : Encoder, e.data = 0x61 :: int32Bytes content.size ++ int32Bytes ok.toNat ∧
      encodeAnswer ok content =
        (e.grow content.size).writeBytes content.size content.data := by
  obtain ⟨e₁, h₁, hdata₁⟩ := (Encoder.adds_addBytecode 0x61).new (by simp)
  obtain ⟨e₂, h₂, hdata₂⟩ := Encoder.adds_addInt32 content.size e₁ (by
    rw [Encoder.size, hdata₁]; simp)
  obtain ⟨e₃, h₃, hdata₃⟩ := Encoder.adds_addInt32 ok.toNat e₂ (by
    rw [Encoder.size, hdata₂, hdata₁]; simp)
  refine ⟨e₃, ?_, ?_⟩
  · rw [hdata₃, hdata₂, hdata₁]
    rfl
  · rw [encodeAnswer, h₁, Option.bind_eq_bind, Option.bind_some, h₂, Option.bind_some, h₃,
      Option.bind_some]

theorem size_of_encodeAnswer {ok : UInt8} {content answer : Encoder}
    (h : encodeAnswer ok content = some answer) : answer.size < 11 + 2 ^ 31 := by
  obtain ⟨e, hdata, hencode⟩ := encodeAnswer_eq ok content
  have hhead : e.size = 11 := by
    rw [Encoder.size, hdata]
    simp
  rw [hencode] at h
  obtain ⟨k, -, hk, hsize⟩ := Encoder.size_of_writeBytes rfl h
  rw [Encoder.size_grow] at hsize
  omega

/-- **An answer with one value is read back.** -/
theorem encodeAnswer_denotes {content : Encoder} {x : PyValue} (h : Denotes content.data x)
    (hx : x.size < 2 ^ 31) (ok : UInt8) :
    ∃ answer, encodeAnswer ok content = some answer ∧ Denotes answer.data (.answer (ok = 1) x) := by
  obtain ⟨e, hdata, hencode⟩ := encodeAnswer_eq ok content
  have hsize : content.size = x.size := h.length
  have hhead : e.size = 11 := by
    rw [Encoder.size, hdata]
    simp
  have hfits : e.size + content.size ≤ (e.grow content.size).allocSize :=
    Encoder.le_allocSize_grow (by omega)
  have hwrite : encodeAnswer ok content =
      some { e.grow content.size with data := e.data ++ content.data } := by
    have hshort : content.size < 2 ^ 31 := by omega
    rw [hencode, Encoder.writeBytes_of_lt hshort rfl, Encoder.write_of_le ?_, Encoder.data_grow]
    rw [Encoder.size_grow]
    exact hfits
  refine ⟨_, hwrite, ?_⟩
  show Denotes (e.data ++ content.data) _
  rw [hdata, List.cons_append, List.cons_append, List.append_assoc]
  refine .of_dispatch ?_ fun fuel hfuel ↦ ?_
  · rw [List.length_append, List.length_append, length_int32Bytes, length_int32Bytes, h.length,
      PyValue.size]
    omega
  · rw [PyValue.size] at hfuel
    have hannounced : int32 content.size = content.data.length :=
      int32_of_within (by omega) (by omega)
    have hok : int32 ok.toNat = ok.toNat :=
      int32_of_within (by omega) (by have := ok.toNat_lt; omega)
    have hreads : Reads (Decoder.decode fuel) content.data x := h.reads (by omega)
    have hcontent := Decoder.reads_within hreads hannounced
    refine (Decoder.reads_readInt32 _).bind <| (Decoder.reads_readInt32 _).bind <|
      hcontent.bind_pure ?_
    have hone : (int32 ok.toNat = 1) = (ok = 1) := by
      rw [hok, ← UInt8.toNat_inj]
      simp only [UInt8.toNat_one, eq_iff_iff]
      omega
    show pure (PyValue.answer (decide (int32 ok.toNat = 1)) x) = _
    simp only [hone]

/-! ### Every command -/

section

variable {env env' : CommandEnv} {command : Bytes} {cmd : Command} {b : Branch} {answer : Encoder}

/-- What `command_execute` sends, taken apart. -/
theorem exists_of_commandExecute (hcmd : Command.ofBytes command = some cmd)
    (hbranch : cmd.branch env = some b)
    (h : commandExecute env command = some (env', some answer)) :
    ∃ content, fill b.added = some content ∧ content.size ≠ 0 ∧
      encodeAnswer b.ok content = some answer := by
  rw [commandExecute, hcmd] at h
  dsimp only at h
  rw [hbranch, Option.bind_eq_bind, Option.bind_some] at h
  obtain ⟨content, hfill, h⟩ := Option.bind_eq_some_iff.1 h
  split at h
  · cases h
  · rename_i hsize
    obtain ⟨answer', hanswer, h⟩ := Option.bind_eq_some_iff.1 h
    cases h
    exact ⟨content, hfill, hsize, hanswer⟩

theorem fill_singleton (a : Added) : fill [a] = a.add Encoder.new := by
  rw [fill, List.foldlM_cons]
  exact bind_pure _

/-- A command that is answered adds one value, but for the dump of the configuration. -/
theorem exists_added_singleton (hbranch : cmd.branch env = some b) (hadded : b.added ≠ [])
    (h : cmd = .confdump → env.configTable.length = 1) : ∃ a, b.added = [a] := by
  obtain hnil | ⟨a, ha, -⟩ | ⟨rfl, ha⟩ := Command.added_of_branch hbranch
  · exact absurd hnil hadded
  · exact ⟨a, ha⟩
  · obtain ⟨e, he⟩ := List.length_eq_one_iff.1 (h rfl)
    rw [he] at ha
    exact ⟨_, ha⟩

end

/-- **The answers that arrive as a whole.** Whenever `command_execute` answers, the client returns
an answer with every value of the content, and consumes all of its bytes, if and only if the content
takes fewer than 2^31 bytes and, for `confdump`, the configuration table has just one entry. -/
theorem answer_complete_iff {env env' : CommandEnv} {command : Bytes} {cmd : Command} {b : Branch}
    {answer : Encoder} (hcmd : Command.ofBytes command = some cmd)
    (hbranch : cmd.branch env = some b)
    (h : commandExecute env command = some (env', some answer)) :
    (∃ x, b.added.map Added.toPy = [x] ∧ pyDecode answer.data =
      .ok (.answer (b.ok = 1) x, (Decoder.start answer.data).advance answer.size)) ↔
    (cmd = .confdump → env.configTable.length = 1) ∧
      PyValue.sizes (b.added.map Added.toPy) < 2 ^ 31 := by
  obtain ⟨content, hfill, hsize, hanswer⟩ := exists_of_commandExecute hcmd hbranch h
  constructor
  · rintro ⟨x, hx, hdecode⟩
    constructor
    · rintro rfl
      cases hbranch
      have hlength := congrArg List.length hx
      simpa [confServerSidePrint] using hlength
    · obtain ⟨hadvance, -, -⟩ := Decoder.spends_decode _ _ _ _ hdecode
      have hindex := congrArg Cursor.index hadvance
      rw [Cursor.index_advance, Cursor.index_advance, PyValue.size] at hindex
      have hlt := size_of_encodeAnswer hanswer
      rw [hx, PyValue.sizes, PyValue.sizes]
      omega
  · rintro ⟨hone, hlt⟩
    have hadded : b.added ≠ [] := by
      intro hnil
      rw [hnil] at hfill
      cases hfill
      exact hsize rfl
    obtain ⟨a, ha⟩ := exists_added_singleton hbranch hadded hone
    rw [ha, List.map_singleton, PyValue.sizes, PyValue.sizes] at hlt
    obtain ⟨e, he, hdenotes⟩ := Added.add_denotes (a := a) (by omega)
    rw [ha, fill_singleton, he] at hfill
    cases hfill
    obtain ⟨answer', hanswer', hdenotes'⟩ := encodeAnswer_denotes hdenotes (by omega) b.ok
    rw [hanswer] at hanswer'
    cases hanswer'
    refine ⟨a.toPy, by rw [ha, List.map_singleton], ?_⟩
    rw [hdenotes'.pyDecode]
    rfl

/-- A nuauth without sessions, with two settings. -/
def twoSettings : CommandEnv where
  now := 1060
  startTimestamp := 1000
  users := []
  servers := []
  configTable := [(ascii "a", ascii "1"), (ascii "b", ascii "2")]
  debugLevel := 9
  debugAreas := 1
  aclCache := true
  threads := ⟨0, 0, 0, 0, 1, 1, false, false⟩
  connListSize := 0
  clientConnHashSize := 0
  doDisconnect _ := false
  reload := false
  random := 0
  fullVersion := ascii "2.2"

/-- The answer to `display debug_level`. -/
theorem debugLevel_complete :
    pyDecode [0x61, 0x69, 0, 0, 0, 5, 0x69, 0, 0, 0, 1, 0x69, 0, 0, 0, 9] =
      .ok (.answer true (.int 9), (Decoder.start
        [0x61, 0x69, 0, 0, 0, 5, 0x69, 0, 0, 0, 1, 0x69, 0, 0, 0, 9]).advance 16) := by
  have h : commandExecute twoSettings (ascii "display debug_level") = some (twoSettings, some
      ⟨[0x61, 0x69, 0, 0, 0, 5, 0x69, 0, 0, 0, 1, 0x69, 0, 0, 0, 9], 16⟩) := rfl
  have hcmd : Command.ofBytes (ascii "display debug_level") = some .displayDebugLevel := rfl
  obtain ⟨x, hx, hdecode⟩ := (answer_complete_iff hcmd rfl h).2
    ⟨(fun hdump ↦ by cases hdump), by decide⟩
  cases hx
  exact hdecode

/-- **The second setting is dropped**: the client stops after the first. -/
theorem confdump_incomplete :
    ∃ answer, commandExecute twoSettings (ascii "confdump") = some (twoSettings, some answer) ∧
      answer.size = 27 ∧ pyDecode answer.data =
        .ok (.answer true (.str (ascii "a=1")), (Decoder.start answer.data).advance 19) :=
  ⟨⟨[0x61, 0x69, 0, 0, 0, 16, 0x69, 0, 0, 0, 1, 0x73, 0, 0, 0, 3, 97, 61, 49,
    0x73, 0, 0, 0, 3, 98, 61, 50], 40⟩, rfl, rfl, rfl⟩

end Nufw
