import Nufw.Nuauth.UserAuthsrv
import Nufw.Nubase.ExtProto

/-!
# Messages that are parsed

Messages of the extended protocol are written with a line end behind each word. Then the cursor of
`process_ext_message` stands behind the blank after each word, the words that are met are those of
the message, and the message is parsed by its grammar (`parsesByGrammar_eachFollowedBy`).

A message of a client comes through `treat_extended_proto`, which takes what stands behind the
header of the packet. If nothing stands there, it is read all the same.
-/

namespace Nufw

/-! ### One blank behind each word -/

/-- The words, with one blank behind each. -/
def eachFollowedBy (sep : UInt8) (words : List Bytes) : Bytes := words.flatMap (· ++ [sep])

section

variable {registered : ExtNames} {sep : UInt8} {pbuf text word : Bytes} {words : List Bytes}
  {st st' : WordState}

/-- Behind the blanks there are the first word and the others. -/
theorem split_word {blanks rest : Bytes} (hblanks : ∀ c ∈ blanks, isspace c = true)
    (hword : IsWord word) (hsep : ∀ c ∈ rest.head?, isspace c = true) :
    (blanks ++ word ++ rest).dropWhile isspace = word ++ rest ∧
      (word ++ rest).takeWhile isWordByte = word ∧
      (word ++ rest).dropWhile isWordByte = rest := by
  obtain ⟨d, ds, rfl⟩ := List.exists_cons_of_ne_nil hword.1
  have hstart : ∀ c, (d :: ds ++ rest).head? = some c → isspace c = false := by
    intro c hc
    obtain rfl : d = c := Option.some.inj hc
    exact isspace_eq_false_of_isWordByte (hword.2 d List.mem_cons_self)
  rw [List.append_assoc]
  exact ⟨(span_append hblanks hstart).2,
    span_append hword.2 fun c hc ↦ isWordByte_eq_false_of_isspace (hsep c hc)⟩

theorem SpaceSeparated.eq_nil_or (h : SpaceSeparated words text) :
    words = [] ∧ text.dropWhile isspace = [] ∨
      ∃ words', words = (text.dropWhile isspace).takeWhile isWordByte :: words' ∧
        text.dropWhile isspace ≠ [] ∧
        SpaceSeparated words' ((text.dropWhile isspace).dropWhile isWordByte) := by
  match h with
  | .nil hblanks => exact .inl ⟨rfl, List.dropWhile_eq_nil_iff.2 hblanks⟩
  | .cons hblanks hword hsep hrest =>
    obtain ⟨hdrop, htake, hdrop'⟩ := split_word hblanks hword hsep
    rw [hdrop, htake, hdrop']
    exact .inr ⟨_, rfl, List.append_ne_nil_of_left_ne_nil hword.1 _, hrest⟩

/-- The words of a text are its own. -/
theorem SpaceSeparated.unique {words' : List Bytes} (h : SpaceSeparated words text)
    (h' : SpaceSeparated words' text) : words = words' := by
  induction h generalizing words' with
  | nil hblanks =>
    obtain ⟨rfl, -⟩ | ⟨_, -, hne, -⟩ := h'.eq_nil_or
    · rfl
    · exact absurd (List.dropWhile_eq_nil_iff.2 hblanks) hne
  | cons hblanks hword hsep hrest ih =>
    obtain ⟨hdrop, htake, hdrop'⟩ := split_word hblanks hword hsep
    obtain ⟨-, hnil⟩ | ⟨words', rfl, -, hwords'⟩ := h'.eq_nil_or
    · exact absurd (hdrop.symm.trans hnil) (List.append_ne_nil_of_left_ne_nil hword.1 _)
    · rw [hdrop, hdrop'] at hwords'
      rw [hdrop, htake, ih hwords']

theorem eachFollowedBy_cons : eachFollowedBy sep (word :: words) =
    [] ++ word ++ sep :: eachFollowedBy sep words := by
  rw [eachFollowedBy, List.flatMap_cons, List.append_assoc]
  rfl

theorem SpaceSeparated.blank_cons (hsep : isspace sep = true) (h : SpaceSeparated words text) :
    SpaceSeparated words (sep :: text) := by
  match h with
  | .nil hblanks => exact .nil (List.forall_mem_cons.2 ⟨hsep, hblanks⟩)
  | .cons hblanks hword hnext hrest =>
    exact .cons (List.forall_mem_cons.2 ⟨hsep, hblanks⟩) hword hnext hrest

theorem spaceSeparated_eachFollowedBy (hsep : isspace sep = true)
    (hwords : ∀ word ∈ words, IsWord word) : SpaceSeparated words (eachFollowedBy sep words) := by
  induction words with
  | nil => exact .nil fun _ h ↦ nomatch h
  | cons word words ih =>
    rw [List.forall_mem_cons] at hwords
    rw [eachFollowedBy_cons]
    refine .cons (fun _ h ↦ nomatch h) hwords.1 (fun c hc ↦ ?_)
      ((ih hwords.2).blank_cons hsep)
    obtain rfl : sep = c := Option.some.inj hc
    exact hsep

/-- A word with one blank behind it is met, and the cursor stands behind the blank. -/
theorem Meets.cons (hsep : isspace sep = true) (hword : IsWord word)
    (hlen : word.length < pbufSize) (hnext : st.next registered word = some st')
    (hrest : Meets registered st' word (eachFollowedBy sep words) words) :
    Meets registered st pbuf (eachFollowedBy sep (word :: words)) (word :: words) := by
  have hscan : Scans pbuf (eachFollowedBy sep (word :: words)) word := by
    rw [eachFollowedBy_cons]
    exact .word (fun _ h ↦ nomatch h) hword hlen (isWordByte_eq_false_of_isspace hsep)
  have hdrop : (eachFollowedBy sep (word :: words)).drop (word.length + 1) =
      eachFollowedBy sep words := by
    rw [eachFollowedBy_cons, List.nil_append, List.drop_length_add_append]
    rfl
  exact .next hscan hnext (hdrop ▸ hrest)

theorem next_cmd_of_ne {name : Bytes} (h : word ≠ ascii "END") :
    (WordState.cmd name).next registered word = some (.cmd name) :=
  congrArg some (if_neg h)

theorem next_cmd_end (name : Bytes) :
    (WordState.cmd name).next registered (ascii "END") = some .outside :=
  congrArg some (if_pos rfl)

theorem listedBy_cmds (name : Bytes) {cmds : List Bytes} (hend : ascii "END" ∉ cmds) :
    (WordState.cmd name).listedBy registered (cmds ++ ascii "END" :: words) =
      cmds.map (name, ·) ++ (name, ascii "END") :: WordState.outside.listedBy registered words := by
  induction cmds with
  | nil =>
    rw [List.nil_append, WordState.listedBy, next_cmd_end]
    rfl
  | cons cmd cmds ih =>
    rw [List.mem_cons, not_or] at hend
    rw [List.cons_append, WordState.listedBy, next_cmd_of_ne (Ne.symm hend.1)]
    show (name, cmd) :: WordState.listedBy registered _ _ = _
    rw [ih hend.2]
    rfl

/-- The commands of a block, and `END`, which is one if it is registered. -/
theorem listedBy_block (block : ExtBlock) (hname : block.name ∈ registered.map Prod.fst) :
    WordState.outside.listedBy registered (block.words ++ words) =
      block.calls ++ (block.name, ascii "END") :: WordState.outside.listedBy registered words := by
  have hnext : WordState.start.next registered block.name = some (.cmd block.name) := if_pos hname
  rw [ExtBlock.words, List.cons_append, List.cons_append, List.append_assoc]
  show WordState.start.listedBy registered (block.name :: _) = _
  rw [WordState.listedBy, hnext]
  exact listedBy_cmds block.name block.end_notMem

theorem meets_cmds (hsep : isspace sep = true) (name : Bytes) {cmds : List Bytes}
    (hend : ascii "END" ∉ cmds)
    (hwords : ∀ word ∈ cmds ++ [ascii "END"], IsWord word ∧ word.length < pbufSize)
    (hrest : ∀ pbuf, Meets registered .outside pbuf (eachFollowedBy sep words) words)
    (pbuf : Bytes) :
    Meets registered (.cmd name) pbuf (eachFollowedBy sep (cmds ++ ascii "END" :: words))
      (cmds ++ ascii "END" :: words) := by
  induction cmds generalizing pbuf with
  | nil =>
    have hword := hwords _ List.mem_cons_self
    exact .cons hsep hword.1 hword.2 (next_cmd_end name) (hrest _)
  | cons cmd cmds ih =>
    rw [List.mem_cons, not_or] at hend
    rw [List.cons_append, List.forall_mem_cons] at hwords
    exact .cons hsep hwords.1.1 hwords.1.2 (next_cmd_of_ne (Ne.symm hend.1))
      (ih hend.2 hwords.2 cmd)

theorem meets_block (hsep : isspace sep = true) (block : ExtBlock)
    (hname : block.name ∈ registered.map Prod.fst)
    (hwords : ∀ word ∈ block.words, IsWord word ∧ word.length < pbufSize)
    (hrest : ∀ pbuf, Meets registered .outside pbuf (eachFollowedBy sep words) words)
    (pbuf : Bytes) :
    Meets registered .outside pbuf (eachFollowedBy sep (block.words ++ words))
      (block.words ++ words) := by
  have hnext : WordState.start.next registered block.name = some (.cmd block.name) := if_pos hname
  rw [ExtBlock.words, List.forall_mem_cons, List.forall_mem_cons] at hwords
  obtain ⟨hbegin, hblock, hcmds⟩ := hwords
  rw [ExtBlock.words, List.cons_append, List.cons_append, List.append_assoc]
  refine .cons hsep hbegin.1 hbegin.2 (congrArg some (if_pos rfl)) ?_
  exact .cons hsep hblock.1 hblock.2 hnext
    (meets_cmds hsep block.name block.end_notMem hcmds hrest block.name)

variable {blocks : List ExtBlock}

theorem meets_blocks (hsep : isspace sep = true)
    (hnames : ∀ block ∈ blocks, block.name ∈ registered.map Prod.fst)
    (hwords : ∀ word ∈ blocks.flatMap ExtBlock.words, IsWord word ∧ word.length < pbufSize)
    (pbuf : Bytes) :
    Meets registered .outside pbuf (eachFollowedBy sep (blocks.flatMap ExtBlock.words))
      (blocks.flatMap ExtBlock.words) := by
  induction blocks generalizing pbuf with
  | nil => exact .done
  | cons block blocks ih =>
    rw [List.forall_mem_cons] at hnames
    rw [List.flatMap_cons, List.forall_mem_append] at hwords
    rw [List.flatMap_cons]
    exact meets_block hsep block hnames.1 hwords.1 (ih hnames.2 hwords.2) pbuf

theorem listedBy_blocks (hnames : ∀ block ∈ blocks, block.name ∈ registered.map Prod.fst)
    (hend : ∀ block ∈ blocks, isRegistered registered (block.name, ascii "END") = false) :
    (WordState.outside.listedBy registered (blocks.flatMap ExtBlock.words)).filter
        (isRegistered registered) =
      (blocks.flatMap ExtBlock.calls).filter (isRegistered registered) := by
  induction blocks with
  | nil => rfl
  | cons block blocks ih =>
    rw [List.forall_mem_cons] at hnames hend
    rw [List.flatMap_cons, listedBy_block block hnames.1, List.filter_append,
      List.filter_cons_of_neg (by simp [hend.1]), ih hnames.2 hend.2, List.flatMap_cons,
      List.filter_append]

/-- **Blocks with one blank behind each word are parsed by the grammar**, which is how they are
written by the clients and the modules. -/
theorem parsesByGrammar_eachFollowedBy (hsep : isspace sep = true) (hne : blocks ≠ [])
    (hnames : ∀ block ∈ blocks, block.name ∈ registered.map Prod.fst)
    (hend : ∀ ext ∈ registered, ascii "END" ∉ ext.2)
    (hwords : ∀ word ∈ blocks.flatMap ExtBlock.words, IsWord word ∧ word.length < pbufSize) :
    ParsesByGrammar registered pbuf (eachFollowedBy sep (blocks.flatMap ExtBlock.words)) := by
  have hend' (name : Bytes) : isRegistered registered (name, ascii "END") = false := by
    rw [isRegistered, Option.any_eq_false]
    intro ext hext
    simpa using hend ext (List.mem_of_find?_eq_some hext)
  refine parsesByGrammar_of_wellMet
    ⟨?_, _, meets_blocks hsep hnames hwords pbuf, fun blocks' hseq hnames' ↦ ?_⟩
  · obtain ⟨block, blocks, rfl⟩ := List.exists_cons_of_ne_nil hne
    rw [List.flatMap_cons, ExtBlock.words, List.cons_append, eachFollowedBy_cons]
    exact List.append_ne_nil_of_right_ne_nil _ (List.cons_ne_nil _ _)
  · have hown := spaceSeparated_eachFollowedBy hsep fun word hword ↦ (hwords word hword).1
    rw [hown.unique hseq]
    exact listedBy_blocks hnames' fun block _ ↦ hend' block.name

-- the question of `postauth_proto`
example :
    eachFollowedBy 10 (ExtBlock.words ⟨ascii "LUSER", [ascii "LOCALUSER"], by decide +kernel⟩) =
      ascii "BEGIN\nLUSER\nLOCALUSER\nEND\n" := by
  decide +kernel

end

/-! ### `treat_extended_proto` -/

section

variable {σ : Type} {exts : List (ProtoExt σ)} {pbuf : Bytes} {env : UserEnv}
  {process : Memory → ℕ → Bool} {data : TlsBufferRead}

/-- What stands behind the header of a packet. -/
def TlsBufferRead.extMessage (data : TlsBufferRead) : Bytes :=
  ((data.buffer.drop 4).bytes 0 (data.bufferLen - 4)).toList

/-- `process` is what `process_ext_message` says for the registered extensions. -/
def Processes (exts : List (ProtoExt σ)) (ctx : σ) (pbuf : Bytes) (process : Memory → ℕ → Bool) :
    Prop :=
  ∀ buf bufsize ret calls,
    ProcessExtMessage exts ctx pbuf (buf.bytes 0 bufsize).toList (.returned ret calls) →
    process buf bufsize = decide (ret = 0)

/-- A packet that is parsed by the grammar is answered as its callbacks say. -/
theorem treatExtendedProto_of_parsesByGrammar (ctx : σ)
    (hexts : ∀ ext ∈ exts, ∀ cmd ∈ ext.cmd, cmd.ReadsNothing)
    (henv : env.processExtMessage = some process) (hprocess : Processes exts ctx pbuf process)
    (hparses : ParsesByGrammar (exts.map ProtoExt.names) pbuf data.extMessage)
    (hheader : 4 ≤ data.bufferLen)
    (hlength : (data.buffer.host16 env.order 2).toNat ≤ data.bufferLen) :
    ∃ ret calls, ProcessExtMessage exts ctx pbuf data.extMessage (.returned ret calls) ∧
      treatExtendedProto env data = if ret = 0 then .continue else .error := by
  obtain ⟨ret, calls, hret, -⟩ := hparses σ exts ctx rfl hexts
  refine ⟨ret, calls, hret, ?_⟩
  rw [treatExtendedProto, if_neg (Nat.not_lt.2 hheader), if_neg (Nat.not_lt.2 hlength), henv]
  simp only [hprocess _ _ ret calls hret, decide_eq_true_eq]

/-- A packet that is nothing but its header passes the checks of its length, and is read behind its
end. -/
theorem not_parsesByGrammar_of_header (registered : ExtNames) (h : data.bufferLen = 4) :
    ¬ParsesByGrammar registered pbuf data.extMessage := by
  have hnil : data.extMessage = [] := by
    rw [TlsBufferRead.extMessage, h]
    rfl
  exact fun hparses ↦ (wellMet_of_parsesByGrammar hparses).1 hnil

end

end Nufw
