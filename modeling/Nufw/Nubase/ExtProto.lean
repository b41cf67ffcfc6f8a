import Mathlib.Data.List.TakeWhile
import Nufw.Lib.WhileLoop
import Nufw.Nubase.Strings

/-!
# Extended protocol messages

`process_ext_message` of `ext_proto.c` takes one word after the other from a message with `sscanf`,
and goes through three states with them: a block starts with `BEGIN` and the name of an extension,
and goes on with commands up to `END`.

`sscanf` skips blanks in front of a word, stores a word however long it is, and reads on to its end.
But the cursor goes on by the length of the word and one, from where it stood before the blanks. If
there was one blank in front of the word, it stands before the blank that follows, and the end of
the message comes too late; if there were more, it stands in the word again, or even before it.
`Meets` says which words are met so. The message is parsed by its grammar exactly if the words can
be met, and name the same registered commands as the blocks list (`parsesByGrammar_iff`).
-/

namespace Nufw

/-! ### The function -/

/-- `struct proto_ext_cmd_t`. The callback gets what is left of the message and `data`; it returns a
code, and may change both. -/
structure ProtoExtCmd (σ : Type) where
  cmdname : Bytes
  callback : Bytes → σ → Int × Bytes × σ

/-- `struct proto_ext_t`. -/
structure ProtoExt (σ : Type) where
  name : Bytes
  cmd : List (ProtoExtCmd σ)

/-- `ext_proto_state_t`, with `p_ext_proto` where it is not `NULL`. No step leads to
`EXT_PROTO_END`. -/
inductive ExtProtoState (σ : Type)
  | outside
  | start
  | cmd (pExtProto : ProtoExt σ)

/-- A command of an extension: the name of the extension, and of the command. -/
abbrev ExtCall := Bytes × Bytes

/-- The variables of the loop, with the callbacks that have been called. `lbuf` is what is left of
the message. -/
structure ExtLoop (σ : Type) where
  state : ExtProtoState σ
  data : σ
  calls : List ExtCall
  pbuf : Bytes
  lbuf : Bytes

/-- How the function ends. -/
inductive ExtResult
  /-- A byte behind the message is read. -/
  | outside
  /-- A word is stored that does not fit into `pbuf`. -/
  | overflow
  | returned (ret : Int) (calls : List ExtCall)
  deriving DecidableEq

/-- The size of `pbuf`. -/
def pbufSize : ℕ := 1024

/-- Neither a blank nor the end of a string. -/
def isWordByte (c : UInt8) : Bool := !isspace c && c ≠ 0

/-- What `sscanf (lbuf, "%s", pbuf)` does. At the end of the string, which is a NUL, nothing is
stored. -/
inductive ScannedWord
  | outside
  | overflow
  | eof
  | word (word : Bytes)

/-- `sscanf (lbuf, "%s", pbuf)`. -/
def scanString (lbuf : Bytes) : ScannedWord :=
  let input := lbuf.dropWhile isspace
  let word := input.takeWhile isWordByte
  if pbufSize ≤ word.length then .overflow
  else if input.length = word.length then .outside
  else if word = [] then .eof
  else .word word

section

variable {σ : Type} (exts : List (ProtoExt σ))

/-- The loop over the commands. -/
def callCommands (name : Bytes) : List (ProtoExtCmd σ) → ExtLoop σ → ExtLoop σ ⊕ ExtResult
  | [], s => .inl s
  | cmd :: cmds, s =>
    if s.pbuf = cmd.cmdname then
      let r := cmd.callback s.lbuf s.data
      let calls := s.calls ++ [(name, cmd.cmdname)]
      if r.1 ≠ 0 then .inr (.returned r.1 calls)
      else callCommands name cmds { s with lbuf := r.2.1, data := r.2.2, calls }
    else callCommands name cmds s

/-- The `switch` over the state. -/
def extSwitch (s : ExtLoop σ) : ExtLoop σ ⊕ ExtResult :=
  match s.state with
  | .outside => .inl (if s.pbuf = ascii "BEGIN" then { s with state := .start } else s)
  | .start =>
    match exts.find? fun pos ↦ s.pbuf = pos.name with
    | none => .inr (.returned (-1) s.calls)
    | some pos => .inl { s with state := .cmd pos }
  | .cmd pExtProto =>
    callCommands pExtProto.name pExtProto.cmd
      (if s.pbuf = ascii "END" then { s with state := .outside } else s)

/-- A turn of the loop once `pbuf` is filled. -/
def extTurn (pbuf : Bytes) (s : ExtLoop σ) : ExtLoop σ ⊕ ExtResult :=
  match extSwitch exts { s with pbuf, lbuf := s.lbuf.drop (pbuf.length + 1) } with
  | .inl s => if s.lbuf = [] then .inr (.returned 0 s.calls) else .inl s
  | .inr r => .inr r

/-- One turn of the loop. -/
def extStep (s : ExtLoop σ) : ExtLoop σ ⊕ ExtResult :=
  match scanString s.lbuf with
  | .outside => .inr .outside
  | .overflow => .inr .overflow
  | .eof => extTurn exts s.pbuf s
  | .word word => extTurn exts word s

/-- `process_ext_message`: what it ends with, if it ends. `pbuf` is what stands in the buffer at
first. -/
def ProcessExtMessage (data : σ) (pbuf buf : Bytes) : ExtResult → Prop :=
  WhileLoop.Returns (extStep exts) ⟨.outside, data, [], pbuf, buf⟩

end

/-! ### The grammar -/

/-- A block of a message: `BEGIN`, the name of an extension, commands, `END`. -/
structure ExtBlock where
  name : Bytes
  cmds : List Bytes
  end_notMem : ascii "END" ∉ cmds

namespace ExtBlock

def words (block : ExtBlock) : List Bytes :=
  ascii "BEGIN" :: block.name :: (block.cmds ++ [ascii "END"])

/-- The commands it lists. -/
def calls (block : ExtBlock) : List ExtCall := block.cmds.map (block.name, ·)

end ExtBlock

def IsWord (word : Bytes) : Prop := word ≠ [] ∧ ∀ c ∈ word, isWordByte c = true

/-- Words with white space between them, and perhaps around them. -/
inductive SpaceSeparated : List Bytes → Bytes → Prop
  | nil {blanks : Bytes} (hblanks : ∀ c ∈ blanks, isspace c = true) : SpaceSeparated [] blanks
  | cons {blanks word rest : Bytes} {words : List Bytes} (hblanks : ∀ c ∈ blanks, isspace c = true)
      (hword : IsWord word) (hsep : ∀ c ∈ rest.head?, isspace c = true)
      (hrest : SpaceSeparated words rest) : SpaceSeparated (word :: words) (blanks ++ word ++ rest)

/-- The message is a sequence of blocks. -/
def SequenceOf (blocks : List ExtBlock) (message : Bytes) : Prop :=
  SpaceSeparated (blocks.flatMap ExtBlock.words) message

/-- The extensions that are registered, by their names, each with the names of its commands. -/
abbrev ExtNames := List (Bytes × List Bytes)

section

variable {σ : Type}

def ProtoExt.names (ext : ProtoExt σ) : Bytes × List Bytes :=
  (ext.name, ext.cmd.map ProtoExtCmd.cmdname)

/-- The commands of the grammar have no arguments: a callback neither looks at the rest of the
message nor goes on in it. -/
def ProtoExtCmd.ReadsNothing (cmd : ProtoExtCmd σ) : Prop :=
  ∀ lbuf data, cmd.callback lbuf data =
    ((cmd.callback [] data).1, lbuf, (cmd.callback [] data).2.2)

/-- The callbacks of some commands. -/
def callbacks (exts : List (ProtoExt σ)) (calls : List ExtCall) : List (Bytes × ProtoExtCmd σ) :=
  calls.flatMap fun call ↦
    match exts.find? fun ext ↦ call.1 = ext.name with
    | none => []
    | some ext => (ext.cmd.filter fun cmd ↦ call.2 = cmd.cmdname).map (ext.name, ·)

/-- Calls callbacks in order until one fails: what becomes of `data`, or the code of the one that
fails, and the callbacks that are called. -/
def callEach : List (Bytes × ProtoExtCmd σ) → σ → Except Int σ × List ExtCall
  | [], data => (.ok data, [])
  | (name, cmd) :: rest, data =>
    let r := cmd.callback [] data
    if r.1 ≠ 0 then (.error r.1, [(name, cmd.cmdname)])
    else
      let next := callEach rest r.2.2
      (next.1, (name, cmd.cmdname) :: next.2)

end

/-- **A message is parsed by its grammar**, whatever the callbacks of the registered commands do:
only its bytes are read, no word is stored that is too long, and for a sequence of blocks of
registered extensions exactly the callbacks of the listed commands are called. -/
def ParsesByGrammar (registered : ExtNames) (pbuf message : Bytes) : Prop :=
  ∀ (σ : Type) (exts : List (ProtoExt σ)) (data : σ), exts.map ProtoExt.names = registered →
    (∀ ext ∈ exts, ∀ cmd ∈ ext.cmd, cmd.ReadsNothing) →
    ∃ ret calls, ProcessExtMessage exts data pbuf message (.returned ret calls) ∧
      ∀ blocks, SequenceOf blocks message →
        (∀ block ∈ blocks, block.name ∈ registered.map Prod.fst) →
        calls = (callEach (callbacks exts (blocks.flatMap ExtBlock.calls)) data).2

/-! ### The words that are met -/

/-- What `sscanf` leaves in the buffer if all goes well: the next word, or at the end of the string
what stood there before. -/
inductive Scans (pbuf : Bytes) : Bytes → Bytes → Prop
  | word {blanks word rest : Bytes} {sep : UInt8} (hblanks : ∀ c ∈ blanks, isspace c = true)
      (hword : IsWord word) (hlen : word.length < pbufSize) (hsep : isWordByte sep = false) :
      Scans pbuf (blanks ++ word ++ sep :: rest) word
  | eof {blanks rest : Bytes} (hblanks : ∀ c ∈ blanks, isspace c = true) :
      Scans pbuf (blanks ++ 0 :: rest) pbuf

/-- Where one is in the grammar. -/
inductive WordState
  | outside
  | start
  | cmd (name : Bytes)

namespace WordState

variable (registered : ExtNames)

/-- A word leads on, unless it is a name that is not registered. -/
def next (word : Bytes) : WordState → Option WordState
  | outside => some (if word = ascii "BEGIN" then start else outside)
  | start => if word ∈ registered.map Prod.fst then some (cmd word) else none
  | cmd name => some (if word = ascii "END" then outside else cmd name)

/-- The command that a word stands for. -/
def listed (word : Bytes) : WordState → List ExtCall
  | outside => []
  | start => []
  | cmd name => [(name, word)]

/-- The commands that words stand for. -/
def listedBy : WordState → List Bytes → List ExtCall
  | _, [] => []
  | st, word :: words =>
    st.listed word ++
      match st.next registered word with
      | none => []
      | some st => listedBy st words

end WordState

/-- The words that are met in a text, up to its end or to a name that is not registered. Each time
the cursor goes on by the length of the word and one, whatever has been read. -/
inductive Meets (registered : ExtNames) : WordState → Bytes → Bytes → List Bytes → Prop
  | done {st : WordState} {pbuf : Bytes} : Meets registered st pbuf [] []
  | unknown {st : WordState} {pbuf text word : Bytes} (hscan : Scans pbuf text word)
      (hnext : st.next registered word = none) : Meets registered st pbuf text [word]
  | next {st st' : WordState} {pbuf text word : Bytes} {words : List Bytes}
      (hscan : Scans pbuf text word) (hnext : st.next registered word = some st')
      (hrest : Meets registered st' word (text.drop (word.length + 1)) words) :
      Meets registered st pbuf text (word :: words)

/-- One of the registered extensions, the first of its name, has a command of this name. -/
def isRegistered (registered : ExtNames) (call : ExtCall) : Bool :=
  (registered.find? fun ext ↦ call.1 = ext.1).any fun ext ↦ call.2 ∈ ext.2

/-- The words of the message can be met, and those that are met name the same registered commands as
the blocks list, if it is a sequence of blocks of registered extensions. -/
def WellMet (registered : ExtNames) (pbuf message : Bytes) : Prop :=
  message ≠ [] ∧ ∃ met, Meets registered .outside pbuf message met ∧
    ∀ blocks, SequenceOf blocks message →
      (∀ block ∈ blocks, block.name ∈ registered.map Prod.fst) →
      (WordState.outside.listedBy registered met).filter (isRegistered registered) =
        (blocks.flatMap ExtBlock.calls).filter (isRegistered registered)

/-! ### Scanning a word -/

section

variable {pbuf text word : Bytes}

theorem isWordByte_eq_false_of_isspace {c : UInt8} (h : isspace c = true) :
    isWordByte c = false := by
  rw [isWordByte, h]
  rfl

theorem isspace_eq_false_of_isWordByte {c : UInt8} (h : isWordByte c = true) :
    isspace c = false := by
  rw [isWordByte, Bool.and_eq_true, Bool.not_eq_true'] at h
  exact h.1

/-- A text is blanks, word bytes, and what follows them. -/
theorem exists_scan (text : Bytes) :
    ∃ blanks word rest, text = blanks ++ word ++ rest ∧ (∀ c ∈ blanks, isspace c = true) ∧
      (∀ c ∈ word, isWordByte c = true) ∧ (∀ c ∈ rest.head?, isWordByte c = false) ∧
      (word = [] → ∀ c ∈ rest.head?, isspace c = false) := by
  refine ⟨text.takeWhile isspace, (text.dropWhile isspace).takeWhile isWordByte,
    (text.dropWhile isspace).dropWhile isWordByte, ?_, fun c hc ↦ List.mem_takeWhile_imp hc,
    fun c hc ↦ List.mem_takeWhile_imp hc, fun c hc ↦ ?_, fun hword c hc ↦ ?_⟩
  · rw [List.append_assoc, List.takeWhile_append_dropWhile, List.takeWhile_append_dropWhile]
  · have := List.head?_dropWhile_not isWordByte (text.dropWhile isspace)
    rw [Option.mem_def.1 hc] at this
    exact this
  · have hrest : (text.dropWhile isspace).dropWhile isWordByte = text.dropWhile isspace := by
      conv_rhs => rw [← List.takeWhile_append_dropWhile (p := isWordByte)
        (l := text.dropWhile isspace), hword, List.nil_append]
    rw [hrest] at hc
    have := List.head?_dropWhile_not isspace text
    rw [Option.mem_def.1 hc] at this
    exact this

variable {blanks rest : Bytes}

/-- Blanks are skipped, and what follows is stored as far as word bytes go. -/
theorem scanString_eq (hblanks : ∀ c ∈ blanks, isspace c = true)
    (hword : ∀ c ∈ word, isWordByte c = true) (hsep : ∀ c ∈ rest.head?, isWordByte c = false)
    (hhead : word = [] → ∀ c ∈ rest.head?, isspace c = false) :
    scanString (blanks ++ word ++ rest) =
      if pbufSize ≤ word.length then .overflow
      else if rest = [] then .outside
      else if word = [] then .eof
      else .word word := by
  have hstart : ∀ c, (word ++ rest).head? = some c → isspace c = false := by
    match word with
    | [] => exact hhead rfl
    | d :: ds =>
      intro c hc
      obtain rfl : d = c := Option.some.inj hc
      exact isspace_eq_false_of_isWordByte (hword d List.mem_cons_self)
  have hinput : (blanks ++ word ++ rest).dropWhile isspace = word ++ rest := by
    rw [List.append_assoc]
    exact (span_append hblanks hstart).2
  have htake : (word ++ rest).takeWhile isWordByte = word := (span_append hword hsep).1
  have hlen : ((word ++ rest).length = word.length) = (rest = []) := by
    rw [List.length_append, Nat.add_eq_left, List.length_eq_zero_iff]
  rw [scanString]
  simp only [hinput, htake, hlen]

/-- At the end of a string there is a NUL. -/
theorem eq_zero_of_not_isWordByte {c : UInt8} (hword : isWordByte c = false)
    (hspace : isspace c = false) : c = 0 := by
  rw [isWordByte, hspace] at hword
  simpa using hword

theorem scanString_of_scans (hscan : Scans pbuf text word) :
    scanString text = .word word ∨ scanString text = .eof ∧ word = pbuf := by
  match hscan with
  | .word hblanks hword hlen hsep =>
    rw [scanString_eq hblanks hword.2 (by simpa using hsep) fun h ↦ absurd h hword.1,
      if_neg (Nat.not_le_of_lt hlen), if_neg (List.cons_ne_nil _ _), if_neg hword.1]
    exact .inl rfl
  | @Scans.eof _ blanks rest hblanks =>
    have hscan : scanString (blanks ++ [] ++ 0 :: rest) = _ :=
      scanString_eq hblanks (by simp) (fun c hc ↦ ?_) fun _ c hc ↦ ?_
    · rw [List.append_nil] at hscan
      exact .inr ⟨hscan, rfl⟩
    all_goals
      obtain rfl : 0 = c := Option.some.inj hc
      decide

/-- `sscanf` leaves a string in the buffer, or memory is left. -/
theorem scans_or (pbuf text : Bytes) :
    (∃ word, Scans pbuf text word) ∨ scanString text = .outside ∨ scanString text = .overflow := by
  obtain ⟨blanks, word, rest, rfl, hblanks, hword, hsep, hhead⟩ := exists_scan text
  rw [scanString_eq hblanks hword hsep hhead]
  obtain hlen | hlen := Nat.lt_or_ge word.length pbufSize
  · rw [if_neg (Nat.not_le_of_lt hlen)]
    match rest with
    | [] => exact .inr (.inl rfl)
    | sep :: rest =>
      have hsep := hsep sep rfl
      match word with
      | [] =>
        obtain rfl := eq_zero_of_not_isWordByte hsep (hhead rfl sep rfl)
        rw [List.append_nil]
        exact .inl ⟨pbuf, .eof hblanks⟩
      | c :: cs => exact .inl ⟨c :: cs, .word hblanks ⟨List.cons_ne_nil c cs, hword⟩ hlen hsep⟩
  · rw [if_pos hlen]
    exact .inr (.inr rfl)

end

/-! ### A turn of the loop -/

section

variable {σ : Type} {exts : List (ProtoExt σ)}

theorem callEach_append (first rest : List (Bytes × ProtoExtCmd σ)) (data : σ) :
    callEach (first ++ rest) data =
      match callEach first data with
      | (.error ret, calls) => (.error ret, calls)
      | (.ok data, calls) => ((callEach rest data).1, calls ++ (callEach rest data).2) := by
  induction first generalizing data with
  | nil => rfl
  | cons head first ih =>
    rw [List.cons_append, callEach, callEach, ih]
    obtain hret | hret := eq_or_ne (head.2.callback [] data).1 0
    · simp only [hret, ne_eq, not_true_eq_false, if_false]
      match callEach first (head.2.callback [] data).2.2 with
      | (.error _, _) => rfl
      | (.ok _, _) => rfl
    · simp only [ne_eq, hret, not_false_eq_true, if_true]

/-- The state of the loop once callbacks have been called, or its end. -/
def ExtLoop.after (s : ExtLoop σ) : Except Int σ × List ExtCall → ExtLoop σ ⊕ ExtResult
  | (.ok data, calls) => .inl { s with data, calls := s.calls ++ calls }
  | (.error ret, calls) => .inr (.returned ret (s.calls ++ calls))

/-- A callback that succeeds is followed by the others. -/
theorem after_cons (s : ExtLoop σ) (data : σ) (call : ExtCall) (r : Except Int σ × List ExtCall) :
    ({ s with data, calls := s.calls ++ [call] } : ExtLoop σ).after r =
      s.after (r.1, call :: r.2) := by
  match r with
  | (.ok _, _) => simp only [ExtLoop.after, List.append_assoc, List.singleton_append]
  | (.error _, _) => simp only [ExtLoop.after, List.append_assoc, List.singleton_append]

theorem callCommands_eq (name : Bytes) {cmds : List (ProtoExtCmd σ)}
    (hcmds : ∀ cmd ∈ cmds, cmd.ReadsNothing) (s : ExtLoop σ) :
    callCommands name cmds s =
      s.after (callEach ((cmds.filter fun cmd ↦ s.pbuf = cmd.cmdname).map (name, ·)) s.data) := by
  induction cmds generalizing s with
  | nil =>
    show Sum.inl s = .inl { s with calls := s.calls ++ [] }
    rw [List.append_nil]
  | cons cmd cmds ih =>
    have ih := ih fun cmd hcmd ↦ hcmds cmd (List.mem_cons_of_mem _ hcmd)
    rw [callCommands]
    obtain hname | hname := eq_or_ne s.pbuf cmd.cmdname
    · rw [if_pos hname, List.filter_cons_of_pos (by simpa using hname), List.map_cons, callEach,
        hcmds cmd List.mem_cons_self s.lbuf s.data]
      obtain hret | hret := eq_or_ne (cmd.callback [] s.data).1 0
      · simp only [hret, ne_eq, not_true_eq_false, if_false]
        rw [ih, after_cons]
      · simp only [ne_eq, hret, not_false_eq_true, if_true]
        rfl
    · rw [if_neg hname, List.filter_cons_of_neg (by simpa using hname), ih]

/-- Where the loop is in the grammar. -/
def ExtProtoState.word : ExtProtoState σ → WordState
  | outside => .outside
  | start => .start
  | cmd ext => .cmd ext.name

/-- The extension of a block is found by its name. -/
def ExtProtoState.Known (exts : List (ProtoExt σ)) (state : ExtProtoState σ) : Prop :=
  ∀ ext, state = .cmd ext → (exts.find? fun pos ↦ ext.name = pos.name) = some ext

theorem mem_names_iff {name : Bytes} :
    name ∈ (exts.map ProtoExt.names).map Prod.fst ↔
      (exts.find? fun pos ↦ name = pos.name).isSome = true := by
  rw [List.find?_isSome, List.map_map, List.mem_map]
  refine exists_congr fun ext ↦ and_congr_right fun _ ↦ ?_
  rw [decide_eq_true_iff]
  exact eq_comm

theorem callbacks_of_find? {ext : ProtoExt σ} {call : ExtCall}
    (hfind : (exts.find? fun pos ↦ call.1 = pos.name) = some ext) :
    callbacks exts [call] =
      (ext.cmd.filter fun cmd ↦ call.2 = cmd.cmdname).map (ext.name, ·) := by
  rw [callbacks, List.flatMap_singleton, hfind]

variable {s : ExtLoop σ} {st : WordState}

theorem extSwitch_of_none
    (hnext : s.state.word.next (exts.map ProtoExt.names) s.pbuf = none) :
    extSwitch exts s = .inr (.returned (-1) s.calls) ∧ s.state.word = .start := by
  rw [extSwitch]
  match hstate : s.state with
  | .outside => rw [hstate] at hnext; cases hnext
  | .cmd ext => rw [hstate] at hnext; cases hnext
  | .start =>
    rw [hstate] at hnext
    refine ⟨?_, rfl⟩
    obtain hmem | hmem := em (s.pbuf ∈ (exts.map ProtoExt.names).map Prod.fst)
    · rw [ExtProtoState.word, WordState.next, if_pos hmem] at hnext
      cases hnext
    · rw [mem_names_iff, Bool.not_eq_true, Option.isSome_eq_false_iff, Option.isNone_iff_eq_none]
        at hmem
      simp only [hmem]

theorem extSwitch_of_some (hexts : ∀ ext ∈ exts, ∀ cmd ∈ ext.cmd, cmd.ReadsNothing)
    (hknown : s.state.Known exts)
    (hnext : s.state.word.next (exts.map ProtoExt.names) s.pbuf = some st) :
    ∃ state, state.word = st ∧ state.Known exts ∧
      extSwitch exts s = ExtLoop.after { s with state }
        (callEach (callbacks exts (s.state.word.listed s.pbuf)) s.data) := by
  have hnothing (state : ExtProtoState σ) :
      ExtLoop.after { s with state } (.ok s.data, []) = .inl { s with state } := by
    rw [ExtLoop.after, List.append_nil]
  rw [extSwitch]
  match hstate : s.state with
  | .outside =>
    rw [hstate] at hnext
    obtain rfl := Option.some.inj hnext
    obtain hword | hword := em (s.pbuf = ascii "BEGIN")
    · refine ⟨.start, (if_pos hword).symm, fun ext h ↦ (nomatch h), ?_⟩
      exact (congrArg Sum.inl (if_pos hword)).trans (hnothing .start).symm
    · refine ⟨.outside, (if_neg hword).symm, fun ext h ↦ (nomatch h), ?_⟩
      refine (congrArg Sum.inl (if_neg hword)).trans ((hnothing .outside).trans ?_).symm
      rw [← hstate]
  | .start =>
    rw [hstate] at hnext
    obtain hmem | hmem := em (s.pbuf ∈ (exts.map ProtoExt.names).map Prod.fst)
    · rw [ExtProtoState.word, WordState.next, if_pos hmem] at hnext
      obtain rfl := Option.some.inj hnext
      obtain ⟨pos, hpos⟩ := Option.isSome_iff_exists.1 (mem_names_iff.1 hmem)
      have hname : s.pbuf = pos.name := by simpa using List.find?_some hpos
      refine ⟨.cmd pos, congrArg WordState.cmd hname.symm, fun ext h ↦ ?_, ?_⟩
      · cases h
        rw [← hname]
        exact hpos
      · simp only [hpos]
        exact (hnothing (.cmd pos)).symm
    · rw [ExtProtoState.word, WordState.next, if_neg hmem] at hnext
      cases hnext
  | .cmd ext =>
    rw [hstate] at hnext
    obtain rfl := Option.some.inj hnext
    have hfind := hknown ext hstate
    have hcmds := hexts ext (List.mem_of_find?_eq_some hfind)
    have hlisted : callbacks exts ((ExtProtoState.cmd ext).word.listed s.pbuf) =
        (ext.cmd.filter fun cmd ↦ s.pbuf = cmd.cmdname).map (ext.name, ·) :=
      @callbacks_of_find? σ exts ext (ext.name, s.pbuf) hfind
    rw [hlisted]
    obtain hword | hword := em (s.pbuf = ascii "END")
    · refine ⟨.outside, (if_pos hword).symm, fun ext h ↦ (nomatch h), ?_⟩
      simp only [if_pos hword]
      exact callCommands_eq ext.name hcmds { s with state := .outside }
    · refine ⟨.cmd ext, (if_neg hword).symm, fun ext' h ↦ ?_, ?_⟩
      · cases h
        exact hfind
      · simp only [if_neg hword]
        rw [callCommands_eq ext.name hcmds, ← hstate]

/-! ### The loop -/

/-- The loop at its end: it is left at the end of the message. -/
def LeavesWith (exts : List (ProtoExt σ)) (s : ExtLoop σ) (r : ExtResult) : Prop :=
  if s.lbuf = [] then r = .returned 0 s.calls else WhileLoop.Returns (extStep exts) s r

theorem extStep_of_scans {word : Bytes} (hscan : Scans s.pbuf s.lbuf word) :
    extStep exts s = extTurn exts word s := by
  rw [extStep]
  obtain hword | ⟨heof, rfl⟩ := scanString_of_scans hscan
  · rw [hword]
  · rw [heof]

/-- One turn, and the others. -/
theorem returns_of_scans {word : Bytes} (hscan : Scans s.pbuf s.lbuf word) {r : ExtResult} :
    WhileLoop.Returns (extStep exts) s r ↔
      match extSwitch exts { s with pbuf := word, lbuf := s.lbuf.drop (word.length + 1) } with
      | .inl s => LeavesWith exts s r
      | .inr r' => r = r' := by
  have hstep : extStep exts s = extTurn exts word s := extStep_of_scans hscan
  have hend {r' : ExtResult} (h : extStep exts s = .inr r') :
      WhileLoop.Returns (extStep exts) s r ↔ r = r' :=
    ⟨fun hr ↦ hr.unique (WhileLoop.returns_of_inr h),
      fun hr ↦ hr ▸ WhileLoop.returns_of_inr h⟩
  rw [extTurn] at hstep
  match hswitch : extSwitch exts { s with pbuf := word, lbuf := s.lbuf.drop (word.length + 1) } with
  | .inr r' =>
    rw [hswitch] at hstep
    exact hend hstep
  | .inl s' =>
    rw [hswitch] at hstep
    dsimp only at hstep ⊢
    rw [LeavesWith]
    split_ifs at hstep ⊢
    · exact hend hstep
    · exact WhileLoop.returns_iff_of_inl hstep

theorem not_nil_of_scans {pbuf text word : Bytes} (hscan : Scans pbuf text word) : text ≠ [] := by
  match hscan with
  | .word .. => exact List.append_ne_nil_of_right_ne_nil _ (List.cons_ne_nil _ _)
  | .eof .. => exact List.append_ne_nil_of_right_ne_nil _ (List.cons_ne_nil _ _)

theorem leavesWith_of_scans {word : Bytes} (hscan : Scans s.pbuf s.lbuf word) {r : ExtResult} :
    LeavesWith exts s r ↔
      match extSwitch exts { s with pbuf := word, lbuf := s.lbuf.drop (word.length + 1) } with
      | .inl s => LeavesWith exts s r
      | .inr r' => r = r' := by
  rw [LeavesWith, if_neg (not_nil_of_scans hscan), returns_of_scans hscan]

theorem callbacks_append (first rest : List ExtCall) :
    callbacks exts (first ++ rest) = callbacks exts first ++ callbacks exts rest :=
  List.flatMap_append

/-- **The loop takes the words that are met**: it calls the callbacks of the commands they stand
for, one after the other. The induction is on the words; a callback leaves the cursor where it
is. -/
theorem Meets.leavesWith (hexts : ∀ ext ∈ exts, ∀ cmd ∈ ext.cmd, cmd.ReadsNothing)
    {pbuf text : Bytes} {words : List Bytes}
    (h : Meets (exts.map ProtoExt.names) st pbuf text words) {s : ExtLoop σ}
    (hst : s.state.word = st) (hknown : s.state.Known exts) (hpbuf : s.pbuf = pbuf)
    (hlbuf : s.lbuf = text) :
    ∃ ret, LeavesWith exts s (.returned ret (s.calls ++
      (callEach (callbacks exts (st.listedBy (exts.map ProtoExt.names) words)) s.data).2)) := by
  induction h generalizing s with
  | done =>
    refine ⟨0, ?_⟩
    rw [LeavesWith, if_pos hlbuf]
    show _ = ExtResult.returned 0 s.calls
    rw [WordState.listedBy, callbacks, List.flatMap_nil, callEach, List.append_nil]
  | @unknown _ _ _ word hscan hnext =>
    subst hst hpbuf hlbuf
    let s' := { s with pbuf := word, lbuf := s.lbuf.drop (word.length + 1) }
    obtain ⟨hswitch, hstart⟩ := extSwitch_of_none (s := s') hnext
    refine ⟨-1, ?_⟩
    rw [leavesWith_of_scans hscan, hswitch]
    have hlisted : s.state.word.listedBy (exts.map ProtoExt.names) [word] = [] := by
      rw [WordState.listedBy, hnext, show s.state.word = .start from hstart]
      rfl
    rw [hlisted, callbacks, List.flatMap_nil, callEach, List.append_nil]
  | @next _ st' _ _ word words hscan hnext hrest ih =>
    subst hst hpbuf hlbuf
    let s' := { s with pbuf := word, lbuf := s.lbuf.drop (word.length + 1) }
    obtain ⟨state, hstate, hknown', hswitch⟩ := extSwitch_of_some (s := s') hexts hknown hnext
    have hlisted : s.state.word.listedBy (exts.map ProtoExt.names) (word :: words) =
        s.state.word.listed word ++ st'.listedBy (exts.map ProtoExt.names) words := by
      rw [WordState.listedBy, hnext]
    rw [hlisted, callbacks_append, callEach_append]
    match hcalls : callEach (callbacks exts (s.state.word.listed word)) s.data with
    | (.error ret, calls) =>
      refine ⟨ret, ?_⟩
      rw [leavesWith_of_scans hscan, hswitch, show callEach _ _ = _ from hcalls]
      rfl
    | (.ok data, calls) =>
      -- the callbacks of this word, and then those of the others
      obtain ⟨ret, hleaves⟩ :=
        ih (s := { s' with state, data, calls := s.calls ++ calls }) hstate hknown' rfl rfl
      refine ⟨ret, ?_⟩
      rw [leavesWith_of_scans hscan, hswitch, show callEach _ _ = _ from hcalls]
      rw [List.append_assoc] at hleaves
      exact hleaves

/-! ### The callbacks of the commands -/

/-- The name of a callback. -/
def callName (callback : Bytes × ProtoExtCmd σ) : ExtCall := (callback.1, callback.2.cmdname)

/-- A registered command has callbacks, each of its name. -/
theorem map_callName_callbacks (call : ExtCall) :
    (callbacks exts [call]).map callName =
        List.replicate (callbacks exts [call]).length call ∧
      (isRegistered (exts.map ProtoExt.names) call = true ↔
        (callbacks exts [call]).length ≠ 0) := by
  have hfind : ((exts.map ProtoExt.names).find? fun ext ↦ call.1 = ext.1) =
      (exts.find? fun ext ↦ call.1 = ext.name).map ProtoExt.names := List.find?_map
  rw [isRegistered, hfind]
  match hext : exts.find? fun ext ↦ call.1 = ext.name with
  | none =>
    have hnone : callbacks exts [call] = [] := by
      rw [callbacks, List.flatMap_singleton, hext]
    rw [hnone, hext]
    exact ⟨rfl, by simp⟩
  | some ext =>
    have hname : call.1 = ext.name := by simpa using List.find?_some hext
    rw [callbacks_of_find? hext, hext, List.length_map, List.map_map]
    refine ⟨List.map_eq_replicate_iff.2 fun cmd hcmd ↦ ?_, ?_⟩
    · have hcmd : call.2 = cmd.cmdname := by simpa using (List.mem_filter.1 hcmd).2
      exact Prod.ext hname.symm hcmd.symm
    · rw [Option.map_some, Option.any_some, decide_eq_true_iff, ProtoExt.names, List.mem_map,
        ← Nat.pos_iff_ne_zero, List.length_pos_iff_exists_mem]
      simp only [List.mem_filter, decide_eq_true_eq, eq_comm (a := call.2)]

theorem callbacks_cons (call : ExtCall) (calls : List ExtCall) :
    callbacks exts (call :: calls) = callbacks exts [call] ++ callbacks exts calls :=
  callbacks_append [call] calls

/-- What is not registered has no callback. -/
theorem callbacks_filter (calls : List ExtCall) :
    callbacks exts (calls.filter (isRegistered (exts.map ProtoExt.names))) =
      callbacks exts calls := by
  induction calls with
  | nil => rfl
  | cons call calls ih =>
    have hreg : isRegistered (exts.map ProtoExt.names) call = true ↔
        (callbacks exts [call]).length ≠ 0 := (map_callName_callbacks call).2
    rw [List.filter_cons]
    split_ifs with h
    · rw [callbacks_cons, ih, ← callbacks_cons]
    · rw [hreg, not_not, List.length_eq_zero_iff] at h
      rw [ih, callbacks_cons, h, List.nil_append]

/-- How often each element is repeated does not matter, as long as it is. -/
theorem eq_of_flatMap_replicate {α : Type} {count : α → ℕ} {l l' : List α}
    (hl : ∀ a ∈ l, count a ≠ 0) (hl' : ∀ a ∈ l', count a ≠ 0)
    (h : l.flatMap (fun a ↦ List.replicate (count a) a) =
      l'.flatMap fun a ↦ List.replicate (count a) a) : l = l' := by
  induction l generalizing l' with
  | nil =>
    match l' with
    | [] => rfl
    | b :: l' => simp [hl' b List.mem_cons_self] at h
  | cons a l ih =>
    match l' with
    | [] => simp [hl a List.mem_cons_self] at h
    | b :: l' =>
      obtain ⟨n, hn⟩ := Nat.exists_eq_succ_of_ne_zero (hl a List.mem_cons_self)
      obtain ⟨m, hm⟩ := Nat.exists_eq_succ_of_ne_zero (hl' b List.mem_cons_self)
      rw [List.flatMap_cons, List.flatMap_cons] at h
      have hab : a = b := by
        rw [hn, hm, List.replicate_succ, List.replicate_succ] at h
        exact (List.cons.inj h).1
      subst hab
      rw [ih (fun c hc ↦ hl c (List.mem_cons_of_mem a hc))
        (fun c hc ↦ hl' c (List.mem_cons_of_mem a hc)) (List.append_cancel_left h)]

/-- The names of the callbacks say which registered commands they are the callbacks of. -/
theorem filter_eq_of_map_callName {calls calls' : List ExtCall}
    (h : (callbacks exts calls).map callName = (callbacks exts calls').map callName) :
    calls.filter (isRegistered (exts.map ProtoExt.names)) =
      calls'.filter (isRegistered (exts.map ProtoExt.names)) := by
  have hmap (calls : List ExtCall) : (callbacks exts calls).map callName =
      calls.flatMap fun call ↦ List.replicate (callbacks exts [call]).length call := by
    induction calls with
    | nil => rfl
    | cons call calls ih =>
      rw [callbacks_cons, List.map_append, (map_callName_callbacks call).1, ih, List.flatMap_cons]
  have hne (calls : List ExtCall) :
      ∀ call ∈ calls.filter (isRegistered (exts.map ProtoExt.names)),
        (callbacks exts [call]).length ≠ 0 :=
    fun call hcall ↦ (map_callName_callbacks call).2.1 (List.mem_filter.1 hcall).2
  rw [← callbacks_filter calls, ← callbacks_filter calls', hmap, hmap] at h
  exact eq_of_flatMap_replicate (hne calls) (hne calls') h

end

/-! ### Callbacks that do nothing -/

/-- The extensions of these names, with callbacks that do nothing. -/
def idleExts (registered : ExtNames) : List (ProtoExt Unit) :=
  registered.map fun ext ↦ ⟨ext.1, ext.2.map fun cmdname ↦ ⟨cmdname, fun lbuf _ ↦ (0, lbuf, ())⟩⟩

section

variable {registered : ExtNames}

theorem names_idleExts : (idleExts registered).map ProtoExt.names = registered := by
  rw [idleExts, List.map_map]
  refine List.map_id'' (fun ext ↦ ?_) registered
  show (ext.1, (ext.2.map _).map ProtoExtCmd.cmdname) = ext
  rw [List.map_map]
  exact Prod.ext rfl (List.map_id'' (fun _ ↦ rfl) ext.2)

theorem callback_of_mem_idleExts {ext : ProtoExt Unit} {cmd : ProtoExtCmd Unit}
    (hext : ext ∈ idleExts registered) (hcmd : cmd ∈ ext.cmd) (lbuf : Bytes) (data : Unit) :
    cmd.callback lbuf data = (0, lbuf, ()) := by
  obtain ⟨_, -, rfl⟩ := List.mem_map.1 hext
  obtain ⟨_, -, rfl⟩ := List.mem_map.1 hcmd
  rfl

theorem readsNothing_of_mem_idleExts :
    ∀ ext ∈ idleExts registered, ∀ cmd ∈ ext.cmd, cmd.ReadsNothing := by
  intro ext hext cmd hcmd lbuf data
  rw [callback_of_mem_idleExts hext hcmd, callback_of_mem_idleExts hext hcmd]

/-- They are all called. -/
theorem callEach_idleExts (calls : List ExtCall) :
    callEach (callbacks (idleExts registered) calls) () =
      (.ok (), (callbacks (idleExts registered) calls).map callName) := by
  have hcallback : ∀ p ∈ callbacks (idleExts registered) calls,
      p.2.callback [] () = (0, [], ()) := by
    intro p hp
    obtain ⟨call, -, hp⟩ := List.mem_flatMap.1 hp
    match hfind : (idleExts registered).find? fun ext ↦ call.1 = ext.name with
    | none =>
      rw [hfind] at hp
      cases hp
    | some ext =>
      rw [hfind] at hp
      obtain ⟨cmd, hcmd, rfl⟩ := List.mem_map.1 hp
      exact callback_of_mem_idleExts (List.mem_of_find?_eq_some hfind)
        (List.mem_filter.1 hcmd).1 [] ()
  generalize callbacks (idleExts registered) calls = l at hcallback
  induction l with
  | nil => rfl
  | cons p l ih =>
    have ih := ih fun p hp ↦ hcallback p (List.mem_cons_of_mem _ hp)
    rw [callEach, hcallback p List.mem_cons_self]
    simp only [ne_eq, not_true_eq_false, if_false]
    rw [ih]
    rfl

/-- A loop that returns has met the words up to its end. -/
theorem exists_meets {fuel : ℕ} {s : ExtLoop Unit} {ret : Int} {calls : List ExtCall}
    (hknown : s.state.Known (idleExts registered))
    (hrun : WhileLoop.run (extStep (idleExts registered)) fuel s = some (.returned ret calls)) :
    ∃ words, Meets registered s.state.word s.pbuf s.lbuf words := by
  induction fuel generalizing s with
  | zero => cases hrun
  | succ fuel ih =>
    obtain ⟨word, hscan⟩ | hscan | hscan := scans_or s.pbuf s.lbuf
    · let s' := { s with pbuf := word, lbuf := s.lbuf.drop (word.length + 1) }
      match hnext : s.state.word.next registered word with
      | none => exact ⟨[word], .unknown hscan hnext⟩
      | some st =>
        have hnext' : s'.state.word.next ((idleExts registered).map ProtoExt.names) s'.pbuf =
            some st := by
          rw [names_idleExts]
          exact hnext
        obtain ⟨state, rfl, hknown', hswitch⟩ :=
          extSwitch_of_some (s := s') readsNothing_of_mem_idleExts hknown hnext'
        have hstep : extStep (idleExts registered) s = extTurn (idleExts registered) word s :=
          extStep_of_scans hscan
        rw [extTurn, hswitch, callEach_idleExts] at hstep
        obtain hend | hend := em (s'.lbuf = [])
        · refine ⟨[word], .next hscan hnext ?_⟩
          rw [show s.lbuf.drop (word.length + 1) = [] from hend]
          exact .done
        · have hstep := hstep.trans (if_neg hend)
          rw [WhileLoop.run_of_inl hstep] at hrun
          obtain ⟨words, hwords⟩ := ih hknown' hrun
          exact ⟨word :: words, .next hscan hnext hwords⟩
    -- the loop has left memory
    · have hstep : extStep (idleExts registered) s = .inr .outside := by rw [extStep, hscan]
      rw [WhileLoop.run_of_inr hstep] at hrun
      cases hrun
    · have hstep : extStep (idleExts registered) s = .inr .overflow := by rw [extStep, hscan]
      rw [WhileLoop.run_of_inr hstep] at hrun
      cases hrun

end

/-! ### What is parsed by the grammar -/

theorem processExtMessage_of_meets {σ : Type} {exts : List (ProtoExt σ)}
    (hexts : ∀ ext ∈ exts, ∀ cmd ∈ ext.cmd, cmd.ReadsNothing) (data : σ) {pbuf message : Bytes}
    {met : List Bytes} (hne : message ≠ [])
    (hmet : Meets (exts.map ProtoExt.names) .outside pbuf message met) :
    ∃ ret, ProcessExtMessage exts data pbuf message (.returned ret
      (callEach (callbacks exts (WordState.outside.listedBy (exts.map ProtoExt.names) met))
        data).2) := by
  obtain ⟨ret, hret⟩ := hmet.leavesWith hexts (s := ⟨.outside, data, [], pbuf, message⟩) rfl
    (fun _ h ↦ nomatch h) rfl rfl
  rw [LeavesWith, if_neg hne] at hret
  exact ⟨ret, hret⟩

/-- The scan of an empty message runs off it. -/
theorem processExtMessage_nil {σ : Type} (exts : List (ProtoExt σ)) (data : σ) (pbuf : Bytes) :
    ProcessExtMessage exts data pbuf [] .outside :=
  WhileLoop.returns_of_inr rfl

/-- The callbacks that do nothing show which words are met. -/
theorem wellMet_of_parsesByGrammar {registered : ExtNames} {pbuf message : Bytes}
    (h : ParsesByGrammar registered pbuf message) : WellMet registered pbuf message := by
  obtain ⟨ret, calls, hret, hcalls⟩ :=
    h Unit (idleExts registered) () names_idleExts readsNothing_of_mem_idleExts
  have hne : message ≠ [] := by
    rintro rfl
    cases hret.unique (processExtMessage_nil _ () pbuf)
  obtain ⟨fuel, hrun⟩ := hret
  obtain ⟨met, hmet⟩ : ∃ met, Meets registered .outside pbuf message met :=
    exists_meets (s := ⟨.outside, (), [], pbuf, message⟩) (fun _ h ↦ nomatch h) hrun
  refine ⟨hne, met, hmet, fun blocks hseq hnames ↦ ?_⟩
  have hmet' : Meets ((idleExts registered).map ProtoExt.names) .outside pbuf message met := by
    rw [names_idleExts]
    exact hmet
  obtain ⟨ret', hret'⟩ := processExtMessage_of_meets readsNothing_of_mem_idleExts () hne hmet'
  -- the callbacks that are called are those of the words that are met, and of the blocks
  have heq := (ExtResult.returned.inj (hret'.unique ⟨fuel, hrun⟩)).2
  rw [hcalls blocks hseq hnames, callEach_idleExts, callEach_idleExts, names_idleExts] at heq
  have hfilter := filter_eq_of_map_callName heq
  rw [names_idleExts] at hfilter
  exact hfilter

/-- The words that are met decide what is called, whatever the callbacks do. -/
theorem parsesByGrammar_of_wellMet {registered : ExtNames} {pbuf message : Bytes}
    (h : WellMet registered pbuf message) : ParsesByGrammar registered pbuf message := by
  obtain ⟨hne, met, hmet, hlisted⟩ := h
  rintro σ exts data rfl hexts
  obtain ⟨ret, hret⟩ := processExtMessage_of_meets hexts data hne hmet
  refine ⟨ret, _, hret, fun blocks hseq hnames ↦ ?_⟩
  rw [← callbacks_filter, hlisted blocks hseq hnames, callbacks_filter]

end Nufw
