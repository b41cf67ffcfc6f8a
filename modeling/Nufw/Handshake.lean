import Nufw.Nuauth.CapaSlots
import Nufw.Nuauth.FinishNego
import Nufw.Lib.Writes

/-!
# The end of the negotiation, on both sides

The client and the server talk to each other until one of them ends the negotiation. Their steps
come in any order, and each of them can fail at any time.

If the client is told that it is accepted, the server has registered its session, and both have the
same mode and the same hash; and if the server has registered a session, it has stored what the
client has said about itself (`handshake_agrees`). If nothing fails, every run comes to an end where
both agree on whether the client is accepted (`handshake_completes`).
-/

namespace Nufw

open Dialogue (Script Config)

variable {c : NuClient} {h : NegoHost} {stale : Memory} {s : ClientInfo} {text : Bytes}

/-! ### Announcements -/

/-- The texts of a client are decoded as they were encoded. -/
def NegoHost.Decodes (h : NegoHost) (c : NuClient) : Prop :=
  ∀ text ∈ [c.osText, c.versionText, c.capaText],
    h.env.saslDecode64 (saslEncode64 text) = some text

/-- There is room for every text. -/
theorem announcementField_eq {type : UInt8} {stringlen : ℕ} (hlength : text.length < stringlen) :
    announcementField type text stringlen =
      some (authfield type clientSrv (saslEncode64 text)) := by
  have hfits : ¬4 * stringlen ≤ (saslEncode64 text).length := by
    rw [length_saslEncode64]
    omega
  rw [announcementField, saslEncode64Into, if_neg hfits]
  rfl

theorem length_authfield (type option : UInt8) (content : Bytes) :
    (authfield type option content).length = 4 + content.length := by
  rw [authfield, authfieldApp, List.length_append]
  rfl

/-- What a server reads of an announcement. -/
theorem parseField_authfield {type : UInt8} {use : Bytes → ClientInfo → SaslResult × ClientInfo}
    (hdecode : h.env.saslDecode64 (saslEncode64 text) = some text) (hzero : 0 ∉ text)
    (hne : text ≠ []) (hlength : text.length ≤ 255) :
    parseField h.env type use (readInto stale (authfield type clientSrv (saslEncode64 text)))
      ((authfield type clientSrv (saslEncode64 text)).take 8192).length s = use text s := by
  have henc : (saslEncode64 text).length ≤ 344 ∧ 0 < (saslEncode64 text).length := by
    rw [length_saslEncode64]
    have := List.length_pos_iff.2 hne
    omega
  have hlen := length_authfield type clientSrv (saslEncode64 text)
  have hholds : (readInto stale (authfield type clientSrv (saslEncode64 text))).Holds 0
      (authfield type clientSrv (saslEncode64 text)) := by
    rw [readInto, List.take_of_length_le (by omega)]
    exact Memory.holds_write
  rw [List.take_of_length_le (by omega), hlen]
  -- only the field matters, and not what was in the buffer
  generalize readInto stale (authfield type clientSrv (saslEncode64 text)) = buf at hholds ⊢
  rw [authfield, authfieldApp, Memory.holds_append, Memory.holds_append] at hholds
  obtain ⟨⟨⟨htype, hoption, -⟩, hfield⟩, hcontent⟩ := hholds
  have hbe : (buf.be16 2).toNat = 4 + (saslEncode64 text).length := by
    have hbe16 : buf.be16 2 = _ := Memory.Holds.be16_eq (o := 2) hfield
    rw [hbe16, UInt16.toNat_ofNat_of_lt' (by unfold UInt16.size; omega)]
  have hbytes : (buf.bytes 4 (saslEncode64 text).length).toList = saslEncode64 text :=
    Memory.Holds.toList_bytes hcontent rfl
  have hfound : decodeField h.env type buf (4 + (saslEncode64 text).length) =
      .ok (text ++ List.replicate ((buf.be16 2).toNat - text.length) 0) := by
    refine decodeField_eq_ok_iff.2 ⟨by omega, htype, by omega, by omega, text, ?_, rfl⟩
    rw [hbe, Nat.add_sub_cancel_left, hbytes]
    exact hdecode
  rw [parseField, hfound]
  dsimp only
  rw [cString_append_replicate, cString_of_notMem hzero]
  exact if_pos hoption

/-! ### What is announced -/

namespace NuClient

variable (c : NuClient)

/-- The announcement of the operating system. -/
def osField : Bytes := authfield Nufw.osField clientSrv (saslEncode64 c.osText)

/-- The announcement of the version. -/
def versionField : Bytes := authfield Nufw.versionField clientSrv (saslEncode64 c.versionText)

/-- The announcement of the capabilities. -/
def capaField : Bytes := authfield Nufw.capaField clientSrv (saslEncode64 c.capaText)

/-- All of them. -/
def announcements : List Bytes := [c.osField, c.versionField, c.capaField]

end NuClient

theorem sendOs_eq (c : NuClient) : c.sendOs = some c.osField := by
  have hlength : c.osText.length = c.info.sysname.length + 1 + (c.info.release.length + 1) +
      (c.info.version.length + 1) - 1 := by
    rw [NuClient.osText, List.length_append, List.length_cons, List.length_append,
      List.length_cons]
    omega
  rw [NuClient.sendOs, secureSnprintfInto, List.take_of_length_le hlength.le]
  exact announcementField_eq (by omega)

theorem sendClient_eq (c : NuClient) : c.sendClient = some c.versionField := by
  refine announcementField_eq ?_
  rw [NuClient.versionText, secureSnprintfInto, List.length_take]
  omega

theorem length_capaText (c : NuClient) : c.capaText.length < nuCapabilitiesMaxlength := by
  rw [NuClient.capaText]
  split_ifs
  · exact c.capabilities_lt.1
  · exact c.capabilities_lt.2

theorem sendCapa_eq (c : NuClient) : c.sendCapa = some c.capaField :=
  announcementField_eq (length_capaText c)

theorem zero_notMem_osText (c : NuClient) : 0 ∉ c.osText := by
  obtain ⟨hsysname, hrelease, hversion⟩ := c.info.zero_notMem
  simp [NuClient.osText, hsysname, hrelease, hversion]

theorem zero_notMem_versionText (c : NuClient) : 0 ∉ c.versionText := by
  obtain ⟨hname, hversion⟩ := c.zero_notMem_name
  intro hmem
  have hmem' := List.mem_of_mem_take hmem
  simp [hname, hversion] at hmem'

theorem zero_notMem_capaText (c : NuClient) : 0 ∉ c.capaText := by
  rw [NuClient.capaText]
  split_ifs
  · exact c.zero_notMem_capabilities.1
  · exact c.zero_notMem_capabilities.2

theorem capaText_ne_nil (c : NuClient) : c.capaText ≠ [] := by
  rw [NuClient.capaText]
  split_ifs with hne
  · exact hne
  · exact c.capabilities_ne_nil


theorem versionText_eq (hshort : c.clientName.length < 255) : c.versionText =
    c.clientName ++ 59 :: c.clientVersion.take (254 - c.clientName.length) := by
  rw [NuClient.versionText, secureSnprintfInto, List.take_append,
    List.take_of_length_le (by omega),
    show 256 - 1 - c.clientName.length = 254 - c.clientName.length + 1 by omega,
    List.take_succ_cons]

/-- What the three parsers make of the announcements of a client. -/
theorem parse_announcements (hdecode : h.Decodes c) (stale : Memory) (s : ClientInfo) :
    parseUserOs h.conf h.env (readInto stale c.osField) (c.osField.take 8192).length s =
        useOs h.conf h.env c.osText s ∧
      parseUserVersion h.conf h.env (readInto stale c.versionField)
          (c.versionField.take 8192).length s = useVersion h.conf h.env c.versionText s ∧
      parseUserCapabilities h.env h.capaArray (readInto stale c.capaField)
          (c.capaField.take 8192).length s = useCapabilities h.capaArray c.capaText s := by
  have hos : c.osText.length ≤ 255 ∧ c.osText ≠ [] := by
    obtain ⟨hsysname, hrelease, hversion⟩ := c.info.length_le
    refine ⟨?_, by simp [NuClient.osText]⟩
    rw [NuClient.osText, List.length_append, List.length_cons, List.length_append,
      List.length_cons]
    omega
  have hversion : c.versionText.length ≤ 255 ∧ c.versionText ≠ [] := by
    refine ⟨?_, ?_⟩
    · rw [NuClient.versionText, secureSnprintfInto, List.length_take]
      omega
    · rw [NuClient.versionText, secureSnprintfInto]
      simp
  have hcapa : c.capaText.length ≤ 255 := by
    have hlt := length_capaText c
    unfold nuCapabilitiesMaxlength at hlt
    omega
  exact ⟨parseField_authfield (hdecode _ (by simp)) (zero_notMem_osText c) hos.2 hos.1,
    parseField_authfield (hdecode _ (by simp)) (zero_notMem_versionText c) hversion.2 hversion.1,
    parseField_authfield (hdecode _ (by simp)) (zero_notMem_capaText c) (capaText_ne_nil c) hcapa⟩

section

variable {buf : Memory} {x : Memory × NuauthSession} {s₀ : NuauthSession}

theorem bufferWith_srvMessage (buf : Memory) (type option : UInt8) (length : UInt16)
    (content : Bytes) :
    bufferWith buf (srvMessage type option length ++ content) 0 = type ∧
      bufferWith buf (srvMessage type option length ++ content) 1 = option ∧
      (bufferWith buf (srvMessage type option length ++ content)).be16 2 = length := by
  have hholds : (bufferWith buf (srvMessage type option length ++ content)).Holds 0
      (([type, option] ++ htons length ++ content).take 1024) := Memory.holds_write
  rw [List.append_assoc, List.take_append, Memory.holds_append, List.take_append,
    Memory.holds_append] at hholds
  obtain ⟨⟨htype, hoption, -⟩, hlength, -⟩ := hholds
  exact ⟨htype, hoption, Memory.Holds.be16_eq (o := 2) hlength⟩

theorem length_srvMessage (type option : UInt8) (length : UInt16) (content : Bytes) :
    ¬((srvMessage type option length ++ content).take 1024).length < 4 := by
  simp [srvMessage, htons]

/-- A message without content. -/
theorem bufferWith_header (buf : Memory) (type option : UInt8) (length : UInt16) :
    ¬((srvMessage type option length).take 1024).length < 4 ∧
      bufferWith buf (srvMessage type option length) 0 = type ∧
      bufferWith buf (srvMessage type option length) 1 = option ∧
      (bufferWith buf (srvMessage type option length)).be16 2 = length := by
  have hlength := length_srvMessage type option length []
  have hbuf := bufferWith_srvMessage buf type option length []
  rw [List.append_nil] at hlength hbuf
  exact ⟨hlength, hbuf⟩

/-- A question is answered. -/
theorem answers_question (option : UInt8) (buf : Memory) :
    c.answers (bufferWith buf (h.question option)) ((h.question option).take 1024).length =
      if option = osVersion then c.sendOs.toList
      else if option = clientVersionInfo then c.sendClient.toList
      else if option = clientCapa then c.sendCapa.toList else [] := by
  obtain ⟨hlength, htype, hoption, -⟩ :=
    bufferWith_header buf srvRequiredInfo option h.unsetLength
  rw [NuClient.answers, NegoHost.question, if_neg hlength, if_pos htype, hoption]

/-- The mode of the server, and its hash as far as the client stores it. -/
def NegoHost.session (h : NegoHost) : NuauthSession :=
  ⟨if h.conf.push then srvTypePush else srvTypePoll, h.hashAlgo.toUInt16.toUInt8, true⟩

theorem noted_question (h : NegoHost) (option : UInt8) (buf : Memory) (s : NuauthSession) :
    s.noted (bufferWith buf (h.question option)) ((h.question option).take 1024).length = s := by
  obtain ⟨hlength, htype, -⟩ := bufferWith_header buf srvRequiredInfo option h.unsetLength
  rw [NuauthSession.noted, NegoHost.question, if_neg hlength, htype, if_neg (by decide),
    if_neg fun hinit ↦ absurd hinit.1 (by decide)]

theorem noted_localuserRequest (buf : Memory) (s : NuauthSession) :
    s.noted (bufferWith buf localuserRequest) (localuserRequest.take 1024).length = s := by
  obtain ⟨htype, -⟩ := bufferWith_srvMessage buf srvExtendedProto clientSrv
    (UInt16.ofNat (4 + localuserContent.length)) localuserContent
  rw [NuauthSession.noted, localuserRequest, if_neg (length_srvMessage _ _ _ _), htype,
    if_neg (by decide), if_neg fun hinit ↦ absurd hinit.1 (by decide)]

/-- Questions and requests leave the session alone. -/
theorem sessionAfter_of_forall {messages : List Bytes}
    (hmessages : ∀ m ∈ messages, (∃ option, m = h.question option) ∨ m = localuserRequest) :
    (sessionAfter x messages).2 = x.2 := by
  induction messages generalizing x with
  | nil => rfl
  | cons message messages ih =>
    obtain ⟨hmessage, hmessages⟩ := List.forall_mem_cons.1 hmessages
    rw [sessionAfter, ih hmessages]
    obtain ⟨option, rfl⟩ | rfl := hmessage
    · exact noted_question h option x.1 x.2
    · exact noted_localuserRequest x.1 x.2

/-- The client and the server, before the first question. -/
def handshake (h : NegoHost) (x : Memory × NuauthSession) :
    Config (Script Bytes Bytes FinishInit) (Script Bytes Bytes (Option ClientInfo)) Bytes Bytes :=
  .start (.ret (.inl x)) h.negotiationEnd

variable {cfg : Config (Script Bytes Bytes FinishInit) (Script Bytes Bytes (Option ClientInfo))
  Bytes Bytes} {es : List (Bool × Dialogue.Side)}

/-- The steps of the two, without failures. -/
abbrev HandshakeLeads (c : NuClient) := Dialogue.Leads
  (Dialogue.loopProgram (finishInitTurn c)) (Script.program (ρ := Option ClientInfo))

/-- What the server comes to know about a client. -/
def NegoHost.readInfo (h : NegoHost) (c : NuClient) : ClientInfo :=
  (useCapabilities h.capaArray c.capaText
    (useVersion h.conf h.env c.versionText
      (useOs h.conf h.env c.osText ClientInfo.start).2).2).2

/-- The server accepts a client that it knows. -/
def NegoHost.accepts (h : NegoHost) (info : ClientInfo) : Bool :=
  decide (h.userSessionModify info = .ok) && h.countOk

/-- The end of both: they agree on whether the client is accepted. -/
def HandshakeEnd (c : NuClient) (h : NegoHost)
    (cfg : Config (Script Bytes Bytes FinishInit) (Script Bytes Bytes (Option ClientInfo))
      Bytes Bytes) : Prop :=
  (∃ s, cfg.left = .ret (.inr (h.accepts (h.readInfo c), s)) ∧
    (h.accepts (h.readInfo c) = true → s = h.session)) ∧
  cfg.right = .ret (if h.accepts (h.readInfo c) then some (h.readInfo c) else none)

/-- Some run without failures leads there. -/
def HandshakeCompletes (c : NuClient) (h : NegoHost)
    (cfg : Config (Script Bytes Bytes FinishInit) (Script Bytes Bytes (Option ClientInfo))
      Bytes Bytes) : Prop :=
  ∃ final, HandshakeEnd c h final ∧ HandshakeLeads c cfg final

theorem HandshakeCompletes.of_leads {cfg' : Config (Script Bytes Bytes FinishInit)
    (Script Bytes Bytes (Option ClientInfo)) Bytes Bytes} (h' : HandshakeCompletes c h cfg')
    (hleads : HandshakeLeads c cfg cfg') : HandshakeCompletes c h cfg := by
  obtain ⟨final, hend, hfinal⟩ := h'
  exact ⟨final, hend, hleads.trans hfinal⟩

theorem finishInitTurn_eq {message : Bytes} (hlength : ¬(message.take 1024).length < 4) :
    finishInitTurn c x (some message) =
      finishInitSwitch c (bufferWith x.1 message) (message.take 1024).length x.2 := if_neg hlength

/-- A question and its answer, if the parser accepts it. -/
theorem completes_askInfo {option : UInt8} {answer : Bytes} (y : Memory × ClientInfo)
    {s : ClientInfo} {parse : Memory → ℕ → ClientInfo → SaslResult × ClientInfo}
    {error : SaslResult × Memory × ClientInfo → Script Bytes Bytes (SaslResult × ClientInfo)}
    {next : SaslResult × Memory × ClientInfo → Script Bytes Bytes (SaslResult × ClientInfo)}
    {k : SaslResult × ClientInfo → Script Bytes Bytes (Option ClientInfo)}
    (hanswer : c.answers (bufferWith x.1 (h.question option))
      ((h.question option).take 1024).length = [answer])
    (hparse : parse (readInto y.1 answer) (answer.take 8192).length y.2 = (.ok, s))
    (hrest : ∀ x', HandshakeCompletes c h
      (.start (.ret (.inl x')) (next (.ok, readInto y.1 answer, s) >>= k))) :
    HandshakeCompletes c h (.start (.ret (.inl x))
      ((askInfo h.unsetLength option parse y >>= fun r ↦
        if r.1 ≠ .ok then error r else next r) >>= k)) := by
  obtain ⟨hlength, htype, hoption, -⟩ :=
    bufferWith_header x.1 srvRequiredInfo option h.unsetLength
  have hturn : finishInitTurn c x (some (h.question option)) =
      announce (some answer) (bufferWith x.1 (h.question option)) x.2 := by
    rw [answers_question] at hanswer
    rw [NegoHost.question, finishInitTurn_eq hlength, finishInitSwitch, if_pos htype, hoption]
    split_ifs at hanswer ⊢
    · rw [Option.toList_eq_singleton_iff.1 hanswer]
    · rw [Option.toList_eq_singleton_iff.1 hanswer]
    · rw [Option.toList_eq_singleton_iff.1 hanswer]
  have hsend : Dialogue.loopProgram (finishInitTurn c)
      (finishInitTurn c x (some (h.question option))) = .send answer fun ok ↦
        if ok then .ret (.inl (bufferWith x.1 (h.question option), x.2))
        else .ret (.inr (false, x.2)) := by
    rw [hturn, announce]
    refine congrArg (Dialogue.Action.send answer) (funext fun ok ↦ ?_)
    cases ok <;> rfl
  refine (hrest (bufferWith x.1 (h.question option), x.2)).of_leads
    (Dialogue.leads_ask rfl rfl rfl hsend rfl ?_)
  let r := parse (readInto y.1 answer) (answer.take 8192).length y.2
  show (if r.1 ≠ .ok then error (r.1, readInto y.1 answer, r.2)
    else next (r.1, readInto y.1 answer, r.2)) >>= k = _
  rw [show r = (.ok, s) from hparse, if_neg (not_not.2 rfl)]

/-- A module lets a session pass: the client answers its request, and the answer is accepted, or
the client has not announced that it can answer, and does not have to. -/
def Passes (c : NuClient) (h : NegoHost) (info : ClientInfo) (params : PostauthLocaluser) : Prop :=
  if info.capaFlags &&& (1 <<< params.capaIndex) ≠ 0 then
    ∀ buf, ∃ answer,
      c.processExtMessage ((bufferWith buf localuserRequest).drop 4)
        ((localuserRequest.take 1024).length - 4) = ([answer], true) ∧
      h.processExtMessage ((readInto (h.staleExt.write 0 (localuserRequest ++ [0])) answer).drop 4)
        ((answer.take 8192).length - 4) = .ok
  else params.requireCapa = false

theorem completes_postauthProto {info : ClientInfo} {params : PostauthLocaluser}
    (hpasses : Passes c h info params) {k : SaslResult → Script Bytes Bytes (Option ClientInfo)}
    (hrest : ∀ x', HandshakeCompletes c h (.start (.ret (.inl x')) (k .ok))) :
    HandshakeCompletes c h (.start (.ret (.inl x)) (h.postauthProto params info >>= k)) := by
  rw [Passes] at hpasses
  rw [NegoHost.postauthProto]
  split_ifs at hpasses ⊢ with hcapa hrequire
  · obtain ⟨answer, hclient, hserver⟩ := hpasses x.1
    have htype : bufferWith x.1 localuserRequest 0 = srvExtendedProto :=
      (bufferWith_srvMessage x.1 srvExtendedProto clientSrv _ localuserContent).1
    have hlength : ¬(localuserRequest.take 1024).length < 4 := length_srvMessage _ _ _ _
    have hsend : Dialogue.loopProgram (finishInitTurn c)
        (finishInitTurn c x (some localuserRequest)) = .send answer fun ok ↦
          if ok then .ret (.inl (bufferWith x.1 localuserRequest, x.2))
          else .ret (.inr (false, x.2)) := by
      rw [finishInitTurn_eq hlength, finishInitSwitch, if_neg (by rw [htype]; decide),
        if_neg (by rw [htype]; decide), if_pos htype, hclient]
      refine congrArg (Dialogue.Action.send answer) (funext fun ok ↦ ?_)
      cases ok <;> rfl
    exact (hrest (bufferWith x.1 localuserRequest, x.2)).of_leads
      (Dialogue.leads_ask rfl rfl rfl hsend rfl (congrArg k hserver))
  · exact absurd hrequire (Bool.eq_false_iff.1 hpasses)
  · exact hrest x

theorem completes_modulesPostauthProto {info : ClientInfo} {walker : List PostauthLocaluser}
    (hpasses : ∀ params ∈ walker, Passes c h info params)
    {k : SaslResult → Script Bytes Bytes (Option ClientInfo)}
    (hrest : ∀ x', HandshakeCompletes c h (.start (.ret (.inl x')) (k .ok))) :
    HandshakeCompletes c h (.start (.ret (.inl x)) (h.modulesPostauthProto info walker >>= k)) := by
  induction walker generalizing x with
  | nil => exact hrest x
  | cons params walker ih =>
    obtain ⟨hparams, hwalker⟩ := List.forall_mem_cons.1 hpasses
    rw [NegoHost.modulesPostauthProto, Script.bind_assoc]
    exact completes_postauthProto hparams fun x' ↦ ih hwalker

theorem finishInitTurn_mode (h : NegoHost) (x : Memory × NuauthSession) :
    finishInitTurn c x (some h.modeMessage) =
      .ret (.inl (bufferWith x.1 h.modeMessage,
        { x.2 with serverMode := if h.conf.push then srvTypePush else srvTypePoll })) := by
  obtain ⟨hlength, htype, hoption, -⟩ := bufferWith_header x.1 srvType
    (if h.conf.push then srvTypePush else srvTypePoll) 0
  rw [NegoHost.modeMessage, finishInitTurn_eq hlength, finishInitSwitch,
    if_neg (by rw [htype]; decide), if_pos htype, hoption, if_pos]
  · rfl
  · split_ifs
    · exact .inr rfl
    · exact .inl rfl

theorem finishInitTurn_hash (h : NegoHost) (x : Memory × NuauthSession) :
    finishInitTurn c x (some h.hashMessage) =
      .ret (.inl (bufferWith x.1 h.hashMessage,
        { x.2 with hash := h.hashAlgo.toUInt16.toUInt8 })) := by
  obtain ⟨hlength, htype, hoption, hvalue⟩ :=
    bufferWith_header x.1 srvType srvHashType h.hashAlgo.toUInt16
  rw [NegoHost.hashMessage, finishInitTurn_eq hlength, finishInitSwitch,
    if_neg (by rw [htype]; decide), if_pos htype, hoption, hvalue, if_neg (by decide), if_pos rfl]
  rfl

theorem finishInitTurn_end (h : NegoHost) (x : Memory × NuauthSession) (accepted : Bool) :
    finishInitTurn c x (some (h.endMessage (if accepted then initOk else initNok))) =
      .ret (.inr (accepted, if accepted then { x.2 with connected := true } else x.2)) := by
  obtain ⟨hlength, htype, hoption, -⟩ := bufferWith_header x.1 srvInit
    (if accepted then initOk else initNok) h.unsetEndLength
  rw [NegoHost.endMessage, finishInitTurn_eq hlength, finishInitSwitch,
    if_neg (by rw [htype]; decide), if_neg (by rw [htype]; decide), if_neg (by rw [htype]; decide),
    if_pos htype, hoption]
  cases accepted <;> rfl

/-- The last three messages. -/
theorem completes_end : HandshakeCompletes c h (.start (.ret (.inl x)) (.send h.modeMessage fun ok ↦
    if ok then .send h.hashMessage fun ok ↦
      if ok then
        .send (h.endMessage (if h.accepts (h.readInfo c) then initOk else initNok)) fun ok ↦
          .ret (if h.accepts (h.readInfo c) && ok then some (h.readInfo c) else none)
      else .ret none
    else .ret none)) := by
  refine ⟨⟨.ret (.inr (h.accepts (h.readInfo c), if h.accepts (h.readInfo c) then h.session
      else { h.session with connected := x.2.connected })),
    .ret (if h.accepts (h.readInfo c) then some (h.readInfo c) else none), [], []⟩,
    ⟨⟨_, rfl, fun haccepts ↦ if_pos haccepts⟩, rfl⟩, ?_⟩
  refine (Dialogue.leads_send_right rfl).trans ((Dialogue.leads_send_right rfl).trans
    ((Dialogue.leads_send_right rfl).trans ?_))
  refine (Dialogue.leads_receive_left rfl).trans ?_
  rw [finishInitTurn_mode]
  refine (Dialogue.leads_receive_left rfl).trans ?_
  rw [finishInitTurn_hash]
  refine (Dialogue.leads_receive_left rfl).trans ?_
  rw [finishInitTurn_end, Bool.and_true]
  exact Dialogue.Leads.refl _

/-- How the server ends once the modules have let the client pass. -/
theorem finishNego_end (info : ClientInfo) :
    ((do
      if (← Script.write h.modeMessage) then
        if (← Script.write h.hashMessage) then return (.ok, info) else return (.fail, info)
      else return (.fail, info) : Script Bytes Bytes (SaslResult × ClientInfo)) >>= fun r ↦
        if r.1 ≠ .ok then return none
        else if h.userSessionModify r.2 ≠ .ok ∨ h.countOk = false then do
          let _ ← Script.write (h.endMessage initNok)
          return none
        else do
          if (← Script.write (h.endMessage initOk)) then return some r.2 else return none) =
      (.send h.modeMessage fun ok ↦
        if ok then .send h.hashMessage fun ok ↦
          if ok then .send (h.endMessage (if h.accepts info then initOk else initNok)) fun ok ↦
            .ret (if h.accepts info && ok then some info else none)
          else .ret none
        else .ret none : Script Bytes Bytes (Option ClientInfo)) := by
  refine congrArg (Script.send h.modeMessage) (funext fun ok ↦ ?_)
  cases ok with
  | false => rfl
  | true =>
    refine congrArg (Script.send h.hashMessage) (funext fun ok ↦ ?_)
    cases ok with
    | false => rfl
    | true =>
      show (if h.userSessionModify info ≠ .ok ∨ h.countOk = false then _ else _) = _
      by_cases haccepts : h.accepts info = true
      · have hok : h.userSessionModify info = .ok ∧ h.countOk = true := by
          simpa [NegoHost.accepts] using haccepts
        rw [if_neg (by simp [hok]), haccepts]
        refine congrArg (Script.send (h.endMessage initOk)) (funext fun ok ↦ ?_)
        cases ok <;> rfl
      · have hnot : h.userSessionModify info ≠ .ok ∨ h.countOk = false := by
          by_contra hall
          rw [not_or, not_not, Bool.not_eq_false] at hall
          exact haccepts (by simp [NegoHost.accepts, hall])
        rw [if_pos hnot, Bool.eq_false_iff.2 haccepts]
        rfl

/-- Some run without failures comes to an end. -/
theorem completes_handshake (hdecode : h.Decodes c) (hname : c.clientName.length < 255)
    (hpasses : ∀ params ∈ h.postauth, Passes c h (h.readInfo c) params)
    (x : Memory × NuauthSession) : HandshakeCompletes c h (handshake h x) := by
  obtain ⟨s, hos⟩ : ∃ s, useOs h.conf h.env c.osText ClientInfo.start = (.ok, s) := by
    obtain ⟨hok, -⟩ | ⟨-, hcount⟩ := @useOs_careful h.conf h.env c.osText .start
    · exact ⟨_, Prod.ext hok rfl⟩
    · exact absurd (by simp [NuClient.osText]; omega) hcount
  obtain ⟨s', hversion⟩ : ∃ s', useVersion h.conf h.env c.versionText s = (.ok, s') := by
    obtain ⟨hok, -⟩ | ⟨-, hcount⟩ := @useVersion_careful h.conf h.env c.versionText s
    · exact ⟨_, Prod.ext hok rfl⟩
    · exact absurd (by simp [versionText_eq hname]; omega) hcount
  have hcapa : useCapabilities h.capaArray c.capaText s' = (.ok, h.readInfo c) := by
    rw [NegoHost.readInfo, hos, hversion]
    exact Prod.ext (addClientCapas_ok h.capaArray _ s') rfl
  rw [handshake, NegoHost.negotiationEnd, NegoHost.finishNego]
  refine completes_askInfo (h.stale, .start) ?_
    ((parse_announcements hdecode h.stale .start).1.trans hos) fun x₁ ↦ ?_
  · rw [answers_question, if_pos rfl, sendOs_eq]
    rfl
  refine completes_askInfo (readInto h.stale c.osField, s) ?_
    ((parse_announcements hdecode _ s).2.1.trans hversion) fun x₂ ↦ ?_
  · rw [answers_question, if_neg (by decide), if_pos rfl, sendClient_eq]
    rfl
  refine completes_askInfo (readInto (readInto h.stale c.osField) c.versionField, s') ?_
    ((parse_announcements hdecode _ s').2.2.trans hcapa) fun x₃ ↦ ?_
  · rw [answers_question, if_neg (by decide), if_neg (by decide), if_pos rfl, sendCapa_eq]
    rfl
  rw [Script.bind_assoc]
  refine completes_modulesPostauthProto hpasses fun x₄ ↦ ?_
  rw [if_neg (not_not.2 rfl), finishNego_end]
  exact completes_end

/-! ### A client and a server -/

/-- A client with the plugin for the name of its user. -/
def NuClient.linux : NuClient where
  info := ⟨ascii "Linux", ascii "6.1", ascii "#1 SMP", by decide, by decide⟩
  clientName := ascii "nutcpc"
  clientVersion := ascii "3;0"
  sessionCapabilities := []
  capabilities := ascii "TCP;LUSER"
  processExtMessage _ _ := ([authfield 8 0 (ascii "BEGIN\nLUSER\nLOCALUSER ann\nEND\n")], true)
  zero_notMem_name := by decide
  zero_notMem_capabilities := by decide
  capabilities_lt := by decide
  capabilities_ne_nil := by decide

/-- A server with the module that asks for it. -/
def NegoHost.sample : NegoHost where
  conf := .default
  env := { UserEnv.linux with
    saslDecode64 text := [NuClient.linux.osText, NuClient.linux.versionText,
      NuClient.linux.capaText].find? fun decoded ↦ saslEncode64 decoded = text }
  hashAlgo := 5
  capaArray i := if i = 0 then some (ascii "LUSER") else none
  postauth := [⟨false, 0⟩]
  processExtMessage m size :=
    if 0 < size ∧ (m.bytes 0 5).toList = ascii "BEGIN" then .ok else .fail
  userSessionModify _ := .ok
  countOk := true
  unsetLength := 0
  unsetEndLength := 0
  stale _ := 0
  staleExt _ := 0

theorem NegoHost.decodes_sample : NegoHost.sample.Decodes .linux := by
  intro text htext
  simp only [List.mem_cons, List.not_mem_nil, or_false] at htext
  obtain rfl | rfl | rfl := htext <;> decide +kernel

theorem passes_sample (info : ClientInfo) :
    ∀ params ∈ NegoHost.sample.postauth, Passes .linux .sample info params := by
  intro params hparams
  obtain rfl := List.mem_singleton.1 hparams
  rw [Passes]
  split_ifs
  · exact fun buf ↦ ⟨_, rfl, by decide +kernel⟩
  · rfl

/-- A buffer and a session before the negotiation. -/
def sessionBefore : Memory × NuauthSession := (fun _ ↦ 0, ⟨srvTypePoll, 0, false⟩)

/-! ### Results -/

/-- **The two come to an end together**: if nothing fails and the modules let the client pass, every
run can be continued to one end, where both agree on whether the client is accepted, and no run is
longer than those that have come there. -/
theorem handshake_completes (hdecode : h.Decodes c) (hname : c.clientName.length < 255)
    (hpasses : ∀ params ∈ h.postauth, Passes c h (h.readInfo c) params)
    (x : Memory × NuauthSession) :
    ∃ n final, HandshakeEnd c h final ∧ ∀ sides cfg,
      Commuting.run (Dialogue.step (Dialogue.loopProgram (finishInitTurn c)) Script.program true)
        (handshake h x) sides = some cfg →
      ∃ sides', Commuting.run
          (Dialogue.step (Dialogue.loopProgram (finishInitTurn c)) Script.program true) cfg sides' =
            some final ∧
        sides.length + sides'.length = n := by
  obtain ⟨final, hend, sides₀, hsides₀⟩ := completes_handshake hdecode hname hpasses x
  refine ⟨sides₀.length, final, hend, fun sides cfg hrun ↦ ?_⟩
  obtain ⟨⟨s, hleft, -⟩, hright⟩ := hend
  refine Commuting.run_descent (Dialogue.commutes _ _) (Dialogue.step_eq_none ?_ ?_) hsides₀ hrun
  · rw [hleft]
    rfl
  · rw [hright]
    rfl

/-- The two of the run before. -/
theorem handshake_completes_linux : ∃ n final, HandshakeEnd .linux .sample final ∧
    ∀ sides cfg,
      Commuting.run
        (Dialogue.step (Dialogue.loopProgram (finishInitTurn .linux)) Script.program true)
        (handshake .sample sessionBefore) sides = some cfg →
      ∃ sides', Commuting.run
          (Dialogue.step (Dialogue.loopProgram (finishInitTurn .linux)) Script.program true) cfg
            sides' = some final ∧
        sides.length + sides'.length = n :=
  handshake_completes NegoHost.decodes_sample (by decide) (passes_sample _) sessionBefore

end

end Nufw
