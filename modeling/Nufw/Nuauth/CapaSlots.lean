import Nufw.Lib.Transition
import Nufw.Nuauth.ClientInfo
import Nufw.Nuauth.MarkModules

/-!
# Registered capabilities

`register_client_capa` and `unregister_client_capa` of `modules.c` keep the names of capabilities in
32 slots: a new name goes to the first free slot, and a slot can become free again. The bit of a
slot is set in a session when the client announces its name (`parse_user_capabilities`).

The search for a name ends at the first free slot. In every state that modules can lead to, a
capability is recognised exactly if no slot before its own is free (`recognisesCapas_iff`). So it is
as long as modules go in the reverse order of their arrival (`recognisesCapas_of_stack`).
-/

namespace Nufw

/-- `capa_array`. -/
abbrev CapaArray := ℕ → Option Bytes

/-- The loop of `register_client_capa`, which looks for a free slot. -/
def firstFreeSlot (capaArray : CapaArray) : ℕ → ℕ → Option ℕ
  | 0, _ => none
  | n + 1, i => if capaArray i = none then some i else firstFreeSlot capaArray n (i + 1)

/-- `register_client_capa`: the index, unless there is no slot left. -/
def registerClientCapa (name : Bytes) (capaArray : CapaArray) : Option ℕ × CapaArray :=
  match firstFreeSlot capaArray 32 0 with
  | some i => (some i, Function.update capaArray i (some name))
  | none => (none, capaArray)

/-- `unregister_client_capa`. -/
def unregisterClientCapa (index : ℕ) (capaArray : CapaArray) : CapaArray :=
  Function.update capaArray index none

/-- A module is loaded or unloaded. -/
inductive CapaEvent
  | register (name : Bytes)
  | unregister (index : ℕ)

/-- The slots over time. A name that is registered is not there already, and an index that is given
back is one that was handed out. -/
def capaMachine : Machine CapaArray CapaEvent where
  init capaArray := capaArray = fun _ ↦ none
  enabled capaArray
    | .register name => ∀ i < 32, capaArray i ≠ some name
    | .unregister index => index < 32
  step capaArray
    | .register name => (registerClientCapa name capaArray).2
    | .unregister index => unregisterClientCapa index capaArray

instance (capaArray : CapaArray) (event : CapaEvent) :
    Decidable (capaMachine.enabled capaArray event) :=
  match event with
  | .register name => inferInstanceAs (Decidable (∀ i < 32, capaArray i ≠ some name))
  | .unregister index => inferInstanceAs (Decidable (index < 32))

/-! ### The slots -/

theorem firstFreeSlot_eq_some {capaArray : CapaArray} {n i k : ℕ}
    (h : firstFreeSlot capaArray n i = some k) :
    capaArray k = none ∧ i ≤ k ∧ k < i + n ∧ ∀ j, i ≤ j → j < k → (capaArray j).isSome := by
  induction n generalizing i with
  | zero => cases h
  | succ n ih =>
    rw [firstFreeSlot] at h
    split_ifs at h with hfree
    · obtain rfl := Option.some.inj h
      exact ⟨hfree, Nat.le_refl _, by omega, fun j hle hlt ↦ absurd hle (by omega)⟩
    · obtain ⟨hk, hle, hlt, hbefore⟩ := ih h
      refine ⟨hk, by omega, by omega, fun j hij hjk ↦ ?_⟩
      rcases Nat.eq_or_lt_of_le hij with rfl | hij
      · exact Option.isSome_iff_ne_none.2 hfree
      · exact hbefore j hij hjk

/-- **What registering does**: the name is put in the first free slot, or nothing happens. -/
theorem registerClientCapa_cases (name : Bytes) (capaArray : CapaArray) :
    (registerClientCapa name capaArray).2 = capaArray ∨
      ∃ k < 32, capaArray k = none ∧ (∀ j < k, (capaArray j).isSome) ∧
        (registerClientCapa name capaArray).2 = Function.update capaArray k (some name) := by
  rw [registerClientCapa]
  cases hfree : firstFreeSlot capaArray 32 0 with
  | none => exact Or.inl rfl
  | some k =>
    obtain ⟨hk, -, hlt, hbefore⟩ := firstFreeSlot_eq_some hfree
    exact Or.inr ⟨k, by omega, hk, fun j hj ↦ hbefore j (Nat.zero_le j) hj, rfl⟩

/-- No name stands twice. -/
def DistinctCapas (capaArray : CapaArray) : Prop :=
  ∀ i < 32, ∀ j < 32, ∀ name, capaArray i = some name → capaArray j = some name → i = j

theorem distinctCapas_update {capaArray : CapaArray} (h : DistinctCapas capaArray) {k : ℕ}
    {entry : Option Bytes} (hnew : ∀ name, entry = some name → ∀ i < 32, capaArray i ≠ some name) :
    DistinctCapas (Function.update capaArray k entry) := by
  intro i hi32 j hj32 name hi hj
  rw [Function.update_apply] at hi hj
  split_ifs at hi hj with hik hjk
  · rw [hik, hjk]
  · exact absurd hj (hnew name hi j hj32)
  · exact absurd hi (hnew name hj i hi32)
  · exact h i hi32 j hj32 name hi hj

/-- **The invariant of the slots.** -/
theorem distinctCapas_of_reachable {ok : CapaArray → CapaEvent → Prop} {capaArray : CapaArray}
    (h : capaMachine.Reach ok capaArray) : DistinctCapas capaArray := by
  refine h.invariant ?_ ?_
  · rintro _ rfl i _ j _ name hi
    cases hi
  · intro capaArray event hdistinct henabled _
    cases event with
    | register name =>
      change DistinctCapas (registerClientCapa name capaArray).2
      obtain hsame | ⟨k, -, -, -, hput⟩ := registerClientCapa_cases name capaArray
      · rw [hsame]
        exact hdistinct
      · rw [hput]
        refine distinctCapas_update hdistinct fun name' hname' ↦ ?_
        obtain rfl := Option.some.inj hname'
        exact henabled
    | unregister index => exact distinctCapas_update hdistinct nofun

/-! ### What is recognised -/

theorem bit_one_shiftLeft {i k : ℕ} (hi : i < 32) (hk : k < 32) :
    bit (1 <<< UInt32.ofNat i) k = decide (k = i) := by
  have hnat : (UInt32.ofNat i).toNat = i := by
    rw [UInt32.toNat_ofNat']
    omega
  have hlt : UInt32.ofNat i < 32 := UInt32.lt_iff_toNat_lt.2 (by rw [hnat]; exact hi)
  have hone : bit 1 (k - i) = decide (k - i = 0) := BitVec.getLsbD_one.trans (by simp)
  rw [bit_shiftLeft 1 hlt hk, hnat, hone, ← Bool.decide_and]
  exact decide_eq_decide.2 (by omega)

/-- The search reaches the slot of the name. -/
def Found (capaArray : CapaArray) (value : Bytes) (i k : ℕ) : Prop :=
  i ≤ k ∧ capaArray k = some value ∧
    ∀ j, i ≤ j → j < k → ∃ name, capaArray j = some name ∧ name ≠ value

/-- The search adds the bit of the slot that it reaches. -/
theorem bit_addClientCapaFrom (capaArray : CapaArray) (value : Bytes) {n i k : ℕ}
    (hi : i + n = 32) (hk : k < 32) (flags : UInt32) :
    bit (addClientCapaFrom capaArray value n i flags).2 k = true ↔
      bit flags k = true ∨ Found capaArray value i k := by
  induction n generalizing i with
  | zero =>
    refine (or_iff_left ?_).symm
    rintro ⟨hle, -⟩
    omega
  | succ n ih =>
    rw [addClientCapaFrom]
    cases hslot : capaArray i with
    | none =>
      refine (or_iff_left ?_).symm
      rintro ⟨hle, hvalue, hbefore⟩
      rcases Nat.eq_or_lt_of_le hle with rfl | hlt
      · rw [hslot] at hvalue
        cases hvalue
      · obtain ⟨name, hname, -⟩ := hbefore i (Nat.le_refl i) hlt
        rw [hslot] at hname
        cases hname
    | some capa =>
      dsimp only
      by_cases hcapa : capa = value
      · subst hcapa
        rw [if_pos rfl, bit_or, bit_one_shiftLeft (by omega) hk, Bool.or_eq_true,
          decide_eq_true_eq]
        refine or_congr_right ⟨?_, ?_⟩
        · rintro rfl
          exact ⟨Nat.le_refl k, hslot, fun j hle hlt ↦ absurd hle (not_le.2 hlt)⟩
        · rintro ⟨hle, -, hbefore⟩
          by_contra hne
          obtain ⟨name, hname, hdiff⟩ := hbefore i (Nat.le_refl i) (by omega)
          exact hdiff (Option.some.inj (hname.symm.trans hslot))
      · rw [if_neg hcapa, ih (by omega)]
        refine or_congr_right ⟨?_, ?_⟩
        · rintro ⟨hle, hvalue, hbefore⟩
          refine ⟨by omega, hvalue, fun j hij hjk ↦ ?_⟩
          rcases Nat.eq_or_lt_of_le hij with rfl | hij
          · exact ⟨capa, hslot, hcapa⟩
          · exact hbefore j hij hjk
        · rintro ⟨hle, hvalue, hbefore⟩
          have hne : i ≠ k := by
            rintro rfl
            exact hcapa (Option.some.inj (hslot.symm.trans hvalue))
          exact ⟨by omega, hvalue, fun j hij hjk ↦ hbefore j (by omega) hjk⟩

/-- All announced names are looked for. -/
theorem bit_addClientCapas (capaArray : CapaArray) (values : List Bytes) {k : ℕ} (hk : k < 32)
    (s : ClientInfo) :
    bit (addClientCapas capaArray values s).2.capaFlags k = true ↔
      bit s.capaFlags k = true ∨ ∃ value ∈ values, Found capaArray value 0 k := by
  induction values generalizing s with
  | nil => simp [addClientCapas]
  | cons value values ih =>
    have hne : (addClientCapa capaArray value s.capaFlags).1 ≠ .fail :=
      addClientCapaFrom_ne_fail capaArray value 32 0 s.capaFlags
    rw [addClientCapas, if_neg hne, ih]
    dsimp only
    rw [addClientCapa, bit_addClientCapaFrom capaArray value rfl hk, or_assoc]
    simp only [List.mem_cons, exists_eq_or_imp]

/-- The names in a capability string. -/
def capaNames (text : Bytes) : List Bytes := if text = [] then [] else text.splitOn 59

/-- The session has the bits of the slots whose name occurs in the string, and no others. -/
def RecognisesCapas (capaArray : CapaArray) (text : Bytes) (s : ClientInfo) : Prop :=
  ∀ i < 32, bit s.capaFlags i = true ↔ ∃ name, capaArray i = some name ∧ name ∈ capaNames text

/-- No slot is free before one whose name occurs in the string. -/
def FilledBefore (capaArray : CapaArray) (text : Bytes) : Prop :=
  ∀ i < 32, ∀ name, capaArray i = some name → name ∈ capaNames text →
    ∀ j < i, (capaArray j).isSome

/-- With distinct names, only free slots stand in the way. -/
theorem found_iff {capaArray : CapaArray} (hdistinct : DistinctCapas capaArray) {value : Bytes}
    {k : ℕ} (hk : k < 32) : Found capaArray value 0 k ↔
      capaArray k = some value ∧ ∀ j < k, (capaArray j).isSome := by
  constructor
  · rintro ⟨-, hvalue, hbefore⟩
    refine ⟨hvalue, fun j hj ↦ ?_⟩
    obtain ⟨name, hname, -⟩ := hbefore j (Nat.zero_le j) hj
    exact hname ▸ rfl
  · rintro ⟨hvalue, hbefore⟩
    refine ⟨Nat.zero_le k, hvalue, fun j _ hj ↦ ?_⟩
    obtain ⟨name, hname⟩ := Option.isSome_iff_exists.1 (hbefore j hj)
    refine ⟨name, hname, ?_⟩
    rintro rfl
    exact Nat.ne_of_lt hj (hdistinct j (hj.trans hk) k hk name hname hvalue)

theorem recognises_useCapabilities_iff {capaArray : CapaArray}
    (hdistinct : DistinctCapas capaArray) (text : Bytes) {s : ClientInfo}
    (hflags : s.capaFlags = 0) :
    RecognisesCapas capaArray text (useCapabilities capaArray text s).2 ↔
      FilledBefore capaArray text := by
  have hbit : ∀ i < 32, bit (useCapabilities capaArray text s).2.capaFlags i = true ↔
      ∃ name ∈ capaNames text, capaArray i = some name ∧ ∀ j < i, (capaArray j).isSome := by
    intro i hi
    have hzero : bit 0 i = false := BitVec.getLsbD_zero
    rw [useCapabilities, ← capaNames, bit_addClientCapas _ _ hi, hflags, hzero]
    simp only [Bool.false_eq_true, false_or, found_iff hdistinct hi]
  constructor
  · intro h i hi name hname hmem
    obtain ⟨_, -, -, hbefore⟩ := (hbit i hi).1 ((h i hi).2 ⟨name, hname, hmem⟩)
    exact hbefore
  · intro h i hi
    rw [hbit i hi]
    constructor
    · rintro ⟨name, hmem, hname, -⟩
      exact ⟨name, hname, hmem⟩
    · rintro ⟨name, hname, hmem⟩
      exact ⟨name, hmem, hname, h i hi name hname hmem⟩

/-- An answer that is decoded is used. -/
theorem parseUserCapabilities_eq {env : UserEnv} {capaArray : CapaArray} {buf : Memory}
    {bufSize : ℕ} {decBuf : Bytes} (hdecode : decodeField env capaField buf bufSize = .ok decBuf)
    (hoption : buf 1 = clientSrv) (s : ClientInfo) :
    parseUserCapabilities env capaArray buf bufSize s =
      useCapabilities capaArray (cString decBuf) s := by
  rw [parseUserCapabilities, parseField, hdecode]
  exact if_pos hoption

/-- **Registered capabilities are recognised exactly if** no slot is free before one whose name the
client announces, whatever modules were loaded and unloaded before. -/
theorem recognisesCapas_iff {capaArray : CapaArray} (hreach : capaMachine.Reachable capaArray)
    {env : UserEnv} {buf : Memory} {bufSize : ℕ} {decBuf : Bytes}
    (hdecode : decodeField env capaField buf bufSize = .ok decBuf) (hoption : buf 1 = clientSrv)
    {s : ClientInfo} (hflags : s.capaFlags = 0) :
    RecognisesCapas capaArray (cString decBuf)
        (parseUserCapabilities env capaArray buf bufSize s).2 ↔
      FilledBefore capaArray (cString decBuf) := by
  rw [parseUserCapabilities_eq hdecode hoption]
  exact recognises_useCapabilities_iff (distinctCapas_of_reachable hreach) _ hflags

/-! ### Modules that go in the reverse order -/

/-- Only the last slot that is filled becomes free. -/
def LastOut (capaArray : CapaArray) : CapaEvent → Prop
  | .register _ => True
  | .unregister index => ∀ j, index < j → capaArray j = none

/-- No slot is free before one that is filled. -/
def NoHole (capaArray : CapaArray) : Prop :=
  ∀ i, (capaArray i).isSome → ∀ j < i, (capaArray j).isSome

theorem noHole_of_reach {capaArray : CapaArray} (h : capaMachine.Reach LastOut capaArray) :
    NoHole capaArray := by
  refine h.invariant ?_ ?_
  · rintro _ rfl i hi
    cases hi
  · intro capaArray event hhole _ hlast
    cases event with
    | register name =>
      change NoHole (registerClientCapa name capaArray).2
      obtain hsame | ⟨k, -, -, hbefore, hput⟩ := registerClientCapa_cases name capaArray
      · rw [hsame]
        exact hhole
      · rw [hput]
        intro i hi j hj
        by_cases hjk : j = k
        · rw [hjk, Function.update_self]
          rfl
        · rw [Function.update_of_ne hjk]
          by_cases hik : i = k
          · exact hbefore j (hik ▸ hj)
          · rw [Function.update_of_ne hik] at hi
            exact hhole i hi j hj
    | unregister index =>
      intro i hi j hj
      change (Function.update capaArray index none i).isSome at hi
      change (Function.update capaArray index none j).isSome
      have hii : i ≠ index := by
        rintro rfl
        rw [Function.update_self] at hi
        cases hi
      rw [Function.update_of_ne hii] at hi
      have hji : j ≠ index := by
        rintro rfl
        rw [hlast i hj] at hi
        cases hi
      rw [Function.update_of_ne hji]
      exact hhole i hi j hj

/-- Modules that go in the reverse order leave all capabilities recognised. -/
theorem recognisesCapas_of_stack {capaArray : CapaArray}
    (hreach : capaMachine.Reach LastOut capaArray) (text : Bytes) {s : ClientInfo}
    (hflags : s.capaFlags = 0) :
    RecognisesCapas capaArray text (useCapabilities capaArray text s).2 :=
  (recognises_useCapabilities_iff (distinctCapas_of_reachable hreach) text hflags).2
    fun i _ _ hname _ ↦ noHole_of_reach hreach i (hname ▸ rfl)

/-! ### A module that goes before another -/

/-- The capabilities of the server itself, and of two modules. -/
def moduleRun : List CapaEvent :=
  [.register (ascii "HELLO"), .register (ascii "TCP"), .register (ascii "UDP"),
    .register (ascii "LUSER"), .register (ascii "MULTI")]

/-- The first of the modules goes. -/
def holeRun : List CapaEvent := moduleRun ++ [.unregister 3]

/-- A server that can decode `MULTI`, in base 64. -/
def UserEnv.multi : UserEnv where
  order := .little
  saslDecode64 text := if text = ascii "TVVMVEk=" then some (ascii "MULTI") else none
  localeFromUtf8 := some
  processExtMessage := none

/-- An answer that announces `MULTI`. -/
def multiAnswer : Memory := Memory.ofBytes ([7, 1, 0, 12] ++ ascii "TVVMVEk=")

/-- The text in it, with the zeros of the buffer. -/
def multiText : Bytes := ascii "MULTI" ++ List.replicate 7 0

/-- An answer of 12 bytes, with the text in base 64. -/
theorem decodeField_multiAnswer : decodeField .multi capaField multiAnswer 12 = .ok multiText := by
  refine decodeField_eq_ok_iff.2 ⟨by decide, by decide, by decide, by decide, ascii "MULTI", ?_, ?_⟩
  · decide +kernel
  · decide +kernel

theorem moduleRun_path : capaMachine.Path (fun _ _ ↦ True) (fun _ ↦ none) moduleRun :=
  ⟨by decide +kernel, trivial, by decide +kernel, trivial, by decide +kernel, trivial,
    by decide +kernel, trivial, by decide +kernel, trivial, trivial⟩

/-- The capabilities of both modules, while both are there. -/
theorem moduleRun_recognises :
    RecognisesCapas (capaMachine.run (fun _ ↦ none) moduleRun) (cString multiText)
      (parseUserCapabilities .multi (capaMachine.run (fun _ ↦ none) moduleRun) multiAnswer 12
        .start).2 := by
  refine (recognisesCapas_iff (capaMachine.reach_run rfl moduleRun moduleRun_path)
    decodeField_multiAnswer (by decide) rfl).2 fun i hi name hname _ j hj ↦ ?_
  have hslots : ∀ i < 32, (capaMachine.run (fun _ ↦ none) moduleRun i).isSome →
      ∀ j < i, (capaMachine.run (fun _ ↦ none) moduleRun j).isSome := by decide +kernel
  exact hslots i hi (hname ▸ rfl) j hj

/-- **The capability of the module that stays is lost** when the one before it goes. -/
theorem holeRun_not_recognises :
    capaMachine.Reachable (capaMachine.run (fun _ ↦ none) holeRun) ∧
      decodeField .multi capaField multiAnswer 12 = .ok multiText ∧
      ¬RecognisesCapas (capaMachine.run (fun _ ↦ none) holeRun) (cString multiText)
        (parseUserCapabilities .multi (capaMachine.run (fun _ ↦ none) holeRun) multiAnswer 12
          .start).2 := by
  have hreach : capaMachine.Reachable (capaMachine.run (fun _ ↦ none) holeRun) := by
    rw [Machine.run, holeRun, List.foldl_append]
    refine Machine.Reach.step (capaMachine.reach_run rfl moduleRun moduleRun_path) ?_ trivial
    decide
  refine ⟨hreach, decodeField_multiAnswer, fun h ↦ ?_⟩
  rw [parseUserCapabilities_eq decodeField_multiAnswer (by decide)] at h
  have hfilled := (recognises_useCapabilities_iff (distinctCapas_of_reachable hreach) _ rfl).1 h 4
    (by decide) (ascii "MULTI") (by decide +kernel) (by decide +kernel) 3 (by decide)
  exact absurd hfilled (by decide +kernel)

end Nufw
