import Nufw.Nuauth.TakeDecision
import Nufw.Nubase.ConfigTable

/-!
# The modules that set the mark

`mark_group`, `mark_field` and `mark_flag` write a mark into a window of the packet mark, of `nbits`
bits from the position `shift`. `init_module_from_conf` builds a mask from the settings, of the bits
that stay; `finalize_packet` writes through it.

The mask is made of two shifts with guards. Bit by bit it is the complement of the window
(`bit_windowMask`), the empty one, the full one and those that reach beyond the top included; so
each module writes its window and nothing else, and two modules with disjoint windows can go in
either order. Only a `mark_field` of an unknown type writes nothing: its type should have been reset
when it was loaded (`writesWindow_iff`).
-/

namespace Nufw

/-- `nubase_config_table_get_or_default_int`. -/
def ConfigTable.getOrDefaultInt (table : ConfigTable) (key : String) (defint : Int) : Int :=
  match table.get (ascii key) with
  | some str => atoi str
  | none => defint

/-- `SHR32`. -/
def shr32 (x n : UInt32) : UInt32 :=
  if n.toInt32 ≤ 0 then x else if n < 32 then x >>> n else 0

/-- The mask of `init_module_from_conf`, "to remove nbits at position shift". -/
def windowMask (nbits shift : UInt32) : UInt32 :=
  shr32 0xFFFFFFFF (32 - shift) ||| shl32 0xFFFFFFFF (nbits + shift)

/-! ### Bits -/

/-- A bit of a word. -/
def bit (x : UInt32) (i : ℕ) : Bool := x.toBitVec.getLsbD i

theorem eq_of_bits {x y : UInt32} (h : ∀ i < 32, bit x i = bit y i) : x = y :=
  UInt32.toBitVec_inj.1 (BitVec.eq_of_getLsbD_eq h)

theorem bit_and (x y : UInt32) (i : ℕ) : bit (x &&& y) i = (bit x i && bit y i) :=
  BitVec.getLsbD_and

theorem bit_or (x y : UInt32) (i : ℕ) : bit (x ||| y) i = (bit x i || bit y i) :=
  BitVec.getLsbD_or

theorem bit_not (x : UInt32) {i : ℕ} (hi : i < 32) : bit (~~~x) i = !bit x i := by
  rw [bit, UInt32.toBitVec_not, BitVec.getLsbD_not, decide_eq_true hi, Bool.true_and, bit]

theorem toBitVec_mod {n : UInt32} (hn : n < 32) : n.toBitVec % 32 = n.toBitVec := by
  refine BitVec.eq_of_toNat_eq ?_
  rw [BitVec.toNat_umod]
  exact Nat.mod_eq_of_lt (UInt32.lt_iff_toNat_lt.1 hn)

theorem bit_shiftLeft (x : UInt32) {n : UInt32} (hn : n < 32) {i : ℕ} (hi : i < 32) :
    bit (x <<< n) i = (decide (n.toNat ≤ i) && bit x (i - n.toNat)) := by
  rw [bit, UInt32.toBitVec_shiftLeft, toBitVec_mod hn, BitVec.shiftLeft_eq',
    BitVec.getLsbD_shiftLeft, decide_eq_true hi, Bool.true_and, UInt32.toNat_toBitVec]
  by_cases h : n.toNat ≤ i
  · simp [h, bit]
  · simp [h]

theorem bit_shiftRight (x : UInt32) {n : UInt32} (hn : n < 32) (i : ℕ) :
    bit (x >>> n) i = bit x (i + n.toNat) := by
  rw [bit, UInt32.toBitVec_shiftRight, toBitVec_mod hn, BitVec.ushiftRight_eq',
    BitVec.getLsbD_ushiftRight, UInt32.toNat_toBitVec, Nat.add_comm, bit]

theorem bit_ones (i : ℕ) : bit 0xFFFFFFFF i = decide (i < 32) := by
  have hones : (0xFFFFFFFF : UInt32).toBitVec = BitVec.allOnes 32 := rfl
  rw [bit, hones, BitVec.getLsbD_allOnes]

/-- The guard of the two macros, for the amounts that occur. -/
theorem toInt32_le_zero_iff {n : UInt32} (hn : n.toNat < 64) : n.toInt32 ≤ 0 ↔ n = 0 := by
  have hint : n.toInt32.toInt = n.toNat := by
    have hlt : 2 * n.toBitVec.toNat < 2 ^ 32 := by
      rw [UInt32.toNat_toBitVec]
      omega
    exact BitVec.toInt_eq_toNat_of_lt hlt
  have hzero : (0 : Int32).toInt = 0 := rfl
  rw [Int32.le_iff_toInt_le, hint, hzero]
  constructor
  · intro h
    refine UInt32.toNat_inj.1 ?_
    have hnat : (0 : UInt32).toNat = 0 := rfl
    omega
  · rintro rfl
    exact le_rfl

/-- `SHL32` shifts by any amount. -/
theorem bit_shl32 (x : UInt32) {n : UInt32} (hn : n.toNat < 64) {i : ℕ} (hi : i < 32) :
    bit (shl32 x n) i = (decide (n.toNat ≤ i) && bit x (i - n.toNat)) := by
  rw [shl32]
  by_cases hzero : n = 0
  · rw [if_pos ((toInt32_le_zero_iff hn).2 hzero), hzero]
    have hnat : (0 : UInt32).toNat = 0 := rfl
    simp [hnat]
  · rw [if_neg (mt (toInt32_le_zero_iff hn).1 hzero)]
    by_cases hlt : n < 32
    · rw [if_pos hlt, bit_shiftLeft x hlt hi]
    · have hge : ¬n.toNat ≤ i := fun hle ↦ hlt (UInt32.lt_iff_toNat_lt.2 (by
        have hnat : (32 : UInt32).toNat = 32 := rfl
        omega))
      rw [if_neg hlt, decide_eq_false hge, Bool.false_and]
      exact BitVec.getLsbD_zero

/-- `SHR32` of ones. -/
theorem bit_shr32_ones {n : UInt32} (hn : n.toNat < 64) {i : ℕ} (hi : i < 32) :
    bit (shr32 0xFFFFFFFF n) i = decide (i + n.toNat < 32) := by
  rw [shr32]
  by_cases hzero : n = 0
  · rw [if_pos ((toInt32_le_zero_iff hn).2 hzero), hzero, bit_ones]
    rfl
  · rw [if_neg (mt (toInt32_le_zero_iff hn).1 hzero)]
    by_cases hlt : n < 32
    · rw [if_pos hlt, bit_shiftRight _ hlt, bit_ones]
    · have hge : ¬i + n.toNat < 32 := fun h ↦ hlt (UInt32.lt_iff_toNat_lt.2 (by
        have hnat : (32 : UInt32).toNat = 32 := rfl
        omega))
      rw [if_neg hlt, decide_eq_false hge]
      exact BitVec.getLsbD_zero

/-- **The mask is the complement of the window.** -/
theorem bit_windowMask {nbits shift : UInt32} (hnbits : nbits.toNat ≤ 32)
    (hshift : shift.toNat ≤ 31) {i : ℕ} (hi : i < 32) :
    bit (windowMask nbits shift) i =
      !decide (shift.toNat ≤ i ∧ i < shift.toNat + nbits.toNat) := by
  have hsub : (32 - shift).toNat = 32 - shift.toNat := by
    refine UInt32.toNat_sub_of_le _ _ (UInt32.le_iff_toNat_le.2 ?_)
    have hnat : (32 : UInt32).toNat = 32 := rfl
    omega
  have hadd : (nbits + shift).toNat = nbits.toNat + shift.toNat := by
    rw [UInt32.toNat_add]
    exact Nat.mod_eq_of_lt (by omega)
  rw [windowMask, bit_or, bit_shr32_ones (by omega) hi, bit_shl32 _ (by omega) hi, bit_ones, hsub,
    hadd, decide_eq_true (show i - (nbits.toNat + shift.toNat) < 32 by omega), Bool.and_true,
    ← Bool.decide_or, ← decide_not]
  exact decide_eq_decide.2 (by omega)

/-- **What is written through the mask.** -/
theorem bit_through {nbits shift : UInt32} (hnbits : nbits.toNat ≤ 32)
    (hshift : shift.toNat ≤ 31) (mark : UInt32) {x selected : UInt32}
    (hx : ∀ i < 32, bit x i = (decide (shift.toNat ≤ i) && bit selected (i - shift.toNat)))
    {i : ℕ} (hi : i < 32) :
    bit ((mark &&& windowMask nbits shift) ||| (x &&& ~~~windowMask nbits shift)) i =
      if shift.toNat ≤ i ∧ i < shift.toNat + nbits.toNat then bit selected (i - shift.toNat)
      else bit mark i := by
  rw [bit_or, bit_and, bit_and, bit_not _ hi, bit_windowMask hnbits hshift hi, hx i hi]
  by_cases hin : shift.toNat ≤ i ∧ i < shift.toNat + nbits.toNat
  · rw [if_pos hin, decide_eq_true hin, decide_eq_true hin.1]
    simp
  · rw [if_neg hin, decide_eq_false hin]
    simp

/-! ### The modules -/

/-- The settings of a module with a list of marks. -/
structure MarkConf where
  nbits : UInt32
  shift : UInt32
  defaultMark : UInt32

/-- The three modules, as they are configured. -/
inductive MarkModule where
  | group (conf : MarkConf) (groups : List (MarkEntry UInt32))
  | field (conf : MarkConf) (type : ℕ) (fields : List (MarkEntry (Option Bytes → Bool)))
  | flag (nbits markShift flagShift : UInt32)

namespace MarkModule

/-- The settings of `mark_group`. -/
def groupConf (table : ConfigTable) : MarkConf where
  nbits := .ofInt (table.getOrDefaultInt "mark_group_nbits" 32)
  shift := .ofInt (table.getOrDefaultInt "mark_group_shift" 0)
  defaultMark := .ofInt (table.getOrDefaultInt "mark_group_default_mark" 0)

/-- The settings of `mark_field`. -/
def fieldConf (table : ConfigTable) : MarkConf where
  nbits := .ofInt (table.getOrDefaultInt "mark_field_nbits" 32)
  shift := .ofInt (table.getOrDefaultInt "mark_field_shift" 0)
  defaultMark := .ofInt (table.getOrDefaultInt "mark_field_default_mark" 0)

/-- The type of `mark_field`, a `gchar`. No character is both less than 0 and greater than 1, so
"found unknown type, resetting to 0" is never said, and nothing is reset. -/
def fieldType (table : ConfigTable) : ℕ :=
  (UInt8.ofInt (table.getOrDefaultInt "mark_field_type" 0)).toNat

/-- The settings of `mark_flag`. -/
def flagOfTable (table : ConfigTable) : MarkModule :=
  .flag (.ofInt (table.getOrDefaultInt "mark_flag_nbits" 16))
    (.ofInt (table.getOrDefaultInt "mark_flag_mark_shift" 0))
    (.ofInt (table.getOrDefaultInt "mark_flag_flag_shift" 0))

/-- What `init_module_from_conf` stores of a window. -/
def window (conf : MarkConf) : MarkWindow where
  shift := conf.shift
  mask := windowMask conf.nbits conf.shift
  defaultMark := conf.defaultMark

/-- `init_module_from_conf`. -/
def init : MarkModule → FinalizeModule
  | .group conf groups => .markGroup (window conf) groups
  | .field conf type fields => .markField (window conf) type fields
  | .flag nbits markShift flagShift => .markFlag markShift flagShift (windowMask nbits markShift)

/-- Where the window begins. -/
def shift : MarkModule → UInt32
  | .group conf _ => conf.shift
  | .field conf _ _ => conf.shift
  | .flag _ markShift _ => markShift

/-- How many bits it has. -/
def nbits : MarkModule → UInt32
  | .group conf _ => conf.nbits
  | .field conf _ _ => conf.nbits
  | .flag nbits _ _ => nbits

/-- The text that a `mark_field` looks at. -/
def fieldText (type : ℕ) (conn : Connection) : Option Bytes :=
  if type = 1 then conn.osSysname else conn.appName

/-- **The mark that a module selects** for a connection: of the first entry that matches or the
default one, or the flags of its ACL. -/
def selected (conn : Connection) : MarkModule → UInt32
  | .group conf groups =>
    (window conf).select (fun id ↦ conn.userGroups.any (gidEqual · (.gid id))) groups
  | .field conf type fields => (window conf).select (fun p ↦ p (fieldText type conn)) fields
  | .flag _ _ flagShift => sar32 conn.flags flagShift

/-- The window is one of those that a mark can have. -/
structure InRange (m : MarkModule) : Prop where
  shift : m.shift.toNat ≤ 31
  nbits : m.nbits.toNat ≤ 32

/-- The bit is in the window. -/
def InWindow (m : MarkModule) (i : ℕ) : Prop :=
  m.shift.toNat ≤ i ∧ i < m.shift.toNat + m.nbits.toNat

instance (m : MarkModule) (i : ℕ) : Decidable (m.InWindow i) :=
  inferInstanceAs (Decidable (_ ∧ _))

/-- **`finalize_packet` writes the window, and nothing else.** -/
def WritesWindow (m : MarkModule) : Prop :=
  ∀ conn, ∀ i < 32, bit (m.init.mark conn) i =
    if m.InWindow i then bit (m.selected conn) (i - m.shift.toNat) else bit conn.mark i

/-- The type of a `mark_field` is one that it knows. -/
def Known : MarkModule → Prop
  | .field _ type _ => type = 0 ∨ type = 1
  | _ => True

instance : (m : MarkModule) → Decidable m.Known
  | .group _ _ => inferInstanceAs (Decidable True)
  | .field _ type _ => inferInstanceAs (Decidable (type = 0 ∨ type = 1))
  | .flag _ _ _ => inferInstanceAs (Decidable True)

/-- The defaults of all settings are in range, and the default type is known. -/
theorem inRange_of_defaults (groups : List (MarkEntry UInt32))
    (fields : List (MarkEntry (Option Bytes → Bool))) :
    (group (groupConf []) groups).InRange ∧
      ((field (fieldConf []) (fieldType []) fields).InRange ∧
        (field (fieldConf []) (fieldType []) fields).Known) ∧
      (flagOfTable []).InRange := by
  refine ⟨⟨?_, ?_⟩, ⟨⟨?_, ?_⟩, Or.inl rfl⟩, ⟨?_, ?_⟩⟩
  · show (groupConf []).shift.toNat ≤ 31
    decide
  · show (groupConf []).nbits.toNat ≤ 32
    decide
  · show (fieldConf []).shift.toNat ≤ 31
    decide
  · show (fieldConf []).nbits.toNat ≤ 32
    decide
  · show (flagOfTable []).shift.toNat ≤ 31
    decide
  · show (flagOfTable []).nbits.toNat ≤ 32
    decide

/-! ### What a module writes -/

/-- The mark that a module selects does not depend on the one that is there. -/
theorem selected_mark (m : MarkModule) (conn : Connection) (mark : UInt32) :
    m.selected { conn with mark := mark } = m.selected conn := by
  cases m <;> rfl

/-- A `mark_field` of an unknown type returns an error. -/
theorem mark_of_not_known {m : MarkModule} (h : ¬m.Known) (conn : Connection) :
    m.init.mark conn = conn.mark := by
  cases m with
  | group conf groups => exact absurd trivial h
  | field conf type fields =>
    obtain ⟨happ, hos⟩ := not_or.1 h
    rw [init, FinalizeModule.mark, if_neg happ, if_neg hos]
  | flag nbits markShift flagShift => exact absurd trivial h

/-- A mark that is shifted to its window. -/
theorem bit_shifted {shift : UInt32} (hshift : shift.toNat ≤ 31) (selected : UInt32) :
    ∀ i < 32, bit (selected <<< shift) i =
      (decide (shift.toNat ≤ i) && bit selected (i - shift.toNat)) := fun _ hi ↦
  bit_shiftLeft selected (UInt32.lt_iff_toNat_lt.2 (Nat.lt_succ_of_le hshift)) hi

theorem bit_write {conf : MarkConf} (hnbits : conf.nbits.toNat ≤ 32)
    (hshift : conf.shift.toNat ≤ 31) (mark selected : UInt32) {i : ℕ} (hi : i < 32) :
    bit ((window conf).write mark selected) i =
      if conf.shift.toNat ≤ i ∧ i < conf.shift.toNat + conf.nbits.toNat then
        bit selected (i - conf.shift.toNat)
      else bit mark i :=
  bit_through hnbits hshift mark (bit_shifted hshift selected) hi

/-- **Every bit of the mark, after a module.** -/
theorem bit_mark {m : MarkModule} (hm : m.InRange) (conn : Connection) {i : ℕ} (hi : i < 32) :
    bit (m.init.mark conn) i =
      if m.Known ∧ m.InWindow i then bit (m.selected conn) (i - m.shift.toNat)
      else bit conn.mark i := by
  by_cases hknown : m.Known
  · rw [if_congr (and_iff_right hknown) rfl rfl]
    cases m with
    | group conf groups => exact bit_write hm.nbits hm.shift conn.mark _ hi
    | field conf type fields =>
      rw [init, FinalizeModule.mark]
      rcases hknown with htype | htype
      · have hother : type ≠ 1 := by omega
        rw [if_pos htype, selected, fieldText, if_neg hother]
        exact bit_write hm.nbits hm.shift conn.mark _ hi
      · rw [if_neg (by omega), if_pos htype, selected, fieldText, if_pos htype]
        exact bit_write hm.nbits hm.shift conn.mark _ hi
    | flag nbits markShift flagShift =>
      have hlt : markShift.toNat < 64 := lt_of_le_of_lt hm.shift (by decide)
      exact bit_through hm.nbits hm.shift conn.mark (fun _ hi ↦ bit_shl32 _ hlt hi) hi
  · rw [mark_of_not_known hknown, if_neg fun h ↦ hknown h.1]

/-- Two modules with disjoint windows give the same mark in either order. -/
theorem mark_comm {m m' : MarkModule} (hm : m.InRange) (hm' : m'.InRange)
    (hdisjoint : ∀ i, m.InWindow i → ¬m'.InWindow i) (conn : Connection) :
    m'.init.mark { conn with mark := m.init.mark conn } =
      m.init.mark { conn with mark := m'.init.mark conn } := by
  refine eq_of_bits fun i hi ↦ ?_
  rw [bit_mark hm' _ hi, selected_mark m' conn (m.init.mark conn), bit_mark hm conn hi,
    bit_mark hm { conn with mark := m'.init.mark conn } hi,
    selected_mark m conn (m'.init.mark conn), bit_mark hm' conn hi]
  by_cases h : m.Known ∧ m.InWindow i
  · rw [if_pos h, if_neg fun h' ↦ hdisjoint i h.2 h'.2, if_pos h]
  · rw [if_neg h, if_neg h]

/-- The two modules are loaded, in this order. -/
def loaded (conf : Params) (m m' : MarkModule) : Params :=
  { conf with finalizeModules := [m.init, m'.init] }

/-- The order in which the modules are called does not matter. -/
def Commutes (m m' : MarkModule) : Prop :=
  ∀ conf conn, modulesFinalizePacket (loaded conf m m') conn =
    modulesFinalizePacket (loaded conf m' m) conn

theorem commutes {m m' : MarkModule} (hm : m.InRange) (hm' : m'.InRange)
    (hdisjoint : ∀ i, m.InWindow i → ¬m'.InWindow i) : m.Commutes m' := by
  intro conf conn
  have hmark := mark_comm hm hm' hdisjoint conn
  exact congrArg (fun mark ↦ { conn with mark := mark }) hmark

/-! ### Who writes the window -/

theorem writesWindow_of_known {m : MarkModule} (hm : m.InRange) (h : m.Known) :
    m.WritesWindow := fun conn i hi ↦ by
  rw [bit_mark hm conn hi, if_congr (and_iff_right h) rfl rfl]

/-- An empty window is written by leaving the mark alone. -/
theorem writesWindow_of_empty {m : MarkModule} (hm : m.InRange) (h : m.nbits = 0) :
    m.WritesWindow := fun conn i hi ↦ by
  have hout : ¬m.InWindow i := by
    rw [InWindow, h]
    have hnat : (0 : UInt32).toNat = 0 := rfl
    omega
  rw [bit_mark hm conn hi, if_neg fun h ↦ hout h.2, if_neg hout]

/-- A mark that is not the selected one stays in the window of a module of an unknown type. -/
theorem not_writesWindow {m : MarkModule} (hm : m.InRange) (hknown : ¬m.Known)
    (hnbits : m.nbits ≠ 0) : ¬m.WritesWindow := by
  intro h
  have hi : m.shift.toNat < 32 := Nat.lt_succ_of_le hm.shift
  have hin : m.InWindow m.shift.toNat := by
    refine ⟨le_rfl, Nat.lt_add_of_pos_right (Nat.pos_of_ne_zero fun hzero ↦ hnbits ?_)⟩
    exact UInt32.toNat_inj.1 hzero
  -- the complement of the selected mark, in its place
  have hbit := h { Connection.zero with mark := ~~~(m.selected Connection.zero <<< m.shift) } _ hi
  rw [mark_of_not_known hknown, if_pos hin, selected_mark, bit_not _ hi,
    bit_shifted hm.shift _ _ hi, decide_eq_true le_rfl, Bool.true_and] at hbit
  exact Bool.not_ne_self _ hbit

/-- **A module writes its window, and goes in any order with one of a disjoint window, exactly if
its type is known or its window is empty.** -/
theorem writesWindow_iff {m : MarkModule} (hm : m.InRange) :
    (m.WritesWindow ∧ ∀ m' : MarkModule, m'.InRange → (∀ i, m.InWindow i → ¬m'.InWindow i) →
        m.Commutes m') ↔ m.Known ∨ m.nbits = 0 := by
  constructor
  · rintro ⟨hwrites, -⟩
    by_contra hnot
    obtain ⟨hknown, hnbits⟩ := not_or.1 hnot
    exact not_writesWindow hm hknown hnbits hwrites
  · intro h
    refine ⟨?_, fun m' hm' hdisjoint ↦ commutes hm hm' hdisjoint⟩
    rcases h with hknown | hnbits
    · exact writesWindow_of_known hm hknown
    · exact writesWindow_of_empty hm hnbits

/-- A `mark_field` for the whole mark, of some type. -/
def wholeMark (type : ℕ) : MarkModule := .field ⟨32, 0, 5⟩ type []

theorem inRange_wholeMark (type : ℕ) : (wholeMark type).InRange where
  shift := Nat.zero_le 31
  nbits := Nat.le_refl 32

/-- For the names of systems it writes the mark. -/
theorem writesWindow_wholeMark :
    (wholeMark 1).WritesWindow ∧ ∀ m' : MarkModule, m'.InRange →
      (∀ i, (wholeMark 1).InWindow i → ¬m'.InWindow i) → (wholeMark 1).Commutes m' :=
  (writesWindow_iff (inRange_wholeMark 1)).2 (Or.inl (Or.inr rfl))

/-- A third type is accepted when the module is loaded, and the default mark is not written. -/
theorem not_writesWindow_third_type :
    fieldType [(ascii "mark_field_type", ascii "2")] = 2 ∧ (wholeMark 2).InRange ∧
      (wholeMark 2).selected Connection.zero = 5 ∧
      (wholeMark 2).init.mark Connection.zero = 0 ∧ ¬(wholeMark 2).WritesWindow := by
  refine ⟨by decide +kernel, inRange_wholeMark 2, rfl, rfl, ?_⟩
  have hknown : ¬(wholeMark 2).Known := by decide
  exact not_writesWindow (inRange_wholeMark 2) hknown (by decide)

end MarkModule

end Nufw
