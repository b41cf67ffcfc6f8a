import Nufw.Nuauth.CommandEnc
import Nufw.NuauthCommand.CommandDec

/-!
# The values of the administration protocol are read back

A tree of values is encoded from its leaves: each item of a tuple has an encoder of its own, whose
bytes are copied into the encoder of the tuple. The client reads the tree back, and stops at its
end, if no tuple has an item of 2^31 bytes or more, or as many items (`value_codec_exact_iff`).

Otherwise it does not. The size of an item is given to `encoder_write_bytes` as an `int`, and a
negative one makes `memcpy` write beyond the buffer; one that wraps around to a small number loses
the rest of the item. The number of items is written with 32 bits, and read with a sign.
-/

namespace Nufw

/-- A value. -/
inductive Value where
  | bool (value : Bool)
  | int32 (value : UInt32)
  | string (text : CString)
  | ipv6 (addr : In6Addr)
  | timestamp (value : UInt32)
  | tuple (items : List Value)

namespace Value

/-- Induction over the items of a tuple. -/
@[elab_as_elim]
theorem induct {motive : Value → Prop} (bool : ∀ value, motive (.bool value))
    (int32 : ∀ value, motive (.int32 value)) (string : ∀ text, motive (.string text))
    (ipv6 : ∀ addr, motive (.ipv6 addr)) (timestamp : ∀ value, motive (.timestamp value))
    (tuple : ∀ items, (∀ v ∈ items, motive v) → motive (.tuple items)) : ∀ v, motive v
  | .bool value => bool value
  | .int32 value => int32 value
  | .string text => string text
  | .ipv6 addr => ipv6 addr
  | .timestamp value => timestamp value
  | .tuple items => tuple items fun v _ ↦ induct bool int32 string ipv6 timestamp tuple v

mutual

/-- A tree is encoded. -/
def encode : Value → Option Encoder
  | .bool value => Encoder.new.addBool value
  | .int32 value => Encoder.new.addInt32 value.toNat
  | .string text => Encoder.new.addString text.bytes
  | .ipv6 addr => Encoder.new.addIpv6 addr
  | .timestamp value => Encoder.new.addTimestamp value.toNat
  | .tuple items => (encodeItems items).bind fun items ↦ Encoder.new.addTupleFromSlist items

/-- The items of a tuple are encoded. -/
def encodeItems : List Value → Option (List Encoder)
  | [] => some []
  | v :: vs => do
    let item ← encode v
    let items ← encodeItems vs
    some (item :: items)

end

mutual

/-- The bytes of a tree. -/
def bytes : Value → Bytes
  | .bool value => [0x62, if value then 1 else 0]
  | .int32 value => 0x69 :: bigEndian32 value
  | .string text => 0x73 :: bigEndian32 (UInt32.ofNat text.bytes.length) ++ text.bytes
  | .ipv6 addr => 0x70 :: addr.toList
  | .timestamp value => 0x74 :: bigEndian32 value
  | .tuple items => 0x28 :: bigEndian32 (UInt32.ofNat items.length) ++ bytesItems items

/-- The bytes of the items of a tuple. -/
def bytesItems : List Value → Bytes
  | [] => []
  | v :: vs => bytes v ++ bytesItems vs

end

mutual

/-- What the client makes of a tree: integers have a sign, and addresses are integers. -/
def toPy : Value → PyValue
  | .bool value => .bool value
  | .int32 value => .int (signed32 value.toNat)
  | .string text => .str text.bytes
  | .ipv6 addr => .ip (ofBigEndian addr.toList)
  | .timestamp value => .datetime value.toNat
  | .tuple items => .list (toPyItems items)

/-- What it makes of the items of a tuple. -/
def toPyItems : List Value → List PyValue
  | [] => []
  | v :: vs => toPy v :: toPyItems vs

end

theorem bytesItems_eq (vs : List Value) : bytesItems vs = vs.flatMap bytes := by
  induction vs with
  | nil => rfl
  | cons v vs ih => rw [bytesItems, List.flatMap_cons, ih]

theorem toPyItems_eq (vs : List Value) : toPyItems vs = vs.map toPy := by
  induction vs with
  | nil => rfl
  | cons v vs ih => rw [toPyItems, List.map_cons, ih]

/-- The number of bytes of a tree. -/
def size (v : Value) : ℕ := v.bytes.length

/-- **No item is too large, and there are not too many**: fewer than 2^31 items in each tuple, each
of fewer than 2^31 bytes. -/
inductive Fits : Value → Prop
  | tuple {items : List Value} (hlength : items.length < 2 ^ 31)
    (hsize : ∀ v ∈ items, v.size < 2 ^ 31) (hitems : ∀ v ∈ items, v.Fits) : Fits (.tuple items)
  | leaf {v : Value} (h : ∀ items, v ≠ .tuple items) : Fits v

/-! ### A tree that fits -/

theorem encodeItems_of_forall {vs : List Value}
    (h : ∀ v ∈ vs, ∃ e, v.encode = some e ∧ e.data = v.bytes) :
    ∃ es, encodeItems vs = some es ∧ es.map Encoder.data = vs.map bytes := by
  induction vs with
  | nil => exact ⟨[], rfl, rfl⟩
  | cons v vs ih =>
    obtain ⟨e, he, hdata⟩ := h v List.mem_cons_self
    obtain ⟨es, hes, hdatas⟩ := ih fun w hw ↦ h w (List.mem_cons_of_mem _ hw)
    refine ⟨e :: es, ?_, by rw [List.map_cons, List.map_cons, hdata, hdatas]⟩
    rw [encodeItems, he, hes]
    rfl

theorem length_bytesItems_le {vs : List Value} {n : ℕ} (h : ∀ v ∈ vs, v.size ≤ n) :
    (vs.flatMap bytes).length ≤ vs.length * n := by
  induction vs with
  | nil => simp
  | cons v vs ih =>
    have hv := h v List.mem_cons_self
    have hvs := ih fun w hw ↦ h w (List.mem_cons_of_mem _ hw)
    rw [size] at hv
    rw [List.flatMap_cons, List.length_append, List.length_cons, Nat.succ_mul]
    omega

/-- **A tree that fits is encoded**, and no write goes beyond its buffer. -/
theorem encode_of_fits (v : Value) (hv : v.Fits) : ∃ e, v.encode = some e ∧ e.data = v.bytes := by
  induction v using induct with
  | bool value => exact (Encoder.adds_addBool value).new (by simp)
  | int32 value =>
    have h := (Encoder.adds_addInt32 value.toNat).new (by simp)
    rw [ofInt_natCast, UInt32.ofNat_toNat] at h
    exact h
  | string text =>
    have hshort := text.short
    have h := (Encoder.adds_addString hshort).new (by simp; omega)
    rw [ofInt_natCast] at h
    exact h
  | ipv6 a => exact (Encoder.adds_addIpv6 a).new (by simp)
  | timestamp value =>
    have h := (Encoder.adds_addTimestamp value.toNat).new (by simp)
    rw [ofInt_natCast, UInt32.ofNat_toNat] at h
    exact h
  | tuple items ih =>
    cases hv with
    | leaf h => exact absurd rfl (h items)
    | tuple hlength hsize hitems =>
      obtain ⟨es, hes, hdatas⟩ := encodeItems_of_forall fun v hv ↦ ih v hv (hitems v hv)
      have hcount : es.length = items.length := by simpa using congrArg List.length hdatas
      have hbytes : es.flatMap Encoder.data = bytesItems items := by
        rw [bytesItems_eq, List.flatMap_def, List.flatMap_def, hdatas]
      have hshort : ∀ item ∈ es, item.size < 2 ^ 31 := by
        intro item hitem
        have hmem : item.data ∈ items.map bytes := hdatas ▸ List.mem_map_of_mem hitem
        obtain ⟨v, hv, hdata⟩ := List.mem_map.1 hmem
        rw [Encoder.size, ← hdata]
        exact hsize v hv
      have hle := length_bytesItems_le fun v hv ↦ Nat.le_of_lt (hsize v hv)
      rw [← bytesItems_eq] at hle
      have h := (Encoder.adds_addTupleFromSlist hshort).new (by
        rw [hbytes, List.length_append, List.length_cons, length_bigEndian32]
        omega)
      rw [hbytes, hcount, ofInt_natCast] at h
      rw [encode, hes]
      exact h

theorem size_pos (v : Value) : 0 < v.size := by
  cases v <;> exact Nat.succ_pos _

/-- **And it is read back**, whatever follows. -/
theorem reads_bytes (v : Value) (hv : v.Fits) {fuel : ℕ} (hfuel : v.size ≤ fuel + 1) :
    Reader.Reads (Decoder.decode (fuel + 1)) v.bytes v.toPy := by
  induction v using induct generalizing fuel with
  | bool value => exact Decoder.reads_decode ((Decoder.reads_decodeBool value).map PyValue.bool)
  | int32 value => exact Decoder.reads_decode ((Decoder.reads_decodeInt32 value).map PyValue.int)
  | string text =>
    exact Decoder.reads_decode ((Decoder.reads_decodeString text.short).map PyValue.str)
  | ipv6 addr => exact Decoder.reads_decode ((Decoder.reads_decodeIpv6 addr).map PyValue.ip)
  | timestamp value =>
    exact Decoder.reads_decode ((Decoder.reads_decodeTimestamp value).map PyValue.datetime)
  | tuple items ih =>
    cases hv with
    | leaf h => exact absurd rfl (h items)
    | tuple hlength hsize hitems =>
      have hread : ∀ v ∈ items, Reader.Reads (Decoder.decode fuel) v.bytes v.toPy := by
        intro v hv
        have hle : v.size ≤ (bytesItems items).length := by
          obtain ⟨l₁, l₂, hl⟩ := List.append_of_mem hv
          rw [bytesItems_eq, hl, List.flatMap_append, List.flatMap_cons, List.length_append,
            List.length_append, size]
          omega
        rw [size, bytes, List.length_append, List.length_cons] at hfuel
        have hpos := v.size_pos
        obtain ⟨k, rfl⟩ := Nat.exists_eq_succ_of_ne_zero (n := fuel) (by omega)
        exact ih v hv (hitems v hv) (by omega)
      have h := (Decoder.reads_decodeTuple hlength hread).map PyValue.list
      rw [← bytesItems_eq, ← toPyItems_eq] at h
      exact Decoder.reads_decode h

/-! ### A tree that is read back -/

theorem uint32_of_signed32 {x y : UInt32} (h : signed32 x.toNat = signed32 y.toNat) : x = y :=
  UInt32.toNat_inj.1 (signed32_inj x.toNat_lt y.toNat_lt h)

/-- **Different trees are different for the client.** -/
theorem toPy_injective : Function.Injective toPy := by
  intro v
  induction v using induct with
  | bool value =>
    intro w h
    cases w <;> simp only [toPy, PyValue.bool.injEq, reduceCtorEq] at h
    rw [h]
  | int32 value =>
    intro w h
    cases w <;> simp only [toPy, PyValue.int.injEq, reduceCtorEq] at h
    rw [uint32_of_signed32 h]
  | string text =>
    intro w h
    cases w <;> simp only [toPy, PyValue.str.injEq, reduceCtorEq] at h
    cases text
    cases h
    rfl
  | ipv6 addr =>
    intro w h
    cases w <;> simp only [toPy, PyValue.ip.injEq, reduceCtorEq] at h
    rw [Vector.toList_inj.1 (ofBigEndian_inj (by simp) h)]
  | timestamp value =>
    intro w h
    cases w <;> simp only [toPy, PyValue.datetime.injEq, reduceCtorEq] at h
    rw [UInt32.toNat_inj.1 h]
  | tuple items ih =>
    intro w h
    cases w <;> simp only [toPy, PyValue.list.injEq, reduceCtorEq] at h
    rename_i items'
    rw [toPyItems_eq, toPyItems_eq] at h
    refine congrArg tuple ?_
    induction items generalizing items' with
    | nil => exact (List.map_eq_nil_iff.1 h.symm).symm
    | cons v vs ihvs =>
      obtain _ | ⟨v', vs'⟩ := items'
      · cases h
      · obtain ⟨hv, hvs⟩ := List.cons.inj h
        rw [ih v List.mem_cons_self hv, ihvs (fun w hw ↦ ih w (List.mem_cons_of_mem _ hw)) vs' hvs]

theorem size_toPy (v : Value) : v.toPy.size = v.size := by
  induction v using induct with
  | bool | int32 | timestamp => rfl
  | string text =>
    rw [size, toPy, bytes, PyValue.size, List.length_append, List.length_cons,
      length_bigEndian32]
  | ipv6 addr => simp [size, toPy, bytes, PyValue.size]
  | tuple items ih =>
    rw [size, toPy, bytes, PyValue.size, PyValue.sizes_eq, toPyItems_eq, bytesItems_eq,
      List.length_append, List.length_cons, length_bigEndian32, List.length_flatMap, List.map_map]
    congr 2
    exact List.map_congr_left ih

theorem decoded_of_toPy {items : List Value} (h : (toPy (.tuple items)).Decoded) :
    items.length < 2 ^ 31 ∧ ∀ v ∈ items, v.toPy.Decoded := by
  rw [toPy, toPyItems_eq] at h
  cases h with
  | list hlength hitems =>
    rw [List.length_map] at hlength
    exact ⟨hlength, fun v hv ↦ hitems _ (List.mem_map_of_mem hv)⟩
  | other h => exact absurd rfl (h _)

/-- The items of a tuple are at most as large as they should be; and if they are as large, they
fit. -/
theorem encodeItems_size {vs : List Value} {es : List Encoder}
    (h : ∀ v ∈ vs, ∀ e, v.encode = some e →
      e.size ≤ v.size ∧ (e.size = v.size → v.toPy.Decoded → v.Fits))
    (hes : encodeItems vs = some es) :
    es.length = vs.length ∧ (es.map Encoder.size).sum ≤ (vs.map size).sum ∧
      ((es.map Encoder.size).sum = (vs.map size).sum → (∀ v ∈ vs, v.toPy.Decoded) →
        (∀ e ∈ es, e.size < 2 ^ 31) → ∀ v ∈ vs, v.size < 2 ^ 31 ∧ v.Fits) := by
  induction vs generalizing es with
  | nil =>
    cases hes
    exact ⟨rfl, Nat.le_refl _, fun _ _ _ _ hv ↦ absurd hv List.not_mem_nil⟩
  | cons v vs ih =>
    obtain ⟨e, he, hrest⟩ := Option.bind_eq_some_iff.1 hes
    obtain ⟨es', hes', hcons⟩ := Option.bind_eq_some_iff.1 hrest
    cases hcons
    obtain ⟨hle, hfit⟩ := h v List.mem_cons_self e he
    obtain ⟨hlength, hle', hfits⟩ := ih (fun w hw ↦ h w (List.mem_cons_of_mem _ hw)) hes'
    simp only [List.map_cons, List.sum_cons, List.length_cons]
    refine ⟨by rw [hlength], by omega, fun hsum hcounts hshort ↦ ?_⟩
    obtain ⟨hcount, hcounts⟩ := List.forall_mem_cons.1 hcounts
    obtain ⟨hshort, hshorts⟩ := List.forall_mem_cons.1 hshort
    refine List.forall_mem_cons.2 ⟨⟨?_, hfit ?_ hcount⟩, hfits ?_ hcounts hshorts⟩ <;> omega

theorem encode_size_of_leaf {v : Value} (h : ∀ items, v ≠ .tuple items) {e : Encoder}
    (he : v.encode = some e) : e.size ≤ v.size ∧ (e.size = v.size → v.toPy.Decoded → v.Fits) := by
  obtain ⟨e', he', hdata⟩ := v.encode_of_fits (.leaf h)
  rw [he] at he'
  cases he'
  exact ⟨Nat.le_of_eq (congrArg List.length hdata), fun _ _ ↦ .leaf h⟩

/-- **No write makes more of a tree than it is**, and only a tree that fits is written in full. -/
theorem encode_size (v : Value) {e : Encoder} (he : v.encode = some e) :
    e.size ≤ v.size ∧ (e.size = v.size → v.toPy.Decoded → v.Fits) := by
  induction v using induct generalizing e with
  | bool | int32 | string | ipv6 | timestamp =>
    exact encode_size_of_leaf (fun _ h ↦ by cases h) he
  | tuple items ih =>
    obtain ⟨es, hes, htuple⟩ := Option.bind_eq_some_iff.1 he
    obtain ⟨hlength, hle, hfits⟩ := encodeItems_size (fun v hv e he ↦ ih v hv he) hes
    obtain ⟨hle', hshort⟩ := Encoder.size_of_addTupleFromSlist htuple
    have hsize : size (.tuple items) = 5 + (items.map size).sum := by
      rw [size, bytes, bytesItems_eq, List.length_append, List.length_cons, length_bigEndian32,
        List.length_flatMap]
      rfl
    have hnew : Encoder.new.size = 0 := rfl
    refine ⟨by omega, fun heq hcounts ↦ ?_⟩
    obtain ⟨hcount, hcounts⟩ := decoded_of_toPy hcounts
    have hall := hfits (by omega) hcounts (hshort (by omega))
    exact .tuple hcount (fun v hv ↦ (hall v hv).1) fun v hv ↦ (hall v hv).2

/-- **The tree is read back exactly**: no write goes beyond its buffer, and the client returns the
tree and stops at the end of its bytes, whatever follows them. -/
def Exact (v : Value) : Prop :=
  ∃ e, v.encode = some e ∧ ∀ rest, pyDecode (e.data ++ rest) =
    .ok (v.toPy, (Decoder.start (e.data ++ rest)).advance e.size)

theorem exact_of_fits {v : Value} (hv : v.Fits) : v.Exact := by
  obtain ⟨e, he, hdata⟩ := v.encode_of_fits hv
  refine ⟨e, he, fun rest ↦ ?_⟩
  have hfuel : v.size ≤ (e.data ++ rest).length + 1 := by
    rw [size, ← hdata, List.length_append]
    omega
  have hread := v.reads_bytes hv hfuel
  rw [← hdata] at hread
  exact hread _ (Cursor.has_start _ _)

theorem fits_of_exact {v : Value} (hv : v.Exact) : v.Fits := by
  obtain ⟨e, he, hdecode⟩ := hv
  obtain ⟨hadvance, -, hcounts⟩ := Decoder.spends_decode _ _ _ _ (hdecode [])
  refine (v.encode_size he).2 ?_ hcounts
  rw [← v.size_toPy]
  have hindex := congrArg Cursor.index hadvance
  simpa [Decoder.start] using hindex

end Value

/-- **The value codec is exact just for the trees that fit**: no write goes beyond the buffer, the
client returns the tree and stops at its end, whatever follows, if and only if no tuple of the tree
has 2^31 items or an item of 2^31 bytes. What the client returns says which tree it is. -/
theorem value_codec_exact_iff (v : Value) :
    ((∃ e, v.encode = some e ∧ ∀ rest, pyDecode (e.data ++ rest) =
      .ok (v.toPy, (Decoder.start (e.data ++ rest)).advance e.size)) ↔ v.Fits) ∧
    ∀ v', v'.toPy = v.toPy → v' = v :=
  ⟨⟨Value.fits_of_exact, Value.exact_of_fits⟩, fun _ h ↦ Value.toPy_injective h⟩

/-- A text of `n` letters. -/
def CString.letters (n : ℕ) (h : n < 2 ^ 31) : CString where
  bytes := List.replicate n 97
  noNul h := absurd (List.eq_of_mem_replicate h) (by decide)
  short := by rw [List.length_replicate]; exact h

theorem CString.length_letters (n : ℕ) (h : n < 2 ^ 31) : (letters n h).bytes.length = n :=
  List.length_replicate

/-- A text with which an item has 2^31 bytes. -/
theorem Value.not_fits_of_string {text : CString} (h : 2 ^ 31 ≤ 5 + text.bytes.length) :
    ¬Fits (.tuple [.string text]) := by
  intro hfits
  cases hfits with
  | tuple hlength hsize hitems =>
    have hlt := hsize _ List.mem_cons_self
    rw [size, bytes, List.length_append, List.length_cons, length_bigEndian32] at hlt
    omega
  | leaf h => exact h _ rfl

/-- **An item of more than 2^31 bytes** is not read back: its size is negative as an `int`. -/
theorem longest_string_not_exact :
    let v := Value.tuple [.string (.letters (2 ^ 31 - 1) (by decide))]
    ¬∃ e, v.encode = some e ∧ ∀ rest, pyDecode (e.data ++ rest) =
      .ok (v.toPy, (Decoder.start (e.data ++ rest)).advance e.size) := by
  intro v h
  refine Value.not_fits_of_string ?_ (Value.fits_of_exact h)
  rw [CString.length_letters]
  decide

end Nufw
