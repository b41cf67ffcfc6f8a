import Nufw.Lib.Wire

/-!
# Readers

A reader goes over bytes from an index on, does not go beyond a limit, and may fail.

`Reads m bs a` says that, wherever the bytes `bs` stand before the reader, `m` takes just these and
returns `a`, whatever follows them. It goes along `>>=` (`Reads.bind`) and along repetition
(`reads_times`), so that a format is read back part by part. In the other direction `bind_eq_ok`
takes a successful run apart, and `Spends` says what the values that come out are worth in bytes.
-/

/-- The bytes, the index of the next one, and the index that is not to be reached. -/
structure Cursor where
  data : List UInt8
  index : ℕ
  limit : ℕ

namespace Cursor

variable {c : Cursor} {bs cs : List UInt8}

/-- The cursor `n` bytes further on. -/
def advance (c : Cursor) (n : ℕ) : Cursor := { c with index := c.index + n }

@[simp] theorem data_advance (c : Cursor) (n : ℕ) : (c.advance n).data = c.data := rfl

@[simp] theorem index_advance (c : Cursor) (n : ℕ) : (c.advance n).index = c.index + n := rfl

@[simp] theorem limit_advance (c : Cursor) (n : ℕ) : (c.advance n).limit = c.limit := rfl

@[simp] theorem advance_zero (c : Cursor) : c.advance 0 = c := rfl

@[simp] theorem advance_advance (c : Cursor) (m n : ℕ) :
    (c.advance m).advance n = c.advance (m + n) := by
  rw [advance, advance, advance, Nat.add_assoc]

/-- The bytes come next. -/
def Has (c : Cursor) (bs : List UInt8) : Prop :=
  bs <+: c.data.drop c.index ∧ c.index + bs.length ≤ c.limit

theorem has_append : c.Has (bs ++ cs) ↔ c.Has bs ∧ (c.advance bs.length).Has cs := by
  constructor
  · rintro ⟨⟨rest, hrest⟩, hlimit⟩
    rw [List.length_append] at hlimit
    refine ⟨⟨⟨cs ++ rest, by rw [← hrest, List.append_assoc]⟩, by omega⟩, ⟨rest, ?_⟩, ?_⟩
    · rw [data_advance, index_advance, ← List.drop_drop, ← hrest, List.append_assoc,
        List.drop_left]
    · rw [index_advance, limit_advance]
      omega
  · rintro ⟨⟨⟨rest, hrest⟩, -⟩, ⟨rest', hrest'⟩, hlimit⟩
    rw [index_advance, limit_advance] at hlimit
    refine ⟨⟨rest', ?_⟩, by rw [List.length_append]; omega⟩
    rw [data_advance, index_advance, ← List.drop_drop, ← hrest, List.drop_left] at hrest'
    rw [List.append_assoc, hrest', hrest]

/-- Bytes, with others behind them. -/
theorem has_start (bs rest : List UInt8) :
    (Cursor.mk (bs ++ rest) 0 (bs ++ rest).length).Has bs := by
  refine ⟨⟨rest, rfl⟩, ?_⟩
  rw [List.length_append, Nat.zero_add]
  exact Nat.le_add_right _ _

end Cursor

/-- A reader, with its errors in `ε`. -/
abbrev Reader (ε α : Type) := StateT Cursor (Except ε) α

namespace Reader

variable {ε α β : Type} {m : Reader ε α} {f : α → Reader ε β} {c c' : Cursor} {bs cs : List UInt8}
  {a : α} {b : β}

/-- **A run of two readers, taken apart.** -/
theorem bind_eq_ok :
    (m >>= f) c = .ok (b, c') ↔ ∃ a c₁, m c = .ok (a, c₁) ∧ f a c₁ = .ok (b, c') := by
  show (m c >>= fun p ↦ f p.1 p.2) = .ok (b, c') ↔ _
  cases m c with
  | error e =>
    constructor
    · intro h
      cases h
    · rintro ⟨a, c₁, h, -⟩
      cases h
  | ok p =>
    constructor
    · exact fun h ↦ ⟨p.1, p.2, rfl, h⟩
    · rintro ⟨a, c₁, h, h'⟩
      cases h
      exact h'

theorem pure_eq_ok {a' : α} : (pure a : Reader ε α) c = .ok (a', c') ↔ a = a' ∧ c = c' := by
  show Except.ok (a, c) = .ok (a', c') ↔ _
  rw [Except.ok.injEq, Prod.mk.injEq]

theorem map_eq_ok {g : α → β} :
    (g <$> m) c = .ok (b, c') ↔ ∃ a, m c = .ok (a, c') ∧ g a = b := by
  rw [← bind_pure_comp, bind_eq_ok]
  constructor
  · rintro ⟨a, c₁, h, hpure⟩
    obtain ⟨rfl, rfl⟩ := pure_eq_ok.1 hpure
    exact ⟨a, h, rfl⟩
  · rintro ⟨a, h, rfl⟩
    exact ⟨a, c', h, pure_eq_ok.2 ⟨rfl, rfl⟩⟩

/-- Wherever the bytes stand, the reader takes just these and returns the value. -/
def Reads (m : Reader ε α) (bs : List UInt8) (a : α) : Prop :=
  ∀ c : Cursor, c.Has bs → m c = .ok (a, c.advance bs.length)

theorem Reads.pure (a : α) : Reads (Pure.pure a : Reader ε α) [] a := fun _ _ ↦ rfl

/-- **One part after the other.** -/
theorem Reads.bind (h : Reads m bs a) (h' : Reads (f a) cs b) : Reads (m >>= f) (bs ++ cs) b := by
  intro c hc
  obtain ⟨hbs, hcs⟩ := Cursor.has_append.1 hc
  refine bind_eq_ok.2 ⟨a, _, h c hbs, ?_⟩
  rw [h' _ hcs, Cursor.advance_advance, List.length_append]

theorem Reads.map (g : α → β) (h : Reads m bs a) : Reads (g <$> m) bs (g a) := fun c hc ↦
  map_eq_ok.2 ⟨a, h c hc, rfl⟩

/-- The last part decides what is returned. -/
theorem Reads.bind_pure (h : Reads m bs a) (hf : f a = Pure.pure b) : Reads (m >>= f) bs b := by
  have hpure : Reads (f a) [] b := hf ▸ Reads.pure b
  have hbind := h.bind hpure
  rwa [List.append_nil] at hbind

/-! ### Bytes -/

/-- Take `n` bytes. They may be beyond the limit, or there may be too few. -/
def take (underflow short : ε) (n : ℕ) : Reader ε (List UInt8) := fun c ↦
  if c.limit < c.index + n then .error underflow
  else if ((c.data.drop c.index).take n).length = n then
    .ok ((c.data.drop c.index).take n, c.advance n)
  else .error short

theorem reads_take (underflow short : ε) {n : ℕ} (h : bs.length = n) :
    Reads (take underflow short n) bs bs := by
  intro c hc
  have htake : (c.data.drop c.index).take n = bs := by
    obtain ⟨rest, hrest⟩ := hc.1
    rw [← hrest, ← h, List.take_left]
  have hlimit := hc.2
  rw [take, if_neg (by omega), htake, if_pos h, h]

theorem take_eq_ok {underflow short : ε} {n : ℕ} (h : take underflow short n c = .ok (bs, c')) :
    bs.length = n ∧ c' = c.advance n ∧ n ≤ c.data.length - c.index := by
  rw [take] at h
  split at h
  · cases h
  · split at h
    · rename_i hlength
      cases h
      refine ⟨hlength, rfl, ?_⟩
      rw [List.length_take, List.length_drop] at hlength
      omega
    · cases h

/-- Whenever the reader returns a value, it has taken as many bytes as the value is worth, all of
them there, and the value is proper. -/
def Spends (m : Reader ε α) (size : α → ℕ) (p : α → Prop) : Prop :=
  ∀ c a c', m c = .ok (a, c') → c' = c.advance (size a) ∧ c'.index ≤ c.data.length ∧ p a

/-! ### Repetition -/

/-- Read `n` times. -/
def times : ℕ → Reader ε α → Reader ε (List α)
  | 0, _ => pure []
  | n + 1, m => do
    let a ← m
    let l ← times n m
    pure (a :: l)

theorem reads_times {ι : Type} {bytes : ι → List UInt8} {value : ι → α} {l : List ι}
    (h : ∀ i ∈ l, Reads m (bytes i) (value i)) :
    Reads (times l.length m) (l.flatMap bytes) (l.map value) := by
  induction l with
  | nil => exact .pure []
  | cons i l ih =>
    rw [List.flatMap_cons, List.map_cons]
    refine (h i List.mem_cons_self).bind ?_
    exact (ih fun j hj ↦ h j (List.mem_cons_of_mem _ hj)).bind_pure rfl

theorem Spends.times {size : α → ℕ} {p : α → Prop} (hm : Spends m size p) {n : ℕ} {l : List α}
    (hc : c.index ≤ c.data.length) (h : times n m c = .ok (l, c')) :
    l.length = n ∧ c' = c.advance (l.map size).sum ∧ c'.index ≤ c.data.length ∧ ∀ a ∈ l, p a := by
  induction n generalizing c l with
  | zero =>
    obtain ⟨rfl, rfl⟩ := pure_eq_ok.1 h
    exact ⟨rfl, rfl, hc, fun _ ha ↦ absurd ha List.not_mem_nil⟩
  | succ n ih =>
    obtain ⟨a, c₁, ha, hrest⟩ := bind_eq_ok.1 h
    obtain ⟨l', c₂, hl, hpure⟩ := bind_eq_ok.1 hrest
    obtain ⟨rfl, rfl⟩ := pure_eq_ok.1 hpure
    obtain ⟨rfl, hthere, hpa⟩ := hm _ _ _ ha
    obtain ⟨hlength, rfl, hthere', hp⟩ := ih hthere hl
    refine ⟨by rw [List.length_cons, hlength], ?_, hthere', List.forall_mem_cons.2 ⟨hpa, hp⟩⟩
    rw [Cursor.advance_advance, List.map_cons, List.sum_cons]

end Reader

/-! ### Numbers -/

/-- The number that bytes in network order stand for. -/
def ofBigEndian (bs : List UInt8) : ℕ := bs.foldl (fun x b ↦ x * 256 + b.toNat) 0

theorem ofBigEndian_bigEndian32 (x : UInt32) : ofBigEndian (bigEndian32 x) = x.toNat := by
  have hx := x.toNat_lt
  simp only [ofBigEndian, bigEndian32, List.foldl_cons, List.foldl_nil, UInt32.toNat_toUInt8,
    UInt32.toNat_shiftRight]
  simp
  omega

theorem ofBigEndian_lt (bs : List UInt8) : ofBigEndian bs < 256 ^ bs.length := by
  have hfold : ∀ (bs : List UInt8) (x k : ℕ), x < 256 ^ k →
      bs.foldl (fun x b ↦ x * 256 + b.toNat) x < 256 ^ (k + bs.length) := by
    intro bs
    induction bs with
    | nil => exact fun _ _ h ↦ h
    | cons b bs ih =>
      intro x k hx
      have hb := b.toNat_lt
      have hk : x * 256 + b.toNat < 256 ^ (k + 1) := by
        rw [Nat.pow_succ]
        omega
      have hrest := ih _ _ hk
      rw [List.length_cons, Nat.add_comm bs.length 1, ← Nat.add_assoc]
      exact hrest
  have hlt := hfold bs 0 0 (by simp)
  rwa [Nat.zero_add] at hlt

/-- Bytes of the same length, with the same number in front of them or not. -/
theorem ofBigEndian_inj {bs cs : List UInt8} (hlength : bs.length = cs.length)
    (h : ofBigEndian bs = ofBigEndian cs) : bs = cs := by
  have hfold : ∀ (bs cs : List UInt8) (x y : ℕ), bs.length = cs.length →
      bs.foldl (fun x b ↦ x * 256 + b.toNat) x = cs.foldl (fun x b ↦ x * 256 + b.toNat) y →
      x = y ∧ bs = cs := by
    intro bs
    induction bs with
    | nil =>
      intro cs x y hlength h
      obtain rfl := List.length_eq_zero_iff.1 hlength.symm
      exact ⟨h, rfl⟩
    | cons b bs ih =>
      intro cs x y hlength h
      obtain _ | ⟨c, cs⟩ := cs
      · cases hlength
      · obtain ⟨hxy, rfl⟩ := ih cs _ _ (Nat.succ.inj hlength) h
        have hb := b.toNat_lt
        have hc := c.toNat_lt
        dsimp only at hxy
        have hbc : b = c := UInt8.toNat_inj.1 (by omega)
        exact ⟨by omega, by rw [hbc]⟩
  exact (hfold bs cs 0 0 hlength h).2

/-- The signed number of 32 bits. -/
def signed32 (n : ℕ) : Int := if n < 2 ^ 31 then n else (n : Int) - 2 ^ 32

theorem signed32_of_lt {n : ℕ} (h : n < 2 ^ 31) : signed32 n = n := if_pos h

theorem signed32_lt {n : ℕ} (h : n < 2 ^ 32) : signed32 n < 2 ^ 31 := by
  rw [signed32]
  split
  · omega
  · omega

theorem signed32_inj {m n : ℕ} (hm : m < 2 ^ 32) (hn : n < 2 ^ 32) (h : signed32 m = signed32 n) :
    m = n := by
  rw [signed32, signed32] at h
  split at h <;> split at h <;> omega
