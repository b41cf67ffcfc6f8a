import Mathlib.Data.List.Nodup
import Nufw.Lib.Table
import Nufw.Lib.Transition
import Nufw.Nubase.Strings

/-!
# The configuration table

`config-table.c`: the settings that have been read from a file, in a list. `get` and `append` look
for an entry whose key is equal; `set` looks for one to delete whose key is a *prefix* of the given
one, and appends again.

So `set` replaces the value of its key only if no entry whose key is a prefix of it stands before
its own. If one does, that entry is deleted, `append` then finds the key, and the old value stays
(`config_table_map_iff`).
-/

namespace Nufw

/-- The keys and values, from the head of the list on. -/
abbrev ConfigTable := List (Bytes × Bytes)

namespace ConfigTable

/-! ### The functions -/

/-- `nubase_config_table_get`. -/
def get (table : ConfigTable) (key : Bytes) : Option Bytes :=
  (table.find? (·.1 = key)).map Prod.snd

/-- `nubase_config_table_append`, and whether it returns an entry. -/
def append (key value : Bytes) (table : ConfigTable) : Bool × ConfigTable :=
  if table.get key ≠ none then (false, table) else (true, table ++ [(key, value)])

/-- `!strncmp (key, config_table->key, strlen (config_table->key))`. -/
def startsWith (key : Bytes) (e : Bytes × Bytes) : Bool := e.1.isPrefixOf key

/-- `nubase_config_table_set`, and whether it returns an entry. -/
def set (key value : Bytes) (table : ConfigTable) : Bool × ConfigTable :=
  if table.get key = none then append key value table
  else if table.any (startsWith key) then append key value (table.eraseP (startsWith key))
  else (false, table)

/-- `tolower`. -/
def tolower (c : UInt8) : UInt8 := if 65 ≤ c ∧ c ≤ 90 then c + 32 else c

/-- The key in a section, for the two functions that take one. The buffer has 4096 bytes. -/
def sectionKey (sect : Option Bytes) (key : Bytes) : Option Bytes :=
  match sect with
  | none => some key
  | some sect =>
    -- `strcasecmp (section, "global") == 0`
    if sect.map tolower = ascii "global" then some key
    else if 4096 ≤ (sect ++ ascii "/" ++ key).length then none
    else some (sect ++ ascii "/" ++ key)

/-- `nubase_config_table_append_with_section`. -/
def appendWithSection (sect : Option Bytes) (key value : Bytes) (table : ConfigTable) :
    Bool × ConfigTable :=
  match sectionKey sect key with
  | some key => append key value table
  | none => (false, table)

/-- `nubase_config_table_set_with_section`. -/
def setWithSection (sect : Option Bytes) (key value : Bytes) (table : ConfigTable) :
    Bool × ConfigTable :=
  match sectionKey sect key with
  | some key => set key value table
  | none => (false, table)

/-- What is done to the table. -/
inductive Event where
  | append (key value : Bytes)
  | set (key value : Bytes)
  | appendWithSection (sect : Option Bytes) (key value : Bytes)
  | setWithSection (sect : Option Bytes) (key value : Bytes)

/-- **The machine of the table**, which is empty at first. -/
def machine : Machine ConfigTable Event where
  init table := table = []
  enabled _ _ := True
  step table
    | .append key value => (append key value table).2
    | .set key value => (set key value table).2
    | .appendWithSection sect key value => (appendWithSection sect key value table).2
    | .setWithSection sect key value => (setWithSection sect key value table).2

/-! ### A map -/

/-- The value of one key is given, and nothing else is changed. -/
def Updated (key value : Bytes) (table table' : ConfigTable) : Prop :=
  table'.get key = some value ∧ ∀ k, k ≠ key → table'.get k = table.get k

/-- **No prefix is in the way**: the key is not there, or no entry before it has a prefix of it as
its key. -/
def Clear (key : Bytes) (table : ConfigTable) : Prop :=
  table.get key = none ∨ ∀ e ∈ table.takeWhile (·.1 ≠ key), ¬e.1 <+: key

variable {table : ConfigTable} {key value : Bytes}

/-- The keys are distinct. -/
abbrev Distinct (table : ConfigTable) : Prop := (table.map Prod.fst).Nodup

theorem get_eq_none_iff : table.get key = none ↔ key ∉ table.map Prod.fst := by
  rw [get, Option.map_eq_none_iff, List.find?_eq_none]
  constructor
  · intro h hmem
    obtain ⟨e, he, rfl⟩ := List.mem_map.1 hmem
    exact h e he (decide_eq_true rfl)
  · intro h e he hkey
    exact h (of_decide_eq_true hkey ▸ List.mem_map_of_mem he)

theorem get_of_mem (h : Distinct table) {e : Bytes × Bytes} (he : e ∈ table) :
    table.get e.1 = some e.2 := by
  rw [get, find?_of_mem_of_nodup h he]
  rfl

/-- The entry of a key, and what stands before it and behind it. -/
theorem exists_split (h : table.get key ≠ none) :
    ∃ l₁ v l₂, table = l₁ ++ (key, v) :: l₂ ∧ (∀ e ∈ l₁, e.1 ≠ key) ∧
      table.takeWhile (·.1 ≠ key) = l₁ := by
  obtain ⟨v, hv⟩ := Option.ne_none_iff_exists'.1 h
  obtain ⟨e, hfind, -⟩ := Option.map_eq_some_iff.1 hv
  obtain ⟨l₁, l₂, hl, he, hl₁⟩ := exists_split_of_find? hfind
  obtain rfl : e.1 = key := of_decide_eq_true he
  have hne : ∀ b ∈ l₁, b.1 ≠ e.1 := fun b hb ↦ of_decide_eq_false (hl₁ b hb)
  refine ⟨l₁, e.2, l₂, hl, hne, ?_⟩
  rw [hl, List.takeWhile_append_of_pos (by simpa using hne)]
  simp

theorem get_append_of_none (h : table.get key = none) (k : Bytes) :
    get (table ++ [(key, value)]) k = if k = key then some value else table.get k := by
  rw [get, List.find?_append]
  split
  · rename_i hk
    rw [hk, Option.map_eq_none_iff.1 h]
    simp
  · rename_i hk
    rw [List.find?_cons_of_neg (by simpa using Ne.symm hk), List.find?_nil, Option.or_none]
    rfl

theorem updated_append (h : table.get key = none) (value : Bytes) :
    append key value table = (true, table ++ [(key, value)]) ∧
      Updated key value table (table ++ [(key, value)]) := by
  refine ⟨if_neg (not_not_intro h), ?_, fun k hk ↦ ?_⟩
  · rw [get_append_of_none h, if_pos rfl]
  · rw [get_append_of_none h, if_neg hk]

theorem distinct_append (h : Distinct table) : Distinct (append key value table).2 := by
  rw [append]
  split
  · exact h
  · rename_i hnone
    rw [Distinct, List.map_append, List.nodup_append]
    refine ⟨h, by simp, fun a ha b hb hab ↦ ?_⟩
    obtain rfl : b = key := by simpa using hb
    exact get_eq_none_iff.1 (not_not.1 hnone) (hab ▸ ha)

theorem distinct_set (h : Distinct table) : Distinct (set key value table).2 := by
  rw [set]
  split
  · exact distinct_append h
  · split
    · exact distinct_append (h.sublist (List.eraseP_sublist.map _))
    · exact h

/-- What `set` does to a key that is there: the first prefix is deleted. -/
theorem set_of_get_ne_none (h : table.get key ≠ none) :
    set key value table = append key value (table.eraseP (startsWith key)) := by
  obtain ⟨l₁, v, l₂, hl, -, -⟩ := exists_split h
  rw [set, if_neg h, if_pos ?_]
  rw [hl]
  simp [startsWith]

/-- **`set` on a key that no prefix is in the way of.** -/
theorem updated_set_of_clear (h : Distinct table) (hclear : Clear key table) :
    Updated key value table (set key value table).2 := by
  by_cases hget : table.get key = none
  · obtain ⟨happend, hupdated⟩ := updated_append hget value
    rw [set, if_pos hget, happend]
    exact hupdated
  · obtain ⟨l₁, v, l₂, hl, hne, htake⟩ := exists_split hget
    have hpre := hclear.resolve_left hget
    rw [htake] at hpre
    have herase : table.eraseP (startsWith key) = l₁ ++ l₂ := by
      rw [hl]
      refine eraseP_split (fun e he ↦ ?_) (by simp [startsWith]) l₂
      rw [startsWith, Bool.eq_false_iff]
      exact fun hp ↦ hpre e he (List.isPrefixOf_iff_prefix.1 hp)
    have hkeys : (l₁ ++ (key, v) :: l₂).map Prod.fst = _ := List.map_append
    rw [hl, Distinct, hkeys, List.map_cons, List.nodup_middle, List.nodup_cons] at h
    have hnone : get (l₁ ++ l₂) key = none := by
      rw [get_eq_none_iff, List.map_append]
      exact h.1
    rw [set_of_get_ne_none hget, herase]
    obtain ⟨happend, hvalue, hothers⟩ := updated_append hnone value
    rw [happend]
    refine ⟨hvalue, fun k hk ↦ (hothers k hk).trans ?_⟩
    rw [hl, get, get, List.find?_append, List.find?_append,
      List.find?_cons_of_neg (by simpa using Ne.symm hk)]

/-- **A prefix in the way is lost**, and the value stays. -/
theorem clear_of_updated_set (h : Distinct table)
    (hset : Updated key value table (set key value table).2) : Clear key table := by
  by_contra hclear
  obtain ⟨hget, hpre⟩ := not_or.1 hclear
  obtain ⟨l₁, v, l₂, hl, hne, htake⟩ := exists_split hget
  rw [htake] at hpre
  push Not at hpre
  obtain ⟨e, he, hprefix⟩ := hpre
  -- the first of the prefixes is deleted
  obtain ⟨e₀, hfind⟩ : ∃ e₀, l₁.find? (startsWith key) = some e₀ := by
    refine Option.isSome_iff_exists.1 (List.find?_isSome.2 ⟨e, he, ?_⟩)
    exact List.isPrefixOf_iff_prefix.2 hprefix
  obtain ⟨m₁, m₂, hm, he₀, hm₁⟩ := exists_split_of_find? hfind
  have htable : table = m₁ ++ e₀ :: (m₂ ++ (key, v) :: l₂) := by
    rw [hl, hm, List.append_assoc, List.cons_append]
  have hmem : e₀ ∈ table := by rw [htable]; simp
  have hne₀ : e₀.1 ≠ key := hne e₀ (hm ▸ by simp)
  have herase : table.eraseP (startsWith key) = m₁ ++ (m₂ ++ (key, v) :: l₂) := by
    rw [htable]
    exact eraseP_split hm₁ he₀ _
  have hkey : get (m₁ ++ (m₂ ++ (key, v) :: l₂)) key ≠ none := by
    rw [Ne, get_eq_none_iff, not_not]
    simp
  have hlost : get (m₁ ++ (m₂ ++ (key, v) :: l₂)) e₀.1 = none := by
    rw [htable, Distinct, List.map_append, List.map_cons, List.nodup_middle, List.nodup_cons] at h
    rw [get_eq_none_iff, List.map_append]
    exact h.1
  have hsame := hset.2 e₀.1 hne₀
  rw [set_of_get_ne_none hget, herase, append, if_pos hkey, hlost, get_of_mem h hmem] at hsame
  cases hsame

/-- **In every run the keys are distinct.** -/
theorem distinct_of_reachable (h : machine.Reachable table) : Distinct table := by
  refine h.invariant (fun table hinit ↦ ?_) fun table e hd _ _ ↦ ?_
  · rw [hinit]
    exact List.nodup_nil
  · cases e with
    | append key value => exact distinct_append hd
    | set key value => exact distinct_set hd
    | appendWithSection sect key value =>
      show Distinct (appendWithSection sect key value table).2
      rw [appendWithSection]
      split
      · exact distinct_append hd
      · exact hd
    | setWithSection sect key value =>
      show Distinct (setWithSection sect key value table).2
      rw [setWithSection]
      split
      · exact distinct_set hd
      · exact hd

end ConfigTable

/-- **The configuration table is a map, except for `set` on a key that has a prefix before it.** In
every state of every run the keys are distinct. A key that is not there is appended, and nothing
else changes; for one that is there `append` returns `NULL` and does nothing. And `set` gives the
key its value and changes nothing else if and only if no entry before that of the key has a prefix
of it as its key. -/
theorem config_table_map_iff {table : ConfigTable} (h : ConfigTable.machine.Reachable table)
    (key value : Bytes) :
    (table.map Prod.fst).Nodup ∧
    (table.get key = none → (table.append key value).1 = true ∧
      ConfigTable.Updated key value table (table.append key value).2) ∧
    (table.get key ≠ none → table.append key value = (false, table)) ∧
    (ConfigTable.Updated key value table (table.set key value).2 ↔ table.Clear key) := by
  have hd := ConfigTable.distinct_of_reachable h
  refine ⟨hd, fun hnone ↦ ?_, fun hsome ↦ if_pos hsome, ?_⟩
  · obtain ⟨happend, hupdated⟩ := ConfigTable.updated_append hnone value
    rw [happend]
    exact ⟨rfl, hupdated⟩
  · exact ⟨ConfigTable.clear_of_updated_set hd, ConfigTable.updated_set_of_clear hd⟩

/-- The password of the TLS key stands before the key itself, and is set again. -/
theorem password_first_map :
    ConfigTable.Updated (ascii "nuauth_tls_key_passwd") (ascii "new")
      [(ascii "nuauth_tls_key_passwd", ascii "old"), (ascii "nuauth_tls_key", ascii "key.pem")]
      (ConfigTable.set (ascii "nuauth_tls_key_passwd") (ascii "new")
        [(ascii "nuauth_tls_key_passwd", ascii "old"),
          (ascii "nuauth_tls_key", ascii "key.pem")]).2 := by
  have h : ConfigTable.machine.Reachable (ConfigTable.machine.run []
      [.append (ascii "nuauth_tls_key_passwd") (ascii "old"),
        .append (ascii "nuauth_tls_key") (ascii "key.pem")]) :=
    (Machine.Reach.init rfl).path ⟨trivial, trivial, trivial, trivial, trivial⟩
  exact (config_table_map_iff h (ascii "nuauth_tls_key_passwd") (ascii "new")).2.2.2.2
    (Or.inr (by decide))

/-- **A setting is removed, and the one that was to be set stays as it was**: the name of the TLS
key is a prefix of that of its password. -/
theorem prefix_key_lost :
    ∃ table : ConfigTable, ConfigTable.machine.Reachable table ∧
      table.get (ascii "nuauth_tls_key") = some (ascii "key.pem") ∧
      (table.set (ascii "nuauth_tls_key_passwd") (ascii "new")).2.get
        (ascii "nuauth_tls_key") = none ∧
      (table.set (ascii "nuauth_tls_key_passwd") (ascii "new")).2.get
        (ascii "nuauth_tls_key_passwd") = some (ascii "old") := by
  refine ⟨ConfigTable.machine.run []
    [.append (ascii "nuauth_tls_key") (ascii "key.pem"),
      .append (ascii "nuauth_tls_key_passwd") (ascii "old")], ?_, by decide, by decide, by decide⟩
  exact (Machine.Reach.init rfl).path ⟨trivial, trivial, trivial, trivial, trivial⟩

end Nufw
