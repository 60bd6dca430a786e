import Mathlib.Data.List.Nodup

/-!
# Tables with a unique key

A `Table key` is a list of rows no two of which have the same key, in the order in which
they were inserted. The uniqueness is a field, so every way to change a table has to say
why it keeps it: an update on conflict leaves the key alone.
-/

namespace ClusterManager

theorem nodup_map_nil {α κ : Type} (key : α → κ) : (([] : List α).map key).Nodup := List.nodup_nil

/-- Rows with distinct keys. -/
structure Table {α κ : Type} (key : α → κ) where
  rows : List α := []
  nodup : (rows.map key).Nodup := by first | exact nodup_map_nil _ | simp

namespace Table

variable {α κ : Type} [DecidableEq κ] {key : α → κ}

omit [DecidableEq κ] in
@[ext] theorem ext {t t' : Table key} (h : t.rows = t'.rows) : t = t' := by
  cases t
  cases t'
  cases h
  rfl

/-- The keys there are. -/
def keys (t : Table key) : List κ := t.rows.map key

/-- The row of a key. -/
def find (t : Table key) (k : κ) : Option α := t.rows.find? fun r => key r = k

/-- Delete the rows with a property. -/
def delete (t : Table key) (p : α → Bool) : Table key where
  rows := t.rows.filter fun r => !p r
  nodup := t.nodup.sublist (List.filter_sublist.map key)

/-- Insert a row, or update the row that has its key. -/
def upsert (t : Table key) (row : α) (update : α → α) (hkey : ∀ r, key (update r) = key r) :
    Table key where
  rows := if key row ∈ t.keys then
      t.rows.map fun r => if key r = key row then update r else r
    else t.rows ++ [row]
  nodup := by
    split
    · have hmap : (t.rows.map fun r => if key r = key row then update r else r).map key =
          t.rows.map key := by
        rw [List.map_map]
        refine List.map_congr_left fun r _ => ?_
        show key (if key r = key row then update r else r) = key r
        split
        · exact hkey r
        · rfl
      rw [hmap]
      exact t.nodup
    · rename_i hnew
      rw [List.map_append, List.map_singleton]
      refine List.nodup_append.mpr ⟨t.nodup, List.nodup_singleton _, ?_⟩
      intro k hk k' hk' heq
      obtain rfl := List.mem_singleton.mp hk'
      exact hnew (heq ▸ hk)

/-- Insert a row unless there is one with its key. -/
def insertOrIgnore (t : Table key) (row : α) : Table key := t.upsert row id fun _ => rfl

variable {t : Table key} {row : α} {update : α → α}

omit [DecidableEq κ] in
theorem mem_delete {p : α → Bool} {r : α} : r ∈ (t.delete p).rows ↔ r ∈ t.rows ∧ ¬ p r := by
  simp [delete]

/-- A row of a new key goes to the end. -/
theorem rows_upsert_of_notMem (hkey : ∀ r, key (update r) = key r) (h : key row ∉ t.keys) :
    (t.upsert row update hkey).rows = t.rows ++ [row] := if_neg h

theorem rows_upsert_of_mem (hkey : ∀ r, key (update r) = key r) (h : key row ∈ t.keys) :
    (t.upsert row update hkey).rows = t.rows.map fun r => if key r = key row then update r else r :=
  if_pos h

/-- The keys after an insertion. -/
theorem mem_keys_upsert (hkey : ∀ r, key (update r) = key r) {k : κ} :
    k ∈ (t.upsert row update hkey).keys ↔ k ∈ t.keys ∨ k = key row := by
  by_cases h : key row ∈ t.keys
  · have hkeys : (t.upsert row update hkey).keys = t.keys := by
      rw [keys, rows_upsert_of_mem hkey h, List.map_map]
      refine List.map_congr_left fun r _ => ?_
      show key (if key r = key row then update r else r) = key r
      split
      · exact hkey r
      · rfl
    rw [hkeys]
    exact ⟨Or.inl, fun hk => hk.elim id fun hk => hk ▸ h⟩
  · rw [keys, rows_upsert_of_notMem hkey h, List.map_append, List.mem_append]
    simp [keys]

/-- A row that is there is not inserted again. -/
theorem insertOrIgnore_of_mem (h : key row ∈ t.keys) : t.insertOrIgnore row = t := by
  refine ext ((rows_upsert_of_mem _ h).trans ?_)
  simp

theorem insertOrIgnore_insertOrIgnore :
    (t.insertOrIgnore row).insertOrIgnore row = t.insertOrIgnore row :=
  insertOrIgnore_of_mem ((mem_keys_upsert fun _ => rfl).mpr (Or.inr rfl))

omit [DecidableEq κ] in
theorem eq_of_key_eq {r r' : α} (hr : r ∈ t.rows) (hr' : r' ∈ t.rows) (h : key r = key r') :
    r = r' := List.inj_on_of_nodup_map t.nodup hr hr' h

theorem find_eq_some {k : κ} {r : α} : t.find k = some r ↔ r ∈ t.rows ∧ key r = k := by
  rw [find]
  constructor
  · intro h
    exact ⟨List.mem_of_find?_eq_some h, by simpa using List.find?_some h⟩
  · rintro ⟨hr, rfl⟩
    cases h : t.rows.find? fun r' => key r' = key r with
    | none => exact absurd (List.find?_eq_none.mp h r hr) (by simp)
    | some r' =>
      have hkey : key r' = key r := by simpa using List.find?_some h
      rw [eq_of_key_eq (List.mem_of_find?_eq_some h) hr hkey]

theorem find_eq_none {k : κ} : t.find k = none ↔ k ∉ t.keys := by
  simp [find, keys]

/-- Which rows there are after an insertion. -/
theorem mem_upsert (hkey : ∀ r, key (update r) = key r) {r : α} :
    r ∈ (t.upsert row update hkey).rows ↔
      (r ∈ t.rows ∧ key r ≠ key row) ∨ (∃ old ∈ t.rows, key old = key row ∧ r = update old) ∨
        (key row ∉ t.keys ∧ r = row) := by
  by_cases h : key row ∈ t.keys
  · rw [rows_upsert_of_mem hkey h, List.mem_map]
    constructor
    · rintro ⟨old, hold, rfl⟩
      split
      · rename_i heq
        exact Or.inr (Or.inl ⟨old, hold, heq, rfl⟩)
      · rename_i hne
        exact Or.inl ⟨hold, hne⟩
    · rintro (⟨hr, hne⟩ | ⟨old, hold, heq, rfl⟩ | ⟨hnot, -⟩)
      · exact ⟨r, hr, if_neg hne⟩
      · exact ⟨old, hold, if_pos heq⟩
      · exact absurd h hnot
  · rw [rows_upsert_of_notMem hkey h, List.mem_append, List.mem_singleton]
    constructor
    · rintro (hr | rfl)
      · exact Or.inl ⟨hr, fun heq => h (heq ▸ List.mem_map_of_mem hr)⟩
      · exact Or.inr (Or.inr ⟨h, rfl⟩)
    · rintro (⟨hr, -⟩ | ⟨old, hold, heq, -⟩ | ⟨-, rfl⟩)
      · exact Or.inl hr
      · exact absurd (heq ▸ List.mem_map_of_mem hold) h
      · exact Or.inr rfl

/-- Which row a key has after an insertion. -/
theorem find_upsert (hkey : ∀ r, key (update r) = key r) {k : κ} :
    (t.upsert row update hkey).find k =
      if k = key row then some (((t.find k).map update).getD row) else t.find k := by
  split
  · rename_i hk
    refine find_eq_some.mpr ?_
    rw [mem_upsert hkey]
    cases hfind : t.find k with
    | none => exact ⟨Or.inr (Or.inr ⟨hk ▸ find_eq_none.mp hfind, rfl⟩), hk.symm⟩
    | some old =>
      obtain ⟨hold, hkold⟩ := find_eq_some.mp hfind
      exact ⟨Or.inr (Or.inl ⟨old, hold, hkold.trans hk, rfl⟩), (hkey old).trans hkold⟩
  · rename_i hk
    refine Option.ext fun r => ?_
    rw [find_eq_some, find_eq_some, mem_upsert hkey]
    constructor
    · rintro ⟨⟨hr, -⟩ | ⟨old, -, hold, rfl⟩ | ⟨-, rfl⟩, hrk⟩
      · exact ⟨hr, hrk⟩
      · exact absurd (hrk.symm.trans ((hkey old).trans hold)) hk
      · exact absurd hrk.symm hk
    · rintro ⟨hr, hrk⟩
      exact ⟨Or.inl ⟨hr, fun h => hk (hrk.symm.trans h)⟩, hrk⟩

/-- An insertion leaves alone what is selected by the key and not selected for the new
row. -/
theorem filter_upsert (hkey : ∀ r, key (update r) = key r) {p : κ → Bool} (hp : ¬ p (key row)) :
    (t.upsert row update hkey).rows.filter (fun r => p (key r)) =
      t.rows.filter fun r => p (key r) := by
  by_cases h : key row ∈ t.keys
  · rw [rows_upsert_of_mem hkey h]
    induction t.rows with
    | nil => rfl
    | cons r l ih =>
      rw [List.map_cons, List.filter_cons, List.filter_cons, ih]
      by_cases hr : key r = key row
      · rw [if_pos hr, hkey, if_neg (hr ▸ hp)]
        rw [if_neg (hr ▸ hp)]
      · rw [if_neg hr]
  · rw [rows_upsert_of_notMem hkey h, List.filter_append, List.filter_singleton]
    simp [hp]

end Table

end ClusterManager
