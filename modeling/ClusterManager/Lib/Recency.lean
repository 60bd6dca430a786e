import Mathlib.Algebra.BigOperators.Group.List.Basic
import Mathlib.Algebra.Order.Ring.Int
import Mathlib.Data.List.Infix
import Mathlib.Data.List.Nodup

/-!
# Recency lists

A recency list keeps entries under distinct keys in the order of their use, the one that was
used last at the front. Looking a key up and adding an entry under it both bring its entry to
the front; a list with a limit is then cut at the back.

What the cut keeps is the *longest prefix that fits* (`fitting`): of all prefixes whose total
weight is within the limit, the longest. Nothing is asked of the weights, which may be negative.
That one gets the same by dropping the last entry until the rest fits is the content of
`fitting_of_le` and `fitting_concat`.
-/

namespace ClusterManager

/-! ### The longest prefix that fits -/

section Fitting

variable {α : Type} {w : α → ℤ} {limit : ℤ} {l : List α}

/-- The total weight of a list. -/
def total (w : α → ℤ) (l : List α) : ℤ := (l.map w).sum

/-- The longest prefix whose total weight is within the limit; the empty list, if there is
none. -/
def fitting (w : α → ℤ) (limit : ℤ) (l : List α) : List α :=
  ((l.inits.filter fun p => total w p ≤ limit).getLast?).getD []

@[simp] theorem total_nil : total w [] = 0 := rfl

@[simp] theorem total_cons (a : α) : total w (a :: l) = w a + total w l := by
  simp [total]

theorem total_perm {l' : List α} (h : l.Perm l') : total w l = total w l' := (h.map w).sum_eq

/-- The prefixes of a list that is one longer are those of the list, and the list itself. -/
theorem inits_concat (a : α) : (l ++ [a]).inits = l.inits ++ [l ++ [a]] := by
  simp [List.inits_append]

/-- A list that fits is its own longest prefix that fits, -/
theorem fitting_of_le (h : total w l ≤ limit) : fitting w limit l = l := by
  rw [fitting]
  rcases List.eq_nil_or_concat l with rfl | ⟨l', a, rfl⟩
  · simp only [List.inits, List.filter_cons, decide_eq_true h]
    rfl
  · rw [List.concat_eq_append] at h ⊢
    rw [inits_concat, List.filter_append, List.filter_cons_of_pos (by simpa using h),
      List.filter_nil, List.getLast?_append]
    rfl

/-- and of one that does not fit the last entry can be dropped. -/
theorem fitting_concat {a : α} (h : limit < total w (l ++ [a])) :
    fitting w limit (l ++ [a]) = fitting w limit l := by
  rw [fitting, inits_concat, List.filter_append, List.filter_cons_of_neg (by simpa using h),
    List.filter_nil, List.append_nil, fitting]

theorem total_fitting_le (h : 0 ≤ limit) : total w (fitting w limit l) ≤ limit := by
  rw [fitting]
  rcases hlast : (l.inits.filter fun p => total w p ≤ limit).getLast? with _ | p
  · exact h
  · exact of_decide_eq_true (List.mem_filter.mp (List.mem_of_getLast? hlast)).2

theorem fitting_prefix : fitting w limit l <+: l := by
  rw [fitting]
  rcases hlast : (l.inits.filter fun p => total w p ≤ limit).getLast? with _ | p
  · exact List.nil_prefix
  · have hmem := List.mem_of_getLast? hlast
    exact (List.mem_inits p l).mp (List.mem_of_mem_filter hmem)

end Fitting

/-! ### Entries by their use -/

/-- Entries under distinct keys, the one used last first. -/
@[ext]
structure Recency (κ V : Type) where
  entries : List (κ × V) := []
  /-- Each key has one entry. -/
  keys_nodup : (entries.map Prod.fst).Nodup := by simp

namespace Recency

variable {κ V : Type} [DecidableEq κ] {l : List (κ × V)} {key : κ} {v : V}

/-- The entries without the one for a key. -/
def without (l : List (κ × V)) (key : κ) : List (κ × V) := l.filter (·.1 ≠ key)

theorem nodup_without (h : (l.map Prod.fst).Nodup) (key : κ) :
    ((without l key).map Prod.fst).Nodup :=
  h.sublist (List.filter_sublist.map _)

theorem nodup_front (h : (l.map Prod.fst).Nodup) (key : κ) (v : V) :
    (((key, v) :: without l key).map Prod.fst).Nodup := by
  rw [List.map_cons]
  refine List.nodup_cons.mpr ⟨?_, nodup_without h key⟩
  simp [without]

theorem without_of_notMem (h : key ∉ l.map Prod.fst) : without l key = l :=
  List.filter_eq_self.mpr fun e he => decide_eq_true fun heq => h (List.mem_map.mpr ⟨e, he, heq⟩)

/-- An entry and the others are all of them. -/
theorem perm_front (h : (l.map Prod.fst).Nodup) (hmem : (key, v) ∈ l) :
    l.Perm ((key, v) :: without l key) := by
  induction l with
  | nil => cases hmem
  | cons e l ih =>
    obtain ⟨hnot, hnodup⟩ := List.nodup_cons.mp h
    rcases List.mem_cons.mp hmem with rfl | hmem
    · rw [without, List.filter_cons_of_neg (by simp), ← without, without_of_notMem hnot]
    · have hne : e.1 ≠ key := by
        rintro rfl
        exact hnot (List.mem_map.mpr ⟨_, hmem, rfl⟩)
      rw [without, List.filter_cons_of_pos (by simpa using hne), ← without]
      exact ((ih hnodup hmem).cons e).trans (List.Perm.swap _ _ _)

/-- Under distinct keys, the value found is that of the entry for the key. -/
theorem lookup_eq_some_iff (h : (l.map Prod.fst).Nodup) :
    l.lookup key = some v ↔ (key, v) ∈ l := by
  induction l with
  | nil => simp
  | cons e l ih =>
    obtain ⟨hnot, hnodup⟩ := List.nodup_cons.mp h
    obtain ⟨key', v'⟩ := e
    rw [List.lookup_cons, List.mem_cons]
    by_cases heq : key = key'
    · subst heq
      have hmem : (key, v) ∉ l := fun hmem => hnot (List.mem_map.mpr ⟨_, hmem, rfl⟩)
      simp [hmem, eq_comm]
    · rw [beq_false_of_ne heq, ih hnodup]
      simp [heq]

theorem without_concat (h : ((l ++ [(key, v)]).map Prod.fst).Nodup) :
    without (l ++ [(key, v)]) key = l := by
  have hnot : key ∉ l.map Prod.fst := by
    rw [List.map_append] at h
    exact fun hmem => (List.nodup_append.mp h).2.2 key hmem key (List.mem_singleton_self key) rfl
  rw [without, List.filter_append, ← without, without_of_notMem hnot]
  simp

variable (r : Recency κ V)

/-- The value under a key. -/
def lookup (key : κ) : Option V := r.entries.lookup key

/-- An entry at the front, in place of the one there was for its key. -/
def front (key : κ) (v : V) : Recency κ V :=
  ⟨(key, v) :: without r.entries key, nodup_front r.keys_nodup key v⟩

/-- Look a key up; its entry is then the one used last. -/
def get (key : κ) : Option V × Recency κ V :=
  match r.lookup key with
  | none => (none, r)
  | some v => (some v, r.front key v)

/-- Take the entry for a key out. -/
def remove (key : κ) : Recency κ V := ⟨without r.entries key, nodup_without r.keys_nodup key⟩

/-- The list is without the entry that is the last, and that entry. -/
def removeOldest : Recency κ V × List (κ × V) :=
  (⟨r.entries.dropLast, r.keys_nodup.sublist (r.entries.dropLast_sublist.map _)⟩,
    r.entries.getLast?.toList)

/-- Keep a prefix. -/
def keep (p : List (κ × V)) (h : p <+: r.entries) : Recency κ V :=
  ⟨p, r.keys_nodup.sublist (h.sublist.map _)⟩

/-- Cut the list to what fits, if there is a limit, and tell what is dropped, the oldest entry
first. -/
def cut (w : κ × V → ℤ) (limit : ℤ) : Recency κ V × List (κ × V) :=
  if 0 < limit then
    (r.keep (fitting w limit r.entries) fitting_prefix,
      (r.entries.drop (fitting w limit r.entries).length).reverse)
  else (r, [])

/-- Add an entry, or replace the one there is for its key, and cut the list. -/
def add (w : κ × V → ℤ) (limit : ℤ) (key : κ) (v : V) : Recency κ V × List (κ × V) :=
  (r.front key v).cut w limit

/-- After an addition a limit is kept. -/
theorem total_add_le {w : κ × V → ℤ} {limit : ℤ} (h : 0 < limit) (key : κ) (v : V) :
    total w (r.add w limit key v).1.entries ≤ limit := by
  rw [add, cut, if_pos h]
  exact total_fitting_le h.le

end Recency

end ClusterManager
