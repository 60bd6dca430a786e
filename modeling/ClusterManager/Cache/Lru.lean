import Mathlib.Algebra.Order.Ring.Int
import Mathlib.Data.List.Nodup

/-!
# The cache of a node

`Lru` is the list of the entries of a cache, the one that was used last at its end. Adding an
entry makes the oldest ones go until the rest fits. A cache whose limit is negative never
fits, and with no entry left the loop that removes the oldest does not end: adding to it gives
nothing.

`LocalCache` is the cache a group has: it makes the list when the first value is added, and
drops it when it is purged. `LocalCache.Holds` is what is in it, and the lemmas say where what
is held after an operation comes from.
-/

namespace ClusterManager

namespace Cache

variable {V : Type}

theorem nodup_fst_nil (V : Type) : (([] : List (String × V)).map Prod.fst).Nodup := List.nodup_nil

/-- The entries, oldest first. -/
@[ext]
structure Lru (V : Type) where
  maxBytes : ℤ
  entries : List (String × V) := []
  /-- Each key has one entry. -/
  keys_nodup : (entries.map Prod.fst).Nodup := by first | exact nodup_fst_nil _ | simp

namespace Lru

/-- The bytes of entries, `len` being the length of a value. -/
def nbytes (len : V → ℕ) (l : List (String × V)) : ℤ :=
  (l.map fun e => (e.1.utf8ByteSize + len e.2 : ℤ)).sum

/-- Remove the oldest entries until the rest fits. -/
def evict (len : V → ℕ) (maxBytes : ℤ) : List (String × V) → Option (List (String × V))
  | [] => if maxBytes ≠ 0 ∧ maxBytes < 0 then none else some []
  | e :: l =>
    if maxBytes ≠ 0 ∧ maxBytes < nbytes len (e :: l) then evict len maxBytes l else some (e :: l)

theorem evict_sublist {len : V → ℕ} {maxBytes : ℤ} {l l' : List (String × V)}
    (h : evict len maxBytes l = some l') : l'.Sublist l := by
  induction l with
  | nil =>
    rw [evict] at h
    split at h
    · cases h
    · cases h
      exact List.Sublist.refl _
  | cons e l ih =>
    rw [evict] at h
    split at h
    · exact (ih h).cons e
    · cases h
      exact List.Sublist.refl _

theorem nbytes_cons (len : V → ℕ) (e : String × V) (l : List (String × V)) :
    nbytes len (e :: l) = e.1.utf8ByteSize + len e.2 + nbytes len l := by
  rw [nbytes, List.map_cons, List.sum_cons]
  rfl

theorem nbytes_nonneg (len : V → ℕ) (l : List (String × V)) : 0 ≤ nbytes len l := by
  induction l with
  | nil => exact Int.le_refl 0
  | cons e l ih =>
    rw [nbytes_cons]
    omega

/-- Evicting ends exactly when the limit is not negative. -/
theorem evict_isSome_iff {len : V → ℕ} {maxBytes : ℤ} (l : List (String × V)) :
    (evict len maxBytes l).isSome ↔ 0 ≤ maxBytes := by
  induction l with
  | nil =>
    rw [evict]
    split
    · rename_i hneg
      exact iff_of_false (by simp) (Int.not_le.mpr hneg.2)
    · rename_i hneg
      refine iff_of_true rfl ?_
      omega
  | cons e l ih =>
    rw [evict]
    split
    · exact ih
    · rename_i hfits
      refine iff_of_true rfl ?_
      have := nbytes_nonneg len (e :: l)
      omega

/-- An entry is no longer than the entries it is the last of. -/
theorem size_le_nbytes (len : V → ℕ) (l : List (String × V)) (e : String × V) :
    (e.1.utf8ByteSize + len e.2 : ℤ) ≤ nbytes len (l ++ [e]) := by
  induction l with
  | nil => simp [nbytes]
  | cons e' l ih =>
    rw [List.cons_append, nbytes_cons]
    omega

/-- **An entry that is added stays** if it fits alone: it is the last to go. -/
theorem mem_evict_iff {len : V → ℕ} {maxBytes : ℤ} {l l' : List (String × V)} {e : String × V}
    (h : evict len maxBytes (l ++ [e]) = some l') :
    e ∈ l' ↔ maxBytes = 0 ∨ (e.1.utf8ByteSize + len e.2 : ℤ) ≤ maxBytes := by
  have hmem : ∀ {l : List (String × V)}, ¬ (maxBytes ≠ 0 ∧ maxBytes < nbytes len (l ++ [e])) →
      (e ∈ l ++ [e] ↔ maxBytes = 0 ∨ (e.1.utf8ByteSize + len e.2 : ℤ) ≤ maxBytes) := by
    intro l hfits
    refine iff_of_true (by simp) ?_
    have := size_le_nbytes len l e
    omega
  induction l with
  | nil =>
    rw [List.nil_append, evict] at h
    split at h
    · rename_i hlarge
      have hnil : l' = [] := List.sublist_nil.mp (evict_sublist h)
      rw [hnil]
      rw [nbytes_cons] at hlarge
      refine iff_of_false (by simp) ?_
      simp only [nbytes, List.map_nil, List.sum_nil] at hlarge
      omega
    · rename_i hfits
      cases h
      exact hmem (l := []) hfits
  | cons e' l ih =>
    rw [List.cons_append, evict] at h
    split at h
    · exact ih h
    · rename_i hfits
      cases h
      exact hmem (l := e' :: l) hfits

/-- The entries without one for a key. -/
def without (l : List (String × V)) (key : String) : List (String × V) := l.filter (·.1 ≠ key)

theorem nodup_without {l : List (String × V)} (h : (l.map Prod.fst).Nodup) (key : String) :
    ((without l key).map Prod.fst).Nodup := h.sublist (List.filter_sublist.map _)

theorem notMem_without (l : List (String × V)) (key : String) :
    key ∉ (without l key).map Prod.fst := by
  simp [without]

theorem nodup_used {l : List (String × V)} (h : (l.map Prod.fst).Nodup) (key : String) (v : V) :
    ((without l key ++ [(key, v)]).map Prod.fst).Nodup := by
  rw [List.map_append, List.map_singleton]
  refine List.nodup_append.mpr ⟨nodup_without h key, List.nodup_singleton _, ?_⟩
  rintro k hk k' hk' rfl
  rw [List.mem_singleton.mp hk'] at hk
  exact notMem_without l key hk

/-- Look a key up; its entry is then the one used last. -/
def get (c : Lru V) (key : String) : Option (V × Lru V) :=
  (c.entries.lookup key).map fun v =>
    (v, { c with entries := without c.entries key ++ [(key, v)]
                 keys_nodup := nodup_used c.keys_nodup key v })

/-- Add or replace an entry, and remove the oldest ones that do not fit. -/
def add (len : V → ℕ) (c : Lru V) (key : String) (v : V) : Option (Lru V) :=
  match h : evict len c.maxBytes (without c.entries key ++ [(key, v)]) with
  | none => none
  | some l => some { c with
      entries := l
      keys_nodup := (nodup_used c.keys_nodup key v).sublist ((evict_sublist h).map _) }

/-- Adding returns if evicting does, -/
theorem add_eq_none {len : V → ℕ} {c : Lru V} {key : String} {v : V}
    (h : evict len c.maxBytes (without c.entries key ++ [(key, v)]) = none) :
    c.add len key v = none := by
  rw [add]
  split
  · rfl
  · rename_i hsome
    rw [h] at hsome
    cases hsome

/-- with the entries that are left. -/
theorem add_eq_some {len : V → ℕ} {c : Lru V} {key : String} {v : V} {l : List (String × V)}
    (h : evict len c.maxBytes (without c.entries key ++ [(key, v)]) = some l) :
    ∃ hnodup, c.add len key v = some ⟨c.maxBytes, l, hnodup⟩ := by
  rw [add]
  split
  · rename_i hnone
    rw [h] at hnone
    cases hnone
  · rename_i hsome
    rw [h] at hsome
    cases hsome
    exact ⟨(nodup_used c.keys_nodup key v).sublist ((evict_sublist h).map _), rfl⟩

def remove (c : Lru V) (key : String) : Lru V :=
  { c with entries := without c.entries key, keys_nodup := nodup_without c.keys_nodup key }

end Lru

/-- The cache of a group. -/
structure LocalCache (V : Type) where
  cacheBytes : ℤ
  lru : Option (Lru V) := none

namespace LocalCache

def add (len : V → ℕ) (c : LocalCache V) (key : String) (v : V) : Option (LocalCache V) :=
  ((c.lru.getD { maxBytes := c.cacheBytes }).add len key v).map fun l => { c with lru := some l }

/-- The value of a key, if there is one, and the cache after it has been looked up. -/
def get (c : LocalCache V) (key : String) : Option V × LocalCache V :=
  match c.lru.bind (·.get key) with
  | none => (none, c)
  | some (v, l) => (some v, { c with lru := some l })

def delete (c : LocalCache V) (key : String) : LocalCache V :=
  { c with lru := c.lru.map (·.remove key) }

/-- Drop all entries. -/
def purge (c : LocalCache V) : LocalCache V := { c with lru := none }

/-- The list of entries has the limit of the cache. -/
def Limited (c : LocalCache V) : Prop := ∀ l, c.lru = some l → l.maxBytes = c.cacheBytes

/-- An entry alone is within the limit. -/
def HasRoom (len : V → ℕ) (c : LocalCache V) (key : String) (v : V) : Prop :=
  c.cacheBytes = 0 ∨ (key.utf8ByteSize + len v : ℤ) ≤ c.cacheBytes

/-- The cache has the value for the key. -/
def Holds (c : LocalCache V) (key : String) (v : V) : Prop :=
  ∃ l, c.lru = some l ∧ (key, v) ∈ l.entries

variable {len : V → ℕ} {c c' : LocalCache V} {key k : String} {v u : V}

/-- What is held when a value has been added is that value, or has been held for another
key. -/
theorem holds_add (hadd : c.add len key v = some c') (h : c'.Holds k u) :
    (k = key ∧ u = v) ∨ (c.Holds k u ∧ k ≠ key) := by
  obtain ⟨l, hl, rfl⟩ := Option.map_eq_some_iff.mp hadd
  obtain ⟨l', hl', hmem⟩ := h
  cases hl'
  rw [Lru.add] at hl
  split at hl
  · cases hl
  rename_i entries hevict
  cases hl
  rcases List.mem_append.mp ((Lru.evict_sublist hevict).subset hmem) with hmem | hmem
  · obtain ⟨hmem, hne⟩ := List.mem_filter.mp hmem
    rcases hlru : c.lru with _ | l
    · rw [hlru] at hmem
      cases hmem
    · rw [hlru] at hmem
      exact Or.inr ⟨⟨l, hlru, hmem⟩, by simpa using hne⟩
  · cases List.mem_singleton.mp hmem
    exact Or.inl ⟨rfl, rfl⟩

theorem limited_of_lru (h : c.lru = none) : c.Limited := by
  intro l hl
  rw [h] at hl
  cases hl

/-- The list that a value is added to has the limit of the cache. -/
theorem Limited.maxBytes (hlimited : c.Limited) :
    (c.lru.getD { maxBytes := c.cacheBytes }).maxBytes = c.cacheBytes := by
  rcases hlru : c.lru with _ | l
  · rfl
  · exact hlimited l hlru

/-- **A value that is added is held** if the cache has room for it. -/
theorem holds_add_iff (hlimited : c.Limited) (hadd : c.add len key v = some c') :
    c'.Holds key v ↔ c.HasRoom len key v := by
  obtain ⟨l, hl, rfl⟩ := Option.map_eq_some_iff.mp hadd
  rw [Lru.add] at hl
  split at hl
  · cases hl
  rename_i entries hevict
  cases hl
  have hstays := Lru.mem_evict_iff hevict
  rw [hlimited.maxBytes] at hstays
  refine Iff.trans ⟨?_, fun hmem => ⟨_, rfl, hmem⟩⟩ hstays
  rintro ⟨l', hl', hmem⟩
  cases hl'
  exact hmem

/-- Adding returns exactly when the limit is not negative. -/
theorem Limited.exists_add_iff (hlimited : c.Limited) :
    (∃ c', c.add len key v = some c') ↔ 0 ≤ c.cacheBytes := by
  have hends : ∀ l : Lru V, (∃ l', l.add len key v = some l') ↔ 0 ≤ l.maxBytes := by
    intro l
    have hevict : (Lru.evict len l.maxBytes (Lru.without l.entries key ++ [(key, v)])).isSome ↔
        0 ≤ l.maxBytes := Lru.evict_isSome_iff _
    rw [← Option.isSome_iff_exists, ← hevict, Lru.add]
    split
    · rename_i hnone
      simp [hnone]
    · rename_i hsome
      simp [hsome]
  rw [← hlimited.maxBytes, ← hends]
  simp [LocalCache.add, Option.map_eq_some_iff]

/-- Neither looking something up -/
theorem Limited.get (hlimited : c.Limited) (key : String) :
    (c.get key).2.Limited ∧ (c.get key).2.cacheBytes = c.cacheBytes := by
  rw [LocalCache.get]
  split
  · exact ⟨hlimited, rfl⟩
  · rename_i v l hget
    refine ⟨?_, rfl⟩
    rintro l' hl'
    cases hl'
    obtain ⟨l₀, hl₀, hget⟩ := Option.bind_eq_some_iff.mp hget
    obtain ⟨w, -, heq⟩ := Option.map_eq_some_iff.mp hget
    cases heq
    exact hlimited l₀ hl₀

/-- nor adding changes the limit. -/
theorem Limited.add (hlimited : c.Limited) (hadd : c.add len key v = some c') :
    c'.Limited ∧ c'.cacheBytes = c.cacheBytes := by
  obtain ⟨l, hl, rfl⟩ := Option.map_eq_some_iff.mp hadd
  refine ⟨?_, rfl⟩
  rintro l' hl'
  cases hl'
  rw [Lru.add] at hl
  split at hl
  · cases hl
  cases hl
  exact hlimited.maxBytes

theorem mem_of_lookup {l : List (String × V)} (h : l.lookup key = some v) : (key, v) ∈ l := by
  obtain ⟨l₁, l₂, rfl, -⟩ := List.lookup_eq_some_iff.mp h
  simp

/-- What is found is held, -/
theorem holds_of_get (h : (c.get key).1 = some v) : c.Holds key v := by
  rw [get] at h
  split at h
  · cases h
  rename_i u l hget
  cases h
  obtain ⟨l₀, hl₀, hget⟩ := Option.bind_eq_some_iff.mp hget
  obtain ⟨w, hw, heq⟩ := Option.map_eq_some_iff.mp hget
  cases heq
  exact ⟨l₀, hl₀, mem_of_lookup hw⟩

/-- and looking something up adds nothing. -/
theorem holds_get (h : (c.get key).2.Holds k u) : c.Holds k u := by
  rw [get] at h
  split at h
  · exact h
  rename_i v l hget
  obtain ⟨l', hl', hmem⟩ := h
  cases hl'
  obtain ⟨l₀, hl₀, hget⟩ := Option.bind_eq_some_iff.mp hget
  obtain ⟨w, hw, heq⟩ := Option.map_eq_some_iff.mp hget
  cases heq
  refine ⟨l₀, hl₀, ?_⟩
  rcases List.mem_append.mp hmem with hmem | hmem
  · exact (List.mem_filter.mp hmem).1
  · rw [List.mem_singleton.mp hmem]
    exact mem_of_lookup hw

theorem holds_delete (h : (c.delete key).Holds k u) : c.Holds k u ∧ k ≠ key := by
  obtain ⟨l, hl, hmem⟩ := h
  obtain ⟨l₀, hl₀, rfl⟩ := Option.map_eq_some_iff.mp hl
  obtain ⟨hmem, hne⟩ := List.mem_filter.mp hmem
  exact ⟨⟨l₀, hl₀, hmem⟩, by simpa using hne⟩

theorem not_holds_purge : ¬ c.purge.Holds k u := by
  rintro ⟨l, hl, -⟩
  cases hl

end LocalCache

end Cache

end ClusterManager
