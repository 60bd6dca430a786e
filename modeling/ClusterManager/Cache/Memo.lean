import ClusterManager.Cache.Group
import ClusterManager.Cache.LruCache
import ClusterManager.Lib.Runs

/-!
# A group on its own memoises

A group without peers is a memo of its getter: a list of the last results by their use, as long
as the limit allows. `Memo` is that list with one more bit, whether it is to be emptied before it
is used again, and `Memo.step` says what each call does to it, without a cache that is made late
and dropped, and without a loop that evicts.

`refines_call` is the comparison: whatever is called, the cache of the group has the entries of
the memo in the order of the memo. What a `Get` returns is then read off the memo (`get_memoises`):
the value that is there, which is the one that was last stored, or else what the getter returns
when it is called once.

A `Get` with the empty key is turned away before it looks at the cache. It does not even empty it,
so it counts neither as a use nor as the one that the cache is emptied at
(`not_memoises_emptyKey`).
-/

namespace ClusterManager

namespace Cache

variable {V : Type} {len : V → ℕ}

/-! ### The cache as a recency list -/

/-- The bytes of an entry. -/
def entrySize (len : V → ℕ) : String × V → ℤ := LruCache.size fun v => (len v : ℤ)

/-- The entries, the one used last first. -/
def Lru.recency (c : Lru V) : Recency String V :=
  ⟨c.entries.reverse, by rw [List.map_reverse]; exact List.nodup_reverse.mpr c.keys_nodup⟩

/-- The entries of a cache, the one used last first. -/
def LocalCache.recency (c : LocalCache V) : Recency String V :=
  (c.lru.map Lru.recency).getD {}

theorem Lru.nbytes_eq (l : List (String × V)) :
    Lru.nbytes len l = total (entrySize len) l.reverse := by
  rw [total, List.map_reverse, List.sum_reverse]
  rfl

/-- **What evicting keeps**, with a limit that is not negative: the longest list of entries used
last that fits. -/
theorem Lru.evict_eq {maxBytes : ℤ} (hmax : 0 ≤ maxBytes) (l : List (String × V)) :
    Lru.evict len maxBytes l = some (if 0 < maxBytes then
      (fitting (entrySize len) maxBytes l.reverse).reverse else l) := by
  induction l with
  | nil =>
    rw [Lru.evict, if_neg (fun h => absurd h.2 (not_lt.mpr hmax)), List.reverse_nil,
      fitting_of_le (by simpa using hmax), List.reverse_nil, ite_self]
  | cons e l ih =>
    rw [Lru.evict, Lru.nbytes_eq]
    rcases hmax.eq_or_lt with rfl | hpos
    · simp
    · rw [if_pos hpos] at ih ⊢
      by_cases hfits : maxBytes < total (entrySize len) (e :: l).reverse
      · rw [if_pos ⟨hpos.ne', hfits⟩, ih]
        rw [List.reverse_cons] at hfits ⊢
        rw [fitting_concat hfits]
      · rw [if_neg (fun h => hfits h.2), fitting_of_le (not_lt.mp hfits), List.reverse_reverse]

theorem Lru.reverse_without (l : List (String × V)) (key : String) :
    (Lru.without l key).reverse = Recency.without l.reverse key :=
  List.filter_reverse.symm

theorem Lru.recency_lookup (c : Lru V) (key : String) :
    c.recency.lookup key = c.entries.lookup key := by
  refine Option.ext fun v => ?_
  rw [Recency.lookup, Recency.lookup_eq_some_iff c.recency.keys_nodup,
    Recency.lookup_eq_some_iff c.keys_nodup]
  exact List.mem_reverse

/-- With a limit that is not negative, adding is adding to the recency list. -/
theorem Lru.add_eq (c : Lru V) (hmax : 0 ≤ c.maxBytes) (key : String) (v : V) :
    ∃ c', c.add len key v = some c' ∧ c'.maxBytes = c.maxBytes ∧
      c'.recency = (c.recency.add (entrySize len) c.maxBytes key v).1 := by
  have hfront : (Lru.without c.entries key ++ [(key, v)]).reverse =
      (c.recency.front key v).entries := by
    rw [List.reverse_append, Lru.reverse_without]
    rfl
  have hevict : Lru.evict len c.maxBytes (Lru.without c.entries key ++ [(key, v)]) = _ :=
    Lru.evict_eq hmax _
  rw [Lru.add]
  split
  · rename_i hnone
    rw [hevict] at hnone
    cases hnone
  · rename_i l hsome
    refine ⟨_, rfl, rfl, Recency.ext ?_⟩
    rw [hevict, Option.some_inj, hfront] at hsome
    show l.reverse = _
    rw [← hsome, Recency.add, Recency.cut]
    split
    · exact List.reverse_reverse _
    · exact hfront

namespace LocalCache

variable {c : LocalCache V}

/-- With a limit that is not negative, adding is adding to the recency list, -/
theorem recency_add (len : V → ℕ) (h : c.Limited) (hmax : 0 ≤ c.cacheBytes) (key : String) (v : V) :
    ∃ c', c.add len key v = some c' ∧ c'.cacheBytes = c.cacheBytes ∧ c'.Limited ∧
      c'.recency = (c.recency.add (entrySize len) c.cacheBytes key v).1 := by
  have hlimit := h.maxBytes
  have hrecency : (c.lru.getD { maxBytes := c.cacheBytes }).recency = c.recency := by
    rw [recency]
    rcases c.lru with _ | l <;> rfl
  obtain ⟨l, hadd, hl, hlist⟩ :=
    (c.lru.getD { maxBytes := c.cacheBytes }).add_eq (by rw [hlimit]; exact hmax) key v
  refine ⟨{ c with lru := some l }, by rw [add, hadd]; rfl, rfl, ?_, ?_⟩
  · rintro l' hl'
    cases hl'
    exact hl.trans hlimit
  · rw [hrecency, hlimit] at hlist
    exact hlist

/-- looking up is looking up there, -/
theorem recency_get (c : LocalCache V) (key : String) :
    (c.get key).1 = (c.recency.get key).1 ∧ (c.get key).2.recency = (c.recency.get key).2 := by
  rcases hlru : c.lru with _ | l
  · have hrecency : c.recency = {} := by rw [recency, hlru]; rfl
    have hget : c.get key = (none, c) := by rw [get, hlru]; rfl
    rw [hget, hrecency]
    exact ⟨rfl, rfl⟩
  · have hrecency : c.recency = l.recency := by rw [recency, hlru]; rfl
    rw [hrecency, Recency.get, l.recency_lookup]
    rcases hlookup : l.entries.lookup key with _ | v
    · have hget : c.get key = (none, c) := by
        simp [get, hlru, Lru.get, hlookup]
      rw [hget]
      exact ⟨rfl, hrecency⟩
    · have hget : c.get key = (some v, { c with lru := some { l with
          entries := Lru.without l.entries key ++ [(key, v)]
          keys_nodup := Lru.nodup_used l.keys_nodup key v } }) := by
        simp [get, hlru, Lru.get, hlookup]
      rw [hget]
      refine ⟨rfl, Recency.ext ?_⟩
      show (Lru.without l.entries key ++ [(key, v)]).reverse = _
      rw [List.reverse_append, Lru.reverse_without]
      rfl

/-- and deleting is taking out. -/
theorem recency_delete (h : c.Limited) (key : String) :
    (c.delete key).recency = c.recency.remove key ∧ (c.delete key).Limited := by
  rcases hlru : c.lru with _ | l
  · refine ⟨?_, ?_⟩
    · rw [recency, recency, delete, hlru]
      rfl
    · intro l' hl'
      rw [delete, hlru] at hl'
      cases hl'
  · refine ⟨Recency.ext ?_, ?_⟩
    · rw [recency, recency, delete, hlru]
      exact Lru.reverse_without l.entries key
    · intro l' hl'
      rw [delete, hlru] at hl'
      cases hl'
      exact h l hlru

end LocalCache

/-! ### The memo -/

/-- What is called on a group. -/
inductive Call (V : Type) where
  | get (key : String) (a : Answers V)
  | delete (key : String)
  | deleteLocal (key : String)
  | storeReplica (key : String) (v : V)
  | markSlotMigrated (slot : ℤ)

/-- The group after a call. -/
def Group.call (len : V → ℕ) (g : Group V) : Call V → Option (Group V)
  | .get key a => (g.get len key a).map (·.group)
  | .delete key => some (g.delete key).1
  | .deleteLocal key => some (g.deleteLocal key)
  | .storeReplica key v => g.storeReplica len key v
  | .markSlotMigrated slot => some (g.markSlotMigrated slot)

/-- What a call has the group store. -/
def Group.stored (len : V → ℕ) (g : Group V) : Call V → List (String × V)
  | .get key a =>
    match g.get len key a with
    | some { result := .ok v, getterCalls := _ :: _, .. } => [(key, v)]
    | _ => []
  | .storeReplica key v => [(key, v)]
  | _ => []

/-- What calls have the group store, the last first. -/
def Group.storedBy (len : V → ℕ) (g : Group V) : List (Call V) → List (String × V)
  | [] => []
  | c :: calls => ((g.call len c).map fun g' => g'.storedBy len calls).getD [] ++ g.stored len c

/-- A memo: the last results, and whether they are to be forgotten before the next use. -/
structure Memo (V : Type) where
  list : Recency String V := {}
  stale : Bool := false

namespace Memo

variable (len) (limit : ℤ) (m : Memo V)

/-- The memo that a use finds. -/
def emptied : Memo V := { list := if m.stale then {} else m.list }

/-- A use: what is there is used, and otherwise the getter's value is kept. -/
def get (key : String) (getter : Except String V) : Memo V :=
  match m.emptied.list.lookup key, getter with
  | some v, _ => { list := m.emptied.list.front key v }
  | none, .ok v => { list := (m.emptied.list.add (entrySize len) limit key v).1 }
  | none, .error _ => m.emptied

/-- What a call does to the memo. `counts` says for which keys a `Get` is a use. -/
def step (counts : String → Bool) : Call V → Memo V
  | .get key a => if counts key then m.get len limit key a.getter else m
  | .delete key | .deleteLocal key => { m with list := m.list.remove key }
  | .storeReplica key v => { m with list := (m.list.add (entrySize len) limit key v).1 }
  | .markSlotMigrated _ => { m with stale := true }

/-- The memo after calls. -/
def after (counts : String → Bool) (calls : List (Call V)) : Memo V :=
  calls.foldl (fun m c => m.step len limit counts c) {}

end Memo

/-- **A `Get` memoises**, if the memo is `m` and `stored` has been stored, the last first. The
getter is not called if and only if the memo has the key, and then the result is what was last
stored for it. Otherwise the getter is called once and its result is returned. What the cache has
afterwards is what the memo has: a value that the getter has returned is stored, and nothing if it
has returned an error. -/
structure Memoises (len : V → ℕ) (limit : ℤ) (m : Memo V) (stored : List (String × V))
    (key : String) (getter : Except String V) (o : Group.Outcome V) : Prop where
  hit_iff : o.getterCalls = [] ↔ (m.emptied.list.lookup key).isSome
  hit : ∀ v, m.emptied.list.lookup key = some v → o.result = .ok v ∧ stored.lookup key = some v
  miss : m.emptied.list.lookup key = none → o.getterCalls = [key] ∧ o.result = getter
  stores : o.group.mainCache.recency = (m.get len limit key getter).list

/-- After these calls, a `Get` returns and memoises. -/
def MemoisesAfter (counts : String → Bool) (len : V → ℕ) (cacheBytes : ℤ) (calls : List (Call V))
    (key : String) (a : Answers V) : Prop :=
  ∃ g o, Runs.exec (Group.call len) (Group.newGroup cacheBytes) calls = some g ∧
    g.get len key a = some o ∧
    Memoises len cacheBytes (Memo.after len cacheBytes counts calls)
      ((Group.newGroup cacheBytes).storedBy len calls) key a.getter o

/-! ### The group refines the memo -/

/-- The group has no peers, tracker or limiter, and its cache is the memo. -/
structure Refines (cacheBytes : ℤ) (g : Group V) (m : Memo V) : Prop where
  list : g.mainCache.recency = m.list
  stale : g.cacheDirty = m.stale
  limited : g.mainCache.Limited
  cacheBytes : g.mainCache.cacheBytes = cacheBytes
  registry : g.registry = none
  hotTracker : g.hotTracker = none
  dbLimiter : g.dbLimiter = false

section Refinement

variable {cacheBytes : ℤ} {g : Group V} {m : Memo V}

theorem refines_new (cacheBytes : ℤ) :
    Refines cacheBytes (Group.newGroup cacheBytes : Group V) {} :=
  ⟨rfl, rfl, LocalCache.limited_of_lru rfl, rfl, rfl, rfl, rfl⟩

/-- Another cache for the group, and another list for the memo. -/
theorem Refines.withCache (h : Refines cacheBytes g m) {c : LocalCache V} {list : Recency String V}
    (hlist : c.recency = list) (hlimited : c.Limited) (hbytes : c.cacheBytes = cacheBytes) :
    Refines cacheBytes { g with mainCache := c } { m with list := list } :=
  ⟨hlist, h.stale, hlimited, hbytes, h.registry, h.hotTracker, h.dbLimiter⟩

theorem Refines.purged (h : Refines cacheBytes g m) : Refines cacheBytes g.purged m.emptied := by
  refine ⟨?_, rfl, ?_, ?_, h.registry, h.hotTracker, h.dbLimiter⟩
  · rw [Group.purged, Memo.emptied, ← h.stale, ← h.list]
    cases g.cacheDirty <;> rfl
  · rw [Group.purged]
    cases g.cacheDirty
    · exact h.limited
    · exact LocalCache.limited_of_lru rfl
  · rw [Group.purged, ← h.cacheBytes]
    cases g.cacheDirty <;> rfl

theorem Refines.populateCache (len : V → ℕ) (h : Refines cacheBytes g m) (hmax : 0 ≤ cacheBytes)
    (key : String) (v : V) : ∃ g', g.populateCache len key v = some g' ∧
      Refines cacheBytes g' { m with list := (m.list.add (entrySize len) cacheBytes key v).1 } := by
  obtain ⟨c, hadd, hbytes, hlimited, hlist⟩ :=
    LocalCache.recency_add len h.limited (by rw [h.cacheBytes]; exact hmax) key v
  refine ⟨{ g with mainCache := c }, by rw [Group.populateCache, hadd]; rfl, ?_⟩
  rw [h.list, h.cacheBytes] at hlist
  exact h.withCache hlist hlimited (hbytes.trans h.cacheBytes)

theorem Refines.recorded (h : Refines cacheBytes g m) (key : String) (a : Answers V) :
    Refines cacheBytes (g.recorded key a) m :=
  ⟨h.list, h.stale, h.limited, h.cacheBytes, h.registry, by rw [Group.recorded, h.hotTracker]; rfl,
    h.dbLimiter⟩

/-- Without peers and limiter a load is a call of the getter. -/
theorem Refines.load (h : Refines cacheBytes g m) (hmax : 0 ≤ cacheBytes) (key : String)
    (a : Answers V) : ∃ o, g.load len key a = some o ∧ o.result = a.getter ∧
      o.getterCalls = [key] ∧ Refines cacheBytes o.group { m with list := match a.getter with
        | .ok v => (m.list.add (entrySize len) cacheBytes key v).1
        | .error _ => m.list } := by
  have hfetch : g.fetch key a = none := by
    rw [Group.fetch, Group.candidates, h.registry]
    rfl
  rw [Group.load, hfetch]
  simp only [Group.getLocally, h.dbLimiter]
  rcases hgetter : a.getter with err | v
  · exact ⟨_, rfl, rfl, rfl, h⟩
  · obtain ⟨g', hg', h'⟩ := h.populateCache len hmax key v
    have hhot : g'.replicateIfHot key v = some [] := by rw [Group.replicateIfHot, h'.hotTracker]
    simp only [hg', Option.bind_some, hhot, Option.map_some]
    exact ⟨_, rfl, rfl, rfl, h'⟩

/-- **What a `Get` does**, for a key that is not empty: it is a use of the memo. -/
theorem Refines.get (len : V → ℕ) (h : Refines cacheBytes g m) (hmax : 0 ≤ cacheBytes)
    {key : String} (hkey : key ≠ "") (a : Answers V) : ∃ o, g.get len key a = some o ∧
      Refines cacheBytes o.group (m.get len cacheBytes key a.getter) ∧
      (∀ v, m.emptied.list.lookup key = some v → o.result = .ok v ∧ o.getterCalls = []) ∧
      (m.emptied.list.lookup key = none → o.result = a.getter ∧ o.getterCalls = [key]) := by
  have hpurged := (h.recorded key a).purged
  obtain ⟨hvalue, hlist⟩ := LocalCache.recency_get (g.recorded key a).purged.mainCache key
  obtain ⟨hlimited, hbytes⟩ := hpurged.limited.get key
  rw [hpurged.list, Recency.get] at hvalue hlist
  rw [Group.get, if_neg hkey]
  simp only
  rcases hlookup : m.emptied.list.lookup key with _ | v
  · rw [hlookup] at hvalue hlist
    rw [hvalue]
    have hmiss := hpurged.withCache hlist hlimited (hbytes.trans hpurged.cacheBytes)
    obtain ⟨o, ho, hresult, hcalls, hrefines⟩ := hmiss.load hmax key a
    refine ⟨o, ho, ?_, by simp, fun _ => ⟨hresult, hcalls⟩⟩
    unfold Memo.get
    rw [hlookup]
    rcases hgetter : a.getter with err | u
    · rw [hgetter] at hrefines
      exact hrefines
    · rw [hgetter] at hrefines
      exact hrefines
  · rw [hlookup] at hvalue hlist
    rw [hvalue]
    refine ⟨_, rfl, ?_, ?_, by simp⟩
    · unfold Memo.get
      rw [hlookup]
      exact hpurged.withCache hlist hlimited (hbytes.trans hpurged.cacheBytes)
    · rintro u hu
      cases hu
      exact ⟨rfl, rfl⟩

/-- **What a call does** to the memo it does to the group. -/
theorem refines_call (h : Refines cacheBytes g m) (hmax : 0 ≤ cacheBytes) (c : Call V) :
    ∃ g', g.call len c = some g' ∧
      Refines cacheBytes g' (m.step len cacheBytes (· ≠ "") c) := by
  have hdelete : ∀ key,
      Refines cacheBytes (g.deleteLocal key) { m with list := m.list.remove key } := by
    intro key
    obtain ⟨hlist, hlimited⟩ := LocalCache.recency_delete h.limited key
    rw [h.list] at hlist
    exact h.withCache hlist hlimited h.cacheBytes
  cases c with
  | get key a =>
    by_cases hkey : key = ""
    · subst hkey
      exact ⟨g, rfl, h⟩
    · obtain ⟨o, ho, hrefines, -⟩ := h.get len hmax hkey a
      refine ⟨o.group, by rw [Group.call, ho]; rfl, ?_⟩
      rw [Memo.step, if_pos (by simpa using hkey)]
      exact hrefines
  | delete key => exact ⟨_, rfl, hdelete key⟩
  | deleteLocal key => exact ⟨_, rfl, hdelete key⟩
  | storeReplica key v => exact h.populateCache len hmax key v
  | markSlotMigrated slot =>
    exact ⟨_, rfl, h.list, rfl, h.limited, h.cacheBytes, h.registry, h.hotTracker, h.dbLimiter⟩

theorem Memo.after_concat (counts : String → Bool) (limit : ℤ) (calls : List (Call V))
    (c : Call V) :
    Memo.after len limit counts (calls ++ [c]) =
      (Memo.after len limit counts calls).step len limit counts c := by
  rw [Memo.after, List.foldl_append]
  rfl

/-- The group refines the memo after all calls. -/
theorem refines_calls (len : V → ℕ) (hmax : 0 ≤ cacheBytes) (calls : List (Call V)) :
    ∃ g, Runs.exec (Group.call len) (Group.newGroup cacheBytes) calls = some g ∧
      Refines cacheBytes g (Memo.after len cacheBytes (· ≠ "") calls) := by
  induction calls using List.reverseRecOn with
  | nil => exact ⟨_, rfl, refines_new cacheBytes⟩
  | append_singleton calls c ih =>
    obtain ⟨g, hg, hrefines⟩ := ih
    obtain ⟨g', hg', hrefines'⟩ := refines_call hrefines hmax c
    refine ⟨g', by rw [Runs.exec_concat, hg]; exact hg', ?_⟩
    rw [Memo.after_concat]
    exact hrefines'

/-! ### What was last stored -/

/-- What one more call has the group store comes first. -/
theorem storedBy_concat {g₀ : Group V} {calls : List (Call V)}
    (h : Runs.exec (Group.call len) g₀ calls = some g) (c : Call V) :
    g₀.storedBy len (calls ++ [c]) = g.stored len c ++ g₀.storedBy len calls := by
  induction calls generalizing g₀ with
  | nil =>
    cases h
    rw [List.nil_append, Group.storedBy, Group.storedBy, List.append_nil]
    rcases g.call len c with _ | g' <;> rfl
  | cons c' calls ih =>
    rw [Runs.exec_cons] at h
    obtain ⟨g₁, hg₁, h⟩ := Option.bind_eq_some_iff.mp h
    rw [List.cons_append, Group.storedBy, Group.storedBy, hg₁]
    simp only [Option.map_some, Option.getD_some, ih h, List.append_assoc]

/-- A `Get` stores what it has called the getter for. -/
theorem stored_get {key : String} {a : Answers V} {o : Group.Outcome V}
    (h : g.get len key a = some o) :
    g.stored len (.get key a) = match o.result, o.getterCalls with
      | .ok v, _ :: _ => [(key, v)]
      | _, _ => [] := by
  rw [Group.stored, h]
  obtain ⟨g', result, getterCalls, sent⟩ := o
  cases result with
  | error err => rfl
  | ok v => cases getterCalls <;> rfl

/-- The entries are what was last stored under their keys. -/
def LastStored (list : Recency String V) (stored : List (String × V)) : Prop :=
  ∀ k v, (k, v) ∈ list.entries → stored.lookup k = some v

theorem LastStored.lookup {list : Recency String V} {stored : List (String × V)} {key : String}
    {v : V} (h : LastStored list stored) (hv : list.lookup key = some v) :
    stored.lookup key = some v :=
  h key v ((Recency.lookup_eq_some_iff list.keys_nodup).mp hv)

theorem LastStored.front {list : Recency String V} {stored : List (String × V)} {key : String}
    {v : V} (h : LastStored list stored) (hv : stored.lookup key = some v) :
    LastStored (list.front key v) stored := by
  intro k u hmem
  rcases List.mem_cons.mp hmem with heq | hmem
  · cases heq
    exact hv
  · exact h k u (List.mem_of_mem_filter hmem)

theorem LastStored.add {list : Recency String V} {stored : List (String × V)}
    (h : LastStored list stored) (limit : ℤ) (key : String) (v : V) :
    LastStored (list.add (entrySize len) limit key v).1 ((key, v) :: stored) := by
  intro k u hmem
  have hfront : (k, u) ∈ (list.front key v).entries := by
    rw [Recency.add, Recency.cut] at hmem
    split at hmem
    · exact fitting_prefix.subset hmem
    · exact hmem
  rw [List.lookup_cons]
  rcases List.mem_cons.mp hfront with heq | hmem
  · cases heq
    simp
  · obtain ⟨hmem, hne⟩ := List.mem_filter.mp hmem
    rw [beq_false_of_ne (by simpa using hne)]
    exact h k u hmem

theorem LastStored.emptied {stored : List (String × V)} (h : LastStored m.list stored) :
    LastStored m.emptied.list stored := by
  rw [Memo.emptied]
  cases m.stale
  · exact h
  · intro k v hmem
    cases hmem

/-- What is held is what was last stored, after one more call too. -/
theorem LastStored.step {stored : List (String × V)} (h : LastStored m.list stored)
    (hrefines : Refines cacheBytes g m) (hmax : 0 ≤ cacheBytes) (c : Call V) :
    LastStored (m.step len cacheBytes (· ≠ "") c).list (g.stored len c ++ stored) := by
  have hdelete : ∀ key, LastStored (m.list.remove key) stored :=
    fun key k v hmem => h k v (List.mem_of_mem_filter hmem)
  cases c with
  | get key a =>
    by_cases hkey : key = ""
    · subst hkey
      exact h
    · obtain ⟨o, ho, -, hhit, hmiss⟩ := hrefines.get len hmax hkey a
      rw [Memo.step, if_pos (by simpa using hkey), stored_get ho]
      unfold Memo.get
      rcases hlookup : m.emptied.list.lookup key with _ | v
      · obtain ⟨hresult, hcalls⟩ := hmiss hlookup
        rw [hresult, hcalls]
        rcases a.getter with err | v
        · exact h.emptied
        · exact h.emptied.add cacheBytes key v
      · obtain ⟨hresult, hcalls⟩ := hhit v hlookup
        rw [hresult, hcalls]
        exact h.emptied.front (h.emptied.lookup hlookup)
  | delete key => exact hdelete key
  | deleteLocal key => exact hdelete key
  | storeReplica key v => exact h.add cacheBytes key v
  | markSlotMigrated slot => exact h

theorem lastStored_calls (hmax : 0 ≤ cacheBytes) (calls : List (Call V)) :
    LastStored (Memo.after len cacheBytes (· ≠ "") calls).list
      ((Group.newGroup cacheBytes).storedBy len calls) := by
  induction calls using List.reverseRecOn with
  | nil =>
    intro k v hmem
    cases hmem
  | append_singleton calls c ih =>
    obtain ⟨g, hg, hrefines⟩ := refines_calls len hmax calls
    rw [Memo.after_concat, storedBy_concat hg]
    exact ih.step hrefines hmax c

end Refinement

/-- **A group on its own memoises** like a recency list with a limit, whatever has been called on
it: as long as the limit is not negative, and for keys that are not empty. -/
theorem get_memoises (len : V → ℕ) (cacheBytes : ℤ) (hmax : 0 ≤ cacheBytes) (calls : List (Call V))
    (key : String) (hkey : key ≠ "") (a : Answers V) :
    MemoisesAfter (· ≠ "") len cacheBytes calls key a := by
  obtain ⟨g, hg, hrefines⟩ := refines_calls len hmax calls
  obtain ⟨o, ho, hrefines', hhit, hmiss⟩ := hrefines.get len hmax hkey a
  refine ⟨g, o, hg, ho, ?_, ?_, ?_, hrefines'.list⟩
  · rcases hlookup : (Memo.after len cacheBytes (· ≠ "") calls).emptied.list.lookup key with _ | v
    · simp [(hmiss hlookup).2]
    · simp [(hhit v hlookup).2]
  · intro v hlookup
    exact ⟨(hhit v hlookup).1, (lastStored_calls hmax calls).emptied.lookup hlookup⟩
  · intro hlookup
    obtain ⟨hresult, hcalls⟩ := hmiss hlookup
    exact ⟨hcalls, hresult⟩

/-- A value that was pushed is found, with room for two bytes and one entry. -/
theorem get_memoises_pushed :
    MemoisesAfter (· ≠ "") (fun _ : ℕ => 1) 2
      [.storeReplica "j" 1, .markSlotMigrated 7, .get "" { getter := .ok 2 }, .storeReplica "k" 3]
      "k" { getter := .ok 4 } :=
  get_memoises _ 2 (by decide) _ "k" (by decide) _

/-- A `Get` with the empty key is not the one at which the cache is emptied: what is pushed after
it is lost with what was there before. -/
theorem not_memoises_emptyKey :
    ¬ MemoisesAfter (fun _ => true) (fun _ : ℕ => 1) 0
      [.markSlotMigrated 7, .get "" { getter := .error "no value" }, .storeReplica "k" 3]
      "k" { getter := .ok 4 } := by
  rintro ⟨g, o, hg, ho, hmemo⟩
  cases hg
  cases ho
  obtain ⟨hresult, -⟩ := hmemo.hit 3 rfl
  cases hresult

end Cache

end ClusterManager
