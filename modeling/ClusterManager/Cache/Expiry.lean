import ClusterManager.Cache.Lru

/-!
# Entries that expire

The entries of a cache have room for a time at which they expire, and `get` drops an entry whose
time has come. `TimedCache` is the cache with these times. A time gets into an entry by `addWithTTL`
only, though, and nothing in the repository calls it: a group adds its values by `add`, whichever
way it has got them.

`exec_values` is what comes of that. Without `addWithTTL` the clock does not matter, and whatever is
done to a cache with times gives the results of `LocalCache`, which has none. The times are
forgotten by a map on the values of a cache, which the operations of a cache commute with.
-/

namespace ClusterManager

namespace Cache

variable {V W : Type}

/-! ### Other values in a cache -/

section Map

variable {len : W → ℕ} (f : V → W)

/-- The entries with other values. -/
def mapEntries (l : List (String × V)) : List (String × W) := l.map (Prod.map id f)

def Lru.map (c : Lru V) : Lru W where
  maxBytes := c.maxBytes
  entries := mapEntries f c.entries
  keys_nodup := by
    rw [mapEntries, List.map_map]
    exact c.keys_nodup

def LocalCache.map (c : LocalCache V) : LocalCache W where
  cacheBytes := c.cacheBytes
  lru := c.lru.map (Lru.map f)

theorem mapEntries_used (l : List (String × V)) (key : String) (v : V) :
    mapEntries f (Lru.without l key ++ [(key, v)]) =
      Lru.without (mapEntries f l) key ++ [(key, f v)] := by
  rw [mapEntries, List.map_append, Lru.without, Lru.without, mapEntries, List.filter_map]
  rfl

theorem lookup_mapEntries (l : List (String × V)) (key : String) :
    (mapEntries f l).lookup key = (l.lookup key).map f := by
  induction l with
  | nil => rfl
  | cons e l ih =>
    obtain ⟨k, v⟩ := e
    rw [mapEntries, List.map_cons, ← mapEntries, List.lookup_cons]
    show (match key == k with
      | true => some (f v)
      | false => (mapEntries f l).lookup key) = _
    rw [List.lookup_cons]
    cases key == k
    · exact ih
    · rfl

theorem nbytes_mapEntries (l : List (String × V)) :
    Lru.nbytes len (mapEntries f l) = Lru.nbytes (len ∘ f) l := by
  rw [Lru.nbytes, mapEntries, List.map_map]
  rfl

/-- Evicting looks at the length of values only. -/
theorem evict_mapEntries (maxBytes : ℤ) (l : List (String × V)) :
    Lru.evict len maxBytes (mapEntries f l) =
      (Lru.evict (len ∘ f) maxBytes l).map (mapEntries f) := by
  induction l with
  | nil =>
    rw [mapEntries, List.map_nil, Lru.evict, Lru.evict]
    split <;> rfl
  | cons e l ih =>
    have hbytes : Lru.nbytes len (mapEntries f (e :: l)) = _ := nbytes_mapEntries f (e :: l)
    rw [mapEntries, List.map_cons, ← mapEntries] at hbytes ⊢
    rw [Lru.evict, Lru.evict, hbytes]
    split
    · exact ih
    · rfl

theorem Lru.add_map (c : Lru V) (key : String) (v : V) :
    (c.map f).add len key (f v) = (c.add (len ∘ f) key v).map (Lru.map f) := by
  have hevict : Lru.evict len (c.map f).maxBytes
      (Lru.without (c.map f).entries key ++ [(key, f v)]) = _ :=
    (mapEntries_used f c.entries key v ▸ evict_mapEntries f c.maxBytes _)
  rcases hl : Lru.evict (len ∘ f) c.maxBytes (Lru.without c.entries key ++ [(key, v)]) with _ | l
  · rw [hl] at hevict
    rw [Lru.add_eq_none hevict, Lru.add_eq_none hl]
    rfl
  · rw [hl] at hevict
    obtain ⟨hnodup, hadd⟩ := Lru.add_eq_some hl
    obtain ⟨hnodup', hadd'⟩ := Lru.add_eq_some hevict
    rw [hadd, hadd']
    rfl

namespace LocalCache

variable (c : LocalCache V) (key : String)

theorem add_map (v : V) :
    (c.map f).add len key (f v) = (c.add (len ∘ f) key v).map (LocalCache.map f) := by
  have hlru : (c.map f).lru.getD { maxBytes := c.cacheBytes } =
      Lru.map f (c.lru.getD { maxBytes := c.cacheBytes }) := by
    rw [map]
    rcases c.lru with _ | l <;> rfl
  rw [add, add, show (c.map f).cacheBytes = c.cacheBytes from rfl, hlru, Lru.add_map,
    Option.map_map, Option.map_map]
  rfl

theorem get_map : (c.map f).get key = ((c.get key).1.map f, (c.get key).2.map f) := by
  obtain ⟨cacheBytes, _ | l⟩ := c
  · rfl
  · have hlookup := lookup_mapEntries f l.entries key
    rcases hl : l.entries.lookup key with _ | v
    · rw [hl, Option.map_none] at hlookup
      simp [get, map, Lru.get, Lru.map, hl, hlookup]
    · rw [hl, Option.map_some] at hlookup
      simp [get, map, Lru.get, Lru.map, hl, hlookup, mapEntries_used]

theorem delete_map : (c.map f).delete key = (c.delete key).map f := by
  obtain ⟨cacheBytes, _ | l⟩ := c
  · rfl
  · simp [delete, map, Lru.remove, Lru.map, Lru.without, mapEntries, List.filter_map]
    rfl

end LocalCache

end Map

/-! ### The cache with times -/

/-- An entry of a cache. -/
structure CacheEntry (V : Type) where
  value : V
  /-- When the entry expires, unless that is the zero time. -/
  expiresAt : Option ℤ := none

def CacheEntry.expired (e : CacheEntry V) (now : ℤ) : Bool :=
  match e.expiresAt with
  | none => false
  | some t => t < now

/-- A cache with times. -/
abbrev TimedCache (V : Type) := LocalCache (CacheEntry V)

namespace TimedCache

variable (len : V → ℕ) (c : TimedCache V)

def add (key : String) (value : V) : Option (TimedCache V) :=
  LocalCache.add (len ∘ CacheEntry.value) c key { value := value }

def addWithTTL (key : String) (value : V) (ttl now : ℤ) : Option (TimedCache V) :=
  LocalCache.add (len ∘ CacheEntry.value) c key { value := value, expiresAt := some (now + ttl) }

def get (key : String) (now : ℤ) : Option V × TimedCache V :=
  match LocalCache.get c key with
  | (none, c') => (none, c')
  | (some e, c') =>
    if e.expired now then (none, LocalCache.delete c' key) else (some e.value, c')

/-- What is done to a cache. -/
inductive Op (V : Type) where
  | add (key : String) (value : V)
  | addWithTTL (key : String) (value : V) (ttl : ℤ)
  | get (key : String)
  | delete (key : String)
  | purge

/-- What is found, and the cache after it. -/
def step (now : ℤ) : Op V → Option (Option V × TimedCache V)
  | .add key value => (c.add len key value).map (none, ·)
  | .addWithTTL key value ttl => (c.addWithTTL len key value ttl now).map (none, ·)
  | .get key => some (c.get key now)
  | .delete key => some (none, LocalCache.delete c key)
  | .purge => some (none, LocalCache.purge c)

/-- All that is found, at the times at which it is looked for. -/
def exec : TimedCache V → List (ℤ × Op V) → Option (List (Option V) × TimedCache V)
  | c, [] => some ([], c)
  | c, (now, op) :: ops =>
    (step len c now op).bind fun r => (exec r.2 ops).map fun rs => (r.1 :: rs.1, rs.2)

end TimedCache

namespace LocalCache

variable (len : V → ℕ)

/-- The same on a cache without times. -/
def step (c : LocalCache V) : TimedCache.Op V → Option (Option V × LocalCache V)
  | .add key value | .addWithTTL key value _ => (c.add len key value).map (none, ·)
  | .get key => some (c.get key)
  | .delete key => some (none, c.delete key)
  | .purge => some (none, c.purge)

def exec : LocalCache V → List (TimedCache.Op V) → Option (List (Option V) × LocalCache V)
  | c, [] => some ([], c)
  | c, op :: ops =>
    (step len c op).bind fun r => (exec r.2 ops).map fun rs => (r.1 :: rs.1, rs.2)

end LocalCache

/-! ### Without times in it -/

namespace TimedCache

variable {len : V → ℕ} {c : TimedCache V}

/-- No entry has a time. -/
def Untimed (c : TimedCache V) : Prop := ∀ key e, LocalCache.Holds c key e → e.expiresAt = none

/-- A time comes into a cache by `addWithTTL` only. -/
def Op.Plain : Op V → Prop
  | .addWithTTL _ _ _ => False
  | _ => True

/-- Without a time the clock does not matter. -/
theorem Untimed.get (h : c.Untimed) (key : String) (now : ℤ) :
    c.get key now = ((LocalCache.get c key).1.map CacheEntry.value, (LocalCache.get c key).2) := by
  rw [TimedCache.get]
  rcases hget : LocalCache.get c key with ⟨_ | e, c'⟩
  · rfl
  · have hplain : e.expiresAt = none := by
      refine h key e (LocalCache.holds_of_get ?_)
      rw [hget]
    simp [CacheEntry.expired, hplain]

/-- **What is done to a cache without times** is what is done to the cache of its values, -/
theorem Untimed.map_step (h : c.Untimed) (now : ℤ) {op : Op V} (hop : op.Plain) :
    (c.step len now op).map (fun r => (r.1, LocalCache.map CacheEntry.value r.2)) =
      (LocalCache.map CacheEntry.value c).step len op := by
  cases op with
  | add key value =>
    have hadd : (LocalCache.map CacheEntry.value c).add len key value = _ :=
      LocalCache.add_map CacheEntry.value c key ⟨value, none⟩
    rw [TimedCache.step, LocalCache.step, hadd, TimedCache.add, Option.map_map, Option.map_map]
    rfl
  | addWithTTL key value ttl => exact hop.elim
  | get key =>
    rw [TimedCache.step, LocalCache.step, h.get, LocalCache.get_map]
    rfl
  | delete key =>
    rw [TimedCache.step, LocalCache.step, LocalCache.delete_map]
    rfl
  | purge => rfl

/-- and it stays without times. -/
theorem Untimed.step (h : c.Untimed) {now : ℤ} {op : Op V} (hop : op.Plain)
    {r : Option V × TimedCache V} (hstep : c.step len now op = some r) : Untimed r.2 := by
  intro k e hholds
  cases op with
  | add key value =>
    obtain ⟨c', hadd, rfl⟩ := Option.map_eq_some_iff.mp hstep
    rcases LocalCache.holds_add hadd hholds with ⟨-, rfl⟩ | ⟨hbefore, -⟩
    · rfl
    · exact h k e hbefore
  | addWithTTL key value ttl => exact hop.elim
  | get key =>
    rw [TimedCache.step, h.get] at hstep
    cases hstep
    exact h k e (LocalCache.holds_get hholds)
  | delete key =>
    cases hstep
    exact h k e (LocalCache.holds_delete hholds).1
  | purge =>
    cases hstep
    exact absurd hholds LocalCache.not_holds_purge

/-- **Without `addWithTTL` nothing expires**: whatever else is done to a new cache, at whatever
times, finds what it finds in a cache without times. -/
theorem exec_values (len : V → ℕ) (cacheBytes : ℤ) (ops : List (ℤ × Op V))
    (hplain : ∀ op ∈ ops, op.2.Plain) :
    (exec len { cacheBytes := cacheBytes } ops).map Prod.fst =
      (LocalCache.exec len { cacheBytes := cacheBytes } (ops.map Prod.snd)).map Prod.fst := by
  have hexec : ∀ c : TimedCache V, c.Untimed → (exec len c ops).map Prod.fst =
      (LocalCache.exec len (LocalCache.map CacheEntry.value c) (ops.map Prod.snd)).map
        Prod.fst := by
    induction ops with
    | nil => exact fun c _ => rfl
    | cons op ops ih =>
      intro c hc
      have hop := hplain op (List.mem_cons_self ..)
      have hmap : _ = (LocalCache.map CacheEntry.value c).step len op.2 := hc.map_step op.1 hop
      rw [exec, List.map_cons, LocalCache.exec, ← hmap]
      rcases hstep : c.step len op.1 op.2 with _ | r
      · rfl
      · have hrest := ih (fun op hop => hplain op (List.mem_cons_of_mem _ hop)) r.2
          (hc.step hop hstep)
        have hcons := congrArg (Option.map (r.1 :: ·)) hrest
        rw [Option.map_map, Option.map_map] at hcons
        simp only [Option.bind_some, Option.map_some, Option.map_map]
        exact hcons
  refine hexec _ fun key e hholds => ?_
  obtain ⟨l, hl, -⟩ := hholds
  cases hl

end TimedCache

end Cache

end ClusterManager
