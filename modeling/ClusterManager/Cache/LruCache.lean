import ClusterManager.Cache.Lru
import ClusterManager.Lib.Loop
import ClusterManager.Lib.Recency

/-!
# The linked list, the map and the counter

`LruCache` is the cache of the package `lru` as it is built: a linked list of elements, the
one used last at its front, a map from keys to elements, and a counter of the bytes. An element
is told by a number, as a pointer would tell it; what it points to is in `elements`, which an
update writes to in place. The counter is adjusted by each operation and never recomputed, and
the map and the list are changed one after the other.

`LruCache.Valid` is what keeps the three in step, and every operation keeps it
(`Valid.put`, `Valid.discard`, `Valid.moveToFront`). What the cache holds is then a recency
list, and each operation does on it what it is for (`refines_step`).

The loop that evicts is a loop without a bound (`LruCache.add` takes a number of rounds). It
ends where the limit is not negative; an empty cache has no bytes, and that is within it.
-/

namespace ClusterManager

namespace Cache

variable {V : Type}

/-- What an element of the list points to. -/
structure LruCache.Entry (V : Type) where
  key : String
  value : V

/-- The cache as it is built. -/
structure LruCache (V : Type) where
  maxBytes : ℤ
  nbytes : ℤ := 0
  /-- The elements of the linked list, from the front to the back. -/
  ll : List ℕ := []
  /-- What the elements that have been made point to, and how many have been made. -/
  elements : ℕ → Option (LruCache.Entry V) := fun _ => none
  allocated : ℕ := 0
  cache : String → Option ℕ := fun _ => none
  /-- Whether there is a function to call, and what it has been called with. -/
  onEvicted : Bool := false
  evicted : List (String × V) := []

namespace LruCache

/-- An empty cache. -/
def new (maxBytes : ℤ) (onEvicted : Bool) : LruCache V := { maxBytes, onEvicted }

/-- The number of entries. -/
def len (c : LruCache V) : ℕ := c.ll.length

variable (len : V → ℤ) (c : LruCache V)

/-- The list with an element brought to its front, if it is in the list. -/
def moveToFront (ele : ℕ) : LruCache V :=
  { c with ll := if ele ∈ c.ll then ele :: c.ll.erase ele else c.ll }

/-- Look a key up. -/
def get (key : String) : Option V × LruCache V :=
  match c.cache key with
  | none => (none, c)
  | some ele => ((c.elements ele).map Entry.value, c.moveToFront ele)

/-- Take an element out of the list and a key out of the map, and call `OnEvicted`. -/
def discard (ele : ℕ) (key : String) (kv : Entry V) : LruCache V :=
  { c with
    ll := c.ll.erase ele
    cache := Function.update c.cache key none
    nbytes := c.nbytes - (kv.key.utf8ByteSize + len kv.value)
    evicted := if c.onEvicted then c.evicted ++ [(kv.key, kv.value)] else c.evicted }

/-- Remove the element at the back. -/
def removeOldest : LruCache V :=
  match c.ll.getLast? with
  | none => c
  | some ele =>
    match c.elements ele with
    | none => c
    | some kv => c.discard len ele kv.key kv

/-- Bring an element to the front and give it a new value. -/
def replace (ele : ℕ) (kv : Entry V) (value : V) : LruCache V :=
  { c.moveToFront ele with
    nbytes := c.nbytes + (len value - len kv.value)
    elements := Function.update c.elements ele (some { kv with value := value }) }

/-- Put a new element at the front. -/
def pushFront (key : String) (value : V) : LruCache V :=
  { c with
    ll := c.allocated :: c.ll
    elements := Function.update c.elements c.allocated (some ⟨key, value⟩)
    allocated := c.allocated + 1
    cache := Function.update c.cache key (some c.allocated)
    nbytes := c.nbytes + (key.utf8ByteSize + len value) }

/-- The first part of `Add`. -/
def put (key : String) (value : V) : LruCache V :=
  match c.cache key with
  | some ele =>
    match c.elements ele with
    | none => c
    | some kv => c.replace len ele kv value
  | none => c.pushFront len key value

/-- There is a limit, and it is exceeded. -/
def full : Bool := c.maxBytes ≠ 0 ∧ c.maxBytes < c.nbytes

/-- Add or replace an entry, and remove the oldest ones while the cache is full, in so many
rounds at most. -/
def add (rounds : ℕ) (key : String) (value : V) : Option (LruCache V) :=
  loop full (removeOldest len) rounds (c.put len key value)

/-- Remove the entry of a key. -/
def remove (key : String) : Bool × LruCache V :=
  match c.cache key with
  | none => (false, c)
  | some ele =>
    match c.elements ele with
    | none => (false, c)
    | some kv => (true, c.discard len ele key kv)

/-! ### The three in step -/

/-- The entry an element points to. -/
def read (ele : ℕ) : Option (String × V) := (c.elements ele).map fun kv => (kv.key, kv.value)

/-- What the cache holds, the entry used last first. -/
def contents : List (String × V) := c.ll.filterMap c.read

/-- The bytes of an entry. -/
def size (e : String × V) : ℤ := e.1.utf8ByteSize + len e.2

/-- The list, the map and the counter are in step. -/
structure Valid : Prop where
  nodup : c.ll.Nodup
  /-- The map has the keys of the list, each with its own element. -/
  mapped : ∀ key ele, c.cache key = some ele ↔ ele ∈ c.ll ∧ ∃ v, c.read ele = some (key, v)
  /-- The elements of the list have been made. -/
  made : ∀ ele ∈ c.ll, ele < c.allocated ∧ (c.read ele).isSome
  nbytes : c.nbytes = total (size len) c.contents

variable {len c} {key : String} {v : V} {ele : ℕ}

theorem valid_new (maxBytes : ℤ) (onEvicted : Bool) :
    (new maxBytes onEvicted : LruCache V).Valid len where
  nodup := List.nodup_nil
  mapped key ele := by simp [new]
  made ele h := by cases h
  nbytes := rfl

/-- An element of the list is the one the map has for its key. -/
theorem Valid.cache_eq (h : c.Valid len) (hele : ele ∈ c.ll) (hread : c.read ele = some (key, v)) :
    c.cache key = some ele := (h.mapped key ele).mpr ⟨hele, v, hread⟩

/-- Two elements of the list have different keys. -/
theorem Valid.eq_of_key (h : c.Valid len) {ele' : ℕ} {v' : V} (hele : ele ∈ c.ll)
    (hread : c.read ele = some (key, v)) (hele' : ele' ∈ c.ll)
    (hread' : c.read ele' = some (key, v')) : ele' = ele :=
  Option.some.inj ((h.cache_eq hele' hread').symm.trans (h.cache_eq hele hread))

theorem mem_contents : (key, v) ∈ c.contents ↔ ∃ ele ∈ c.ll, c.read ele = some (key, v) :=
  List.mem_filterMap

theorem Valid.nodup_keys (h : c.Valid len) : (c.contents.map Prod.fst).Nodup := by
  rw [List.Nodup, List.pairwise_map, contents, List.pairwise_filterMap]
  refine List.Pairwise.imp_of_mem (fun hele hele' hne => ?_) h.nodup
  rintro ⟨key, v⟩ hread ⟨key', v'⟩ hread' rfl
  exact hne (h.eq_of_key hele' hread' hele hread)

theorem Valid.length_contents (h : c.Valid len) : c.contents.length = c.ll.length := by
  rw [contents, List.length_filterMap_eq_countP]
  exact List.countP_eq_length.mpr fun ele hele => (h.made ele hele).2

/-- Taking an element out of the list takes its entry out of the contents. -/
theorem Valid.filterMap_erase (h : c.Valid len) (hele : ele ∈ c.ll)
    (hread : c.read ele = some (key, v)) :
    (c.ll.erase ele).filterMap c.read = Recency.without c.contents key := by
  rw [h.nodup.erase_eq_filter, List.filterMap_filter, Recency.without, contents,
    List.filter_filterMap]
  refine List.filterMap_congr fun ele' hele' => ?_
  by_cases heq : ele' = ele
  · subst heq
    simp [hread, Option.filter]
  · rcases hread' : c.read ele' with _ | ⟨key', v'⟩
    · simp
    · have hne : key' ≠ key := by
        rintro rfl
        exact heq (h.eq_of_key hele hread hele' hread')
      simp [heq, Option.filter, hne]

/-- What the map finds is what the list holds. -/
theorem Valid.lookup_contents (h : c.Valid len) (key : String) :
    c.contents.lookup key = ((c.cache key).bind c.read).map Prod.snd := by
  rcases hcache : c.cache key with _ | ele
  · refine List.lookup_eq_none_iff.mpr fun e he => ?_
    obtain ⟨ele, hele, hread⟩ := List.mem_filterMap.mp he
    have hsome := h.cache_eq hele hread
    simp only [bne_iff_ne, ne_eq]
    rintro rfl
    cases hcache.symm.trans hsome
  · obtain ⟨hele, v, hread⟩ := (h.mapped key ele).mp hcache
    rw [Option.bind_some, hread]
    exact (Recency.lookup_eq_some_iff h.nodup_keys).mpr (mem_contents.mpr ⟨ele, hele, hread⟩)

/-- The order of the list makes no difference to the map and the counter. -/
theorem Valid.of_perm (h : c.Valid len) {l : List ℕ} (hl : l.Perm c.ll) :
    { c with ll := l }.Valid len where
  nodup := hl.nodup_iff.mpr h.nodup
  mapped key ele := (h.mapped key ele).trans (and_congr_left' hl.mem_iff.symm)
  made ele hele := h.made ele (hl.mem_iff.mp hele)
  nbytes := h.nbytes.trans (total_perm (hl.filterMap c.read)).symm

theorem Valid.moveToFront (h : c.Valid len) (hele : ele ∈ c.ll) :
    (c.moveToFront ele).Valid len := by
  rw [LruCache.moveToFront, if_pos hele]
  exact h.of_perm (List.perm_cons_erase hele).symm

theorem Valid.contents_moveToFront (h : c.Valid len) (hele : ele ∈ c.ll)
    (hread : c.read ele = some (key, v)) :
    (c.moveToFront ele).contents = (key, v) :: Recency.without c.contents key := by
  rw [LruCache.moveToFront, if_pos hele]
  show (ele :: c.ll.erase ele).filterMap c.read = _
  rw [List.filterMap_cons_some hread, h.filterMap_erase hele hread]

/-- **Discarding** an element discards its entry. -/
theorem Valid.contents_discard (h : c.Valid len) (hele : ele ∈ c.ll)
    (hread : c.read ele = some (key, v)) :
    (c.discard len ele key ⟨key, v⟩).contents = Recency.without c.contents key :=
  h.filterMap_erase hele hread

theorem Valid.discard (h : c.Valid len) (hele : ele ∈ c.ll) (hread : c.read ele = some (key, v)) :
    (c.discard len ele key ⟨key, v⟩).Valid len where
  nodup := h.nodup.erase ele
  mapped key' ele' := by
    show Function.update c.cache key none key' = some ele' ↔
      ele' ∈ c.ll.erase ele ∧ ∃ v, c.read ele' = some (key', v)
    rw [Function.update_apply, h.nodup.mem_erase_iff]
    by_cases hkey : key' = key
    · subst hkey
      rw [if_pos rfl]
      refine iff_of_false (by simp) ?_
      rintro ⟨⟨hne, hele'⟩, v', hread'⟩
      exact hne (h.eq_of_key hele hread hele' hread')
    · rw [if_neg hkey, h.mapped]
      refine and_congr_left fun ⟨v', hread'⟩ => (and_iff_right ?_).symm
      rintro rfl
      cases hread.symm.trans hread'
      exact hkey rfl
  made ele' hele' := h.made ele' (List.mem_of_mem_erase hele')
  nbytes := by
    have hperm := total_perm (w := size len)
      (Recency.perm_front h.nodup_keys (mem_contents.mpr ⟨ele, hele, hread⟩))
    rw [total_cons] at hperm
    rw [h.contents_discard hele hread]
    show c.nbytes - size len (key, v) = _
    rw [h.nbytes, hperm]
    omega

/-- Where two caches have the same elements, they read the same. -/
theorem read_congr {c' : LruCache V} (h : c'.elements ele = c.elements ele) :
    c'.read ele = c.read ele := by
  rw [read, read, h]

theorem elements_of_read (h : c.read ele = some (key, v)) : c.elements ele = some ⟨key, v⟩ := by
  obtain ⟨kv, hkv, heq⟩ := Option.map_eq_some_iff.mp h
  cases heq
  exact hkv

section Replace

variable (h : c.Valid len) (hele : ele ∈ c.ll) (hread : c.read ele = some (key, v)) (value : V)

theorem read_replace_self : (c.replace len ele ⟨key, v⟩ value).read ele = some (key, value) := by
  simp [replace, read]

theorem read_replace_of_ne {ele' : ℕ} (hne : ele' ≠ ele) :
    (c.replace len ele ⟨key, v⟩ value).read ele' = c.read ele' :=
  read_congr (Function.update_of_ne hne ..)

include h hele hread

theorem Valid.contents_replace : (c.replace len ele ⟨key, v⟩ value).contents =
    (key, value) :: Recency.without c.contents key := by
  have hll : (c.replace len ele ⟨key, v⟩ value).ll = ele :: c.ll.erase ele := if_pos hele
  rw [contents, hll, List.filterMap_cons_some (read_replace_self value),
    ← h.filterMap_erase hele hread]
  refine congrArg ((key, value) :: ·) (List.filterMap_congr fun ele' hele' => ?_)
  exact read_replace_of_ne value (h.nodup.mem_erase_iff.mp hele').1

/-- **Replacing** keeps the three in step. -/
theorem Valid.replace : (c.replace len ele ⟨key, v⟩ value).Valid len := by
  have hll : (c.replace len ele ⟨key, v⟩ value).ll = ele :: c.ll.erase ele := if_pos hele
  have hperm : (ele :: c.ll.erase ele).Perm c.ll := (List.perm_cons_erase hele).symm
  refine ⟨?_, fun key' ele' => ?_, fun ele' hele' => ?_, ?_⟩
  · rw [hll]
    exact hperm.nodup_iff.mpr h.nodup
  · rw [hll, hperm.mem_iff]
    refine (h.mapped key' ele').trans (and_congr_right fun _ => ?_)
    by_cases heq : ele' = ele
    · subst heq
      rw [read_replace_self, hread]
      simp
    · rw [read_replace_of_ne value heq]
  · rw [hll, hperm.mem_iff] at hele'
    refine ⟨(h.made ele' hele').1, ?_⟩
    by_cases heq : ele' = ele
    · subst heq
      rw [read_replace_self]
      rfl
    · rw [read_replace_of_ne value heq]
      exact (h.made ele' hele').2
  · have htotal := total_perm (w := size len)
      (Recency.perm_front h.nodup_keys (mem_contents.mpr ⟨ele, hele, hread⟩))
    rw [total_cons, ← h.nbytes] at htotal
    rw [h.contents_replace hele hread value, total_cons]
    show c.nbytes + (len value - len v) = _
    simp only [size] at htotal ⊢
    omega

end Replace

section PushFront

variable (h : c.Valid len) (hnone : c.cache key = none) (value : V)

theorem read_pushFront_self :
    (c.pushFront len key value).read c.allocated = some (key, value) := by
  simp [pushFront, read]

theorem read_pushFront_of_ne (hne : ele ≠ c.allocated) :
    (c.pushFront len key value).read ele = c.read ele :=
  read_congr (Function.update_of_ne hne ..)

include h

theorem Valid.ne_allocated (hele : ele ∈ c.ll) : ele ≠ c.allocated :=
  Nat.ne_of_lt (h.made ele hele).1

include hnone

theorem Valid.without_contents : Recency.without c.contents key = c.contents := by
  refine Recency.without_of_notMem fun hmem => ?_
  obtain ⟨⟨key', v⟩, hv, rfl⟩ := List.mem_map.mp hmem
  obtain ⟨ele, hele, hread⟩ := mem_contents.mp hv
  cases hnone.symm.trans (h.cache_eq hele hread)

theorem Valid.contents_pushFront : (c.pushFront len key value).contents =
    (key, value) :: Recency.without c.contents key := by
  rw [h.without_contents hnone]
  show (c.allocated :: c.ll).filterMap _ = _
  rw [List.filterMap_cons_some (read_pushFront_self value), contents]
  refine congrArg ((key, value) :: ·) (List.filterMap_congr fun ele hele => ?_)
  exact read_pushFront_of_ne value (h.ne_allocated hele)

/-- **A new element** keeps the three in step. -/
theorem Valid.pushFront : (c.pushFront len key value).Valid len := by
  refine ⟨?_, fun key' ele => ?_, fun ele hele => ?_, ?_⟩
  · exact List.nodup_cons.mpr ⟨fun hmem => h.ne_allocated hmem rfl, h.nodup⟩
  · show Function.update c.cache key (some c.allocated) key' = some ele ↔
      ele ∈ c.allocated :: c.ll ∧ ∃ v, (c.pushFront len key value).read ele = some (key', v)
    rw [Function.update_apply, List.mem_cons]
    by_cases heq : ele = c.allocated
    · subst heq
      rw [read_pushFront_self]
      by_cases hkey : key' = key
      · simp [hkey]
      · rw [if_neg hkey]
        refine iff_of_false (fun hsome => ?_) (by simp [Ne.symm hkey])
        exact h.ne_allocated ((h.mapped key' _).mp hsome).1 rfl
    · rw [read_pushFront_of_ne value heq]
      by_cases hkey : key' = key
      · subst hkey
        rw [if_pos rfl]
        refine iff_of_false (fun hsome => heq (Option.some.inj hsome).symm) ?_
        rintro ⟨hele, v, hread⟩
        cases hnone.symm.trans (h.cache_eq (hele.resolve_left heq) hread)
      · rw [if_neg hkey, h.mapped]
        exact and_congr_left' (or_iff_right heq).symm
  · rcases List.mem_cons.mp hele with rfl | hele
    · rw [read_pushFront_self]
      exact ⟨Nat.lt_succ_self _, rfl⟩
    · rw [read_pushFront_of_ne value (h.ne_allocated hele)]
      exact ⟨Nat.lt_succ_of_lt (h.made ele hele).1, (h.made ele hele).2⟩
  · rw [h.contents_pushFront hnone value, h.without_contents hnone, total_cons, ← h.nbytes]
    exact add_comm _ _

end PushFront

/-- What `Add` does before it evicts: the entry is at the front, in place of the one there was,
and everything else is as it was. -/
theorem Valid.put (h : c.Valid len) (key : String) (value : V) :
    (c.put len key value).Valid len ∧
      (c.put len key value).contents = (key, value) :: Recency.without c.contents key ∧
      (c.put len key value).maxBytes = c.maxBytes ∧
      (c.put len key value).onEvicted = c.onEvicted ∧
      (c.put len key value).evicted = c.evicted := by
  rw [LruCache.put]
  rcases hcache : c.cache key with _ | ele
  · exact ⟨h.pushFront hcache value, h.contents_pushFront hcache value, rfl, rfl, rfl⟩
  · obtain ⟨hele, v, hread⟩ := (h.mapped key ele).mp hcache
    simp only [elements_of_read hread]
    exact ⟨h.replace hele hread value, h.contents_replace hele hread value, rfl, rfl, rfl⟩

/-- **Removing the oldest entry**: nothing happens to an empty cache, and otherwise the last
entry goes and is reported. -/
theorem Valid.removeOldest (h : c.Valid len) :
    (c.contents = [] ∧ c.removeOldest len = c) ∨
      ∃ l e, c.contents = l ++ [e] ∧ (c.removeOldest len).Valid len ∧
        (c.removeOldest len).contents = l ∧
        (c.removeOldest len).maxBytes = c.maxBytes ∧
        (c.removeOldest len).onEvicted = c.onEvicted ∧
        (c.removeOldest len).evicted =
          if c.onEvicted then c.evicted ++ [e] else c.evicted := by
  rcases List.eq_nil_or_concat c.ll with hnil | ⟨l, ele, hll⟩
  · refine Or.inl ⟨by rw [contents, hnil]; rfl, ?_⟩
    rw [LruCache.removeOldest, hnil]
    rfl
  · rw [List.concat_eq_append] at hll
    have hele : ele ∈ c.ll := by simp [hll]
    obtain ⟨⟨key, v⟩, hread⟩ := Option.isSome_iff_exists.mp (h.made ele hele).2
    have hcontents : c.contents = l.filterMap c.read ++ [(key, v)] := by
      rw [contents, hll, List.filterMap_append, List.filterMap_cons_some hread]
      rfl
    have heq : c.removeOldest len = c.discard len ele key ⟨key, v⟩ := by
      rw [LruCache.removeOldest, hll, List.getLast?_concat]
      simp only [elements_of_read hread]
    refine Or.inr ⟨_, _, hcontents, ?_⟩
    rw [heq, h.contents_discard hele hread]
    refine ⟨h.discard hele hread, ?_, rfl, rfl, rfl⟩
    rw [hcontents]
    exact Recency.without_concat (hcontents ▸ h.nodup_keys)

/-! ### The loop that evicts -/

theorem full_iff : c.full ↔ c.maxBytes ≠ 0 ∧ c.maxBytes < c.nbytes := by simp [full]

/-- What the loop has done so far: it has dropped entries from the back, and what fits is still
the same. -/
structure Evicting (len : V → ℤ) (c₀ c : LruCache V) : Prop where
  valid : c.Valid len
  maxBytes : c.maxBytes = c₀.maxBytes
  onEvicted : c.onEvicted = c₀.onEvicted
  dropped : ∃ d, c₀.contents = c.contents ++ d ∧
    c.evicted = if c₀.onEvicted then c₀.evicted ++ d.reverse else c₀.evicted
  fitting : fitting (size len) c₀.maxBytes c.contents = fitting (size len) c₀.maxBytes c₀.contents

theorem Valid.evicting (h : c.Valid len) : Evicting len c c where
  valid := h
  maxBytes := rfl
  onEvicted := rfl
  dropped := ⟨[], by simp⟩
  fitting := rfl

/-- A full cache with a limit that is not negative has an entry to drop. -/
theorem Evicting.step {c₀ : LruCache V} (hmax : 0 ≤ c₀.maxBytes) (h : Evicting len c₀ c)
    (hfull : c.full) : Evicting len c₀ (c.removeOldest len) ∧
      (c.removeOldest len).contents.length < c.contents.length := by
  have hlt : c₀.maxBytes < total (size len) c.contents := by
    rw [← h.maxBytes, ← h.valid.nbytes]
    exact (full_iff.mp hfull).2
  rcases h.valid.removeOldest with ⟨hnil, -⟩ | ⟨l, e, hc, hvalid, hl, hbytes, hon, hevicted⟩
  · rw [hnil, total_nil] at hlt
    omega
  rw [hc] at hlt
  refine ⟨⟨hvalid, hbytes.trans h.maxBytes, hon.trans h.onEvicted, ?_, ?_⟩, ?_⟩
  · obtain ⟨d, hd, hreport⟩ := h.dropped
    refine ⟨e :: d, ?_, ?_⟩
    · rw [hd, hc, hl, List.append_assoc, List.singleton_append]
    · rw [hevicted, h.onEvicted, hreport]
      split
      · rw [List.reverse_cons, List.append_assoc]
      · rfl
  · rw [hl, ← fitting_concat hlt, ← hc]
    exact h.fitting
  · rw [hl, hc, List.length_append]
    exact Nat.lt_succ_self _

/-- **Adding ends** where the limit is not negative, with what fits. -/
theorem Valid.add (h : c.Valid len) (hmax : 0 ≤ c.maxBytes) (r : Recency String V)
    (hr : c.contents = r.entries) (key : String) (value : V) :
    ∃ rounds c', c.add len rounds key value = some c' ∧ c'.Valid len ∧
      c'.contents = (r.add (size len) c.maxBytes key value).1.entries ∧
      c'.maxBytes = c.maxBytes ∧ c'.onEvicted = c.onEvicted ∧
      c'.evicted = if c.onEvicted then
          c.evicted ++ (r.add (size len) c.maxBytes key value).2
        else c.evicted := by
  obtain ⟨hput, hcontents, hbytes, hon, hevicted⟩ := h.put key value
  rw [hr] at hcontents
  rw [Recency.add, Recency.cut]
  rcases hmax.eq_or_lt with hzero | hpos
  · -- without a limit the loop does nothing
    have hfull : (c.put len key value).full = false := by
      rw [Bool.eq_false_iff, ne_eq, full_iff, hbytes]
      exact fun hfull => hfull.1 hzero.symm
    refine ⟨0, _, loop_of_not hfull 0, hput, ?_, hbytes, hon, ?_⟩
    · rw [if_neg (by omega)]
      exact hcontents
    · rw [hevicted, if_neg (not_lt.mpr hzero.ge), List.append_nil, ite_self]
  · rw [if_pos hpos]
    obtain ⟨c', hloop, hc', hfull⟩ := loop_ends full (LruCache.removeOldest len)
      (fun c => c.contents.length)
      (fun _ hI => Evicting.step (hbytes ▸ hmax) hI) hput.evicting
    have hfits : total (size len) c'.contents ≤ c.maxBytes := by
      rw [Bool.eq_false_iff, ne_eq, full_iff, hc'.maxBytes, hbytes, hc'.valid.nbytes] at hfull
      by_contra hcon
      exact hfull ⟨by omega, by omega⟩
    have hkept : c'.contents = fitting (size len) c.maxBytes (r.front key value).entries := by
      rw [← fitting_of_le hfits, ← hbytes, hc'.fitting, hcontents]
      rfl
    obtain ⟨d, hd, hreport⟩ := hc'.dropped
    have hdropped : (r.front key value).entries.drop c'.contents.length = d := by
      rw [show (r.front key value).entries = _ from hcontents.symm.trans hd, List.drop_left]
    refine ⟨_, c', hloop, hc'.valid, hkept, hc'.maxBytes.trans hbytes, hc'.onEvicted.trans hon, ?_⟩
    rw [hreport, hon, hevicted, ← hdropped, hkept]

/-- **Adding does not end** where the limit is negative and no length is: the bytes that are left
are never fewer than none. -/
theorem Valid.add_eq_none (h : c.Valid len) (hmax : c.maxBytes < 0) (hlen : ∀ v, 0 ≤ len v)
    (key : String) (value : V) (rounds : ℕ) : c.add len rounds key value = none := by
  have hsize : ∀ l : List (String × V), 0 ≤ total (size len) l := by
    intro l
    induction l with
    | nil => exact le_refl 0
    | cons e l ih =>
      have := hlen e.2
      rw [total_cons, size]
      omega
  obtain ⟨hput, -, hbytes, -, -⟩ := h.put key value
  refine loop_eq_none (I := fun s => s.Valid len ∧ s.maxBytes = c.maxBytes) ?_ ⟨hput, hbytes⟩ rounds
  rintro s ⟨hvalid, hs⟩
  have := hsize s.contents
  refine ⟨full_iff.mpr ⟨by omega, by rw [hvalid.nbytes]; omega⟩, ?_⟩
  rcases hvalid.removeOldest with ⟨-, heq⟩ | ⟨-, -, -, hvalid', -, hbytes', -, -⟩
  · rw [heq]
    exact ⟨hvalid, hs⟩
  · exact ⟨hvalid', hbytes'.trans hs⟩

/-! ### Runs -/

/-- The operations of the cache. -/
inductive Op (V : Type) where
  | add (key : String) (value : V)
  | get (key : String)
  | remove (key : String)
  | removeOldest

/-- What an operation returns. -/
inductive Result (V : Type) where
  | done
  | got (value : Option V)
  | removed (ok : Bool)
  deriving DecidableEq, Repr

/-- One operation; an addition has so many rounds to evict. -/
def step (len : V → ℤ) (rounds : ℕ) (c : LruCache V) : Op V → Option (Result V × LruCache V)
  | .add key value => (c.add len rounds key value).map fun c' => (.done, c')
  | .get key => some (.got (c.get key).1, (c.get key).2)
  | .remove key => some (.removed (c.remove len key).1, (c.remove len key).2)
  | .removeOldest => some (.done, c.removeOldest len)

/-- Operations one after the other: what they return, and the cache after them. -/
def exec (len : V → ℤ) (rounds : ℕ) : LruCache V → List (Op V) →
    Option (List (Result V) × LruCache V)
  | c, [] => some ([], c)
  | c, op :: ops =>
    (c.step len rounds op).bind fun r =>
      (exec len rounds r.2 ops).map fun rs => (r.1 :: rs.1, rs.2)

/-- What the cache is for: a recency list that is cut to a limit, and the entries that have been
reported as evicted. -/
structure Reference (V : Type) where
  list : Recency String V := {}
  reports : List (String × V) := []

namespace Reference

variable (len : V → ℤ) (limit : ℤ)

def step (m : Reference V) : Op V → Result V × Reference V
  | .add key value =>
    let r := m.list.add (size len) limit key value
    (.done, ⟨r.1, m.reports ++ r.2⟩)
  | .get key => (.got (m.list.get key).1, { m with list := (m.list.get key).2 })
  | .remove key =>
    match m.list.lookup key with
    | none => (.removed false, m)
    | some value => (.removed true, ⟨m.list.remove key, m.reports ++ [(key, value)]⟩)
  | .removeOldest => (.done, ⟨m.list.removeOldest.1, m.reports ++ m.list.removeOldest.2⟩)

def exec : Reference V → List (Op V) → List (Result V) × Reference V
  | m, [] => ([], m)
  | m, op :: ops =>
    let r := m.step len limit op
    let rs := exec r.2 ops
    (r.1 :: rs.1, rs.2)

theorem exec_concat (m : Reference V) (ops : List (Op V)) (op : Op V) :
    (m.exec len limit (ops ++ [op])).2 = ((m.exec len limit ops).2.step len limit op).2 := by
  induction ops generalizing m with
  | nil => rfl
  | cons o ops ih => exact ih _

end Reference

/-- The cache is in step, and holds and has reported what the reference has. -/
structure Refines (len : V → ℤ) (c : LruCache V) (m : Reference V) : Prop where
  valid : c.Valid len
  contents : c.contents = m.list.entries
  evicted : c.evicted = if c.onEvicted then m.reports else []

/-- What is reported on both sides, if there is a function to call. -/
theorem Refines.evicted_append {m : Reference V} (h : Refines len c m) (d : List (String × V)) :
    (if c.onEvicted then c.evicted ++ d else c.evicted) =
      if c.onEvicted then m.reports ++ d else [] := by
  rw [h.evicted]
  split <;> rfl

/-- **Looking up** is looking up in the recency list. -/
theorem Refines.get {m : Reference V} (h : Refines len c m) (key : String) :
    (c.get key).1 = (m.list.get key).1 ∧
      Refines len (c.get key).2 { m with list := (m.list.get key).2 } := by
  have hlookup := h.valid.lookup_contents key
  rw [h.contents] at hlookup
  rw [LruCache.get, Recency.get, Recency.lookup, hlookup]
  rcases hcache : c.cache key with _ | ele
  · exact ⟨rfl, h⟩
  · obtain ⟨hele, v, hread⟩ := (h.valid.mapped key ele).mp hcache
    simp only [Option.bind_some, hread, Option.map_some, elements_of_read hread]
    refine ⟨trivial, h.valid.moveToFront hele, ?_, h.evicted⟩
    rw [h.valid.contents_moveToFront hele hread, h.contents]
    rfl

/-- **Removing** is removing from the recency list, and reporting it. -/
theorem Refines.remove {m : Reference V} (h : Refines len c m) (limit : ℤ) (key : String) :
    (.removed (c.remove len key).1 : Result V) = (m.step len limit (.remove key)).1 ∧
      Refines len (c.remove len key).2 (m.step len limit (.remove key)).2 := by
  have hlookup := h.valid.lookup_contents key
  rw [h.contents] at hlookup
  rw [LruCache.remove, Reference.step, Recency.lookup, hlookup]
  rcases hcache : c.cache key with _ | ele
  · exact ⟨rfl, h⟩
  · obtain ⟨hele, v, hread⟩ := (h.valid.mapped key ele).mp hcache
    simp only [Option.bind_some, hread, Option.map_some, elements_of_read hread]
    refine ⟨trivial, h.valid.discard hele hread, ?_, ?_⟩
    · rw [h.valid.contents_discard hele hread, h.contents]
      rfl
    · exact h.evicted_append [(key, v)]

theorem Refines.removeOldest {m : Reference V} (h : Refines len c m) (limit : ℤ) :
    Refines len (c.removeOldest len) (m.step len limit .removeOldest).2 := by
  rcases h.valid.removeOldest with ⟨hnil, heq⟩ | ⟨l, e, hc, hvalid, hl, -, hon, hevicted⟩
  · have hentries := h.contents.symm.trans hnil
    refine ⟨heq.symm ▸ h.valid, ?_, ?_⟩
    · rw [heq, hnil]
      simp [Reference.step, Recency.removeOldest, hentries]
    · rw [heq, h.evicted]
      simp [Reference.step, Recency.removeOldest, hentries]
  · have hentries := h.contents.symm.trans hc
    refine ⟨hvalid, ?_, ?_⟩
    · rw [hl]
      simp [Reference.step, Recency.removeOldest, hentries]
    · rw [hevicted, hon, h.evicted_append]
      simp [Reference.step, Recency.removeOldest, hentries]

/-- **One operation** ends and does what the reference does. -/
theorem Refines.step {m : Reference V} (h : Refines len c m) (hmax : 0 ≤ c.maxBytes) (op : Op V) :
    ∃ rounds c', c.step len rounds op = some ((m.step len c.maxBytes op).1, c') ∧
      Refines len c' (m.step len c.maxBytes op).2 ∧ c'.maxBytes = c.maxBytes ∧
      c'.onEvicted = c.onEvicted := by
  cases op with
  | add key value =>
    obtain ⟨rounds, c', hadd, hvalid, hc, hbytes, hon, hevicted⟩ :=
      h.valid.add hmax m.list h.contents key value
    refine ⟨rounds, c', by rw [LruCache.step, hadd]; rfl, ⟨hvalid, hc, ?_⟩, hbytes, hon⟩
    rw [hevicted, hon, h.evicted_append]
    rfl
  | get key =>
    obtain ⟨hresult, hrefines⟩ := h.get key
    refine ⟨0, _, by rw [LruCache.step, hresult]; rfl, hrefines, ?_⟩
    rw [LruCache.get]
    split <;> exact ⟨rfl, rfl⟩
  | remove key =>
    obtain ⟨hresult, hrefines⟩ := h.remove c.maxBytes key
    refine ⟨0, _, by rw [LruCache.step, hresult], hrefines, ?_⟩
    rw [LruCache.remove]
    split
    · exact ⟨rfl, rfl⟩
    · split <;> exact ⟨rfl, rfl⟩
  | removeOldest =>
    refine ⟨0, _, rfl, h.removeOldest c.maxBytes, ?_⟩
    rcases h.valid.removeOldest with ⟨-, heq⟩ | ⟨-, -, -, -, -, hbytes, hon, -⟩
    · rw [heq]
      exact ⟨rfl, rfl⟩
    · exact ⟨hbytes, hon⟩

/-- More rounds make no difference to an operation that has ended, -/
theorem step_mono {rounds rounds' : ℕ} {op : Op V} {r : Result V × LruCache V}
    (h : c.step len rounds op = some r) (hle : rounds ≤ rounds') :
    c.step len rounds' op = some r := by
  cases op with
  | add key value =>
    obtain ⟨c', hc', rfl⟩ := Option.map_eq_some_iff.mp h
    rw [LruCache.step, LruCache.add, loop_mono hc' hle]
    rfl
  | get | remove | removeOldest => exact h

/-- and so with operations one after the other. -/
theorem exec_mono {rounds rounds' : ℕ} {ops : List (Op V)} {r : List (Result V) × LruCache V}
    (h : c.exec len rounds ops = some r) (hle : rounds ≤ rounds') :
    c.exec len rounds' ops = some r := by
  induction ops generalizing c r with
  | nil => exact h
  | cons op ops ih =>
    obtain ⟨r₁, hstep, hmap⟩ := Option.bind_eq_some_iff.mp h
    obtain ⟨rs, hrest, rfl⟩ := Option.map_eq_some_iff.mp hmap
    rw [exec, step_mono hstep hle, Option.bind_some, ih hrest]
    rfl

/-- **A run** ends and does what the reference does. -/
theorem Refines.exec {m : Reference V} (h : Refines len c m) (hmax : 0 ≤ c.maxBytes)
    (ops : List (Op V)) :
    ∃ rounds c', c.exec len rounds ops = some ((m.exec len c.maxBytes ops).1, c') ∧
      Refines len c' (m.exec len c.maxBytes ops).2 ∧ c'.maxBytes = c.maxBytes ∧
      c'.onEvicted = c.onEvicted := by
  induction ops generalizing c m with
  | nil => exact ⟨0, c, rfl, h, rfl, rfl⟩
  | cons op ops ih =>
    obtain ⟨n₁, c₁, hstep, h₁, hbytes, hon⟩ := h.step hmax op
    obtain ⟨n₂, c₂, hrest, h₂, hbytes₂, hon₂⟩ := ih h₁ (hbytes ▸ hmax)
    rw [hbytes] at hrest h₂ hbytes₂
    refine ⟨max n₁ n₂, c₂, ?_, h₂, hbytes₂, hon₂.trans hon⟩
    rw [LruCache.exec, step_mono hstep (le_max_left ..), Option.bind_some,
      exec_mono hrest (le_max_right ..)]
    rfl

theorem refines_new (len : V → ℤ) (maxBytes : ℤ) (onEvicted : Bool) :
    Refines len (new maxBytes onEvicted : LruCache V) {} :=
  ⟨valid_new maxBytes onEvicted, rfl, (ite_self []).symm⟩

/-- The cache after a run is in step. -/
theorem valid_of_exec {maxBytes : ℤ} (hmax : 0 ≤ maxBytes) {onEvicted : Bool} {rounds : ℕ}
    {ops : List (Op V)} {results : List (Result V)}
    (h : (new maxBytes onEvicted).exec len rounds ops = some (results, c)) :
    c.Valid len ∧ c.maxBytes = maxBytes := by
  obtain ⟨n, c', hexec, href, hbytes, -⟩ := (refines_new len maxBytes onEvicted).exec hmax ops
  have heq := (exec_mono h (le_max_left rounds n)).symm.trans
    (exec_mono hexec (le_max_right rounds n))
  obtain rfl := congrArg Prod.snd (Option.some.inj heq)
  exact ⟨href.valid, hbytes⟩

end LruCache

open LruCache

/-- **The cache refines a recency list.** Whatever is done to a new cache whose limit is not
negative, all operations end; what they return, what is held then and what has been reported
are those of the reference. -/
theorem lru_refines_recency (len : V → ℤ) (maxBytes : ℤ) (hmax : 0 ≤ maxBytes) (onEvicted : Bool)
    (ops : List (Op V)) :
    ∃ rounds c, (new maxBytes onEvicted).exec len rounds ops =
        some ((Reference.exec len maxBytes {} ops).1, c) ∧
      c.contents = (Reference.exec len maxBytes {} ops).2.list.entries ∧
      c.len = (Reference.exec len maxBytes {} ops).2.list.entries.length ∧
      c.evicted = if onEvicted then (Reference.exec len maxBytes {} ops).2.reports else [] := by
  obtain ⟨rounds, c, hexec, href, -, hon⟩ := (refines_new len maxBytes onEvicted).exec hmax ops
  refine ⟨rounds, c, hexec, href.contents, ?_, ?_⟩
  · rw [LruCache.len, ← href.valid.length_contents, href.contents]
    rfl
  · rw [href.evicted, hon]
    rfl

/-- The run of the repository's test: two entries have to go, the oldest first. -/
theorem lru_refines_recency_onEvicted :
    ∃ rounds c, (new 10 true).exec (fun v => v.utf8ByteSize) rounds
        [.add "key1" "123456", .add "k2" "k2", .add "k3" "k3", .add "k4" "k4", .get "k3", .get "k2",
          .remove "k4"] =
        some ([.done, .done, .done, .done, .got (some "k3"), .got none, .removed true], c) ∧
      c.contents = [("k3", "k3")] ∧
      c.evicted = [("key1", "123456"), ("k2", "k2"), ("k4", "k4")] := by
  obtain ⟨rounds, c, hexec, hcontents, -, hevicted⟩ :=
    lru_refines_recency (fun v : String => v.utf8ByteSize) 10 (by decide) true
      [.add "key1" "123456", .add "k2" "k2", .add "k3" "k3", .add "k4" "k4", .get "k3", .get "k2",
        .remove "k4"]
  exact ⟨rounds, c, hexec, hcontents, hevicted⟩

/-- **The accounting is exact.** Whatever is done to a new cache whose limit is not negative, its
counter is the sum of the bytes it holds, its map has exactly the keys of its list, each with its
own element, and after an addition a limit is kept. -/
theorem lru_accounting (len : V → ℤ) (maxBytes : ℤ) (hmax : 0 ≤ maxBytes) (onEvicted : Bool)
    (ops : List (Op V)) :
    ∃ rounds results c, (new maxBytes onEvicted).exec len rounds ops = some (results, c) ∧
      c.nbytes = (c.contents.map fun e => (e.1.utf8ByteSize + len e.2 : ℤ)).sum ∧
      (∀ key ele, c.cache key = some ele ↔ ele ∈ c.ll ∧ ∃ v, c.elements ele = some ⟨key, v⟩) ∧
      (∀ ele ∈ c.ll, ∃ kv, c.elements ele = some kv ∧ c.cache kv.key = some ele) ∧
      ∀ before key v, ops = before ++ [.add key v] → 0 < maxBytes → c.nbytes ≤ maxBytes := by
  obtain ⟨rounds, c, hexec, href, -⟩ := (refines_new len maxBytes onEvicted).exec hmax ops
  refine ⟨rounds, _, c, hexec, href.valid.nbytes, fun key ele => ?_, fun ele hele => ?_, ?_⟩
  · rw [href.valid.mapped]
    refine and_congr_right fun _ => exists_congr fun v => ⟨elements_of_read, fun h => ?_⟩
    rw [LruCache.read, h]
    rfl
  · obtain ⟨⟨key, v⟩, hread⟩ := Option.isSome_iff_exists.mp (href.valid.made ele hele).2
    exact ⟨⟨key, v⟩, elements_of_read hread, href.valid.cache_eq hele hread⟩
  · rintro before key v rfl hpos
    rw [href.valid.nbytes, href.contents]
    show total _ (Reference.exec len maxBytes {} (before ++ [.add key v])).2.list.entries ≤ maxBytes
    rw [Reference.exec_concat]
    exact Recency.total_add_le _ hpos key v

/-- A value that grows makes the older entry go, and one that is larger than the whole cache goes
itself. -/
theorem lru_accounting_grown :
    ∃ rounds results c, (new 10 false).exec (fun v => v.utf8ByteSize) rounds
        [.add "a" "1", .add "b" "2", .add "b" "123456789", .add "c" "1234567890"] =
        some (results, c) ∧ c.nbytes ≤ 10 := by
  obtain ⟨rounds, results, c, hexec, -, -, -, hle⟩ :=
    lru_accounting (fun v : String => v.utf8ByteSize) 10 (by decide) false
      [.add "a" "1", .add "b" "2", .add "b" "123456789", .add "c" "1234567890"]
  exact ⟨rounds, results, c, hexec, hle [.add "a" "1", .add "b" "2", .add "b" "123456789"] "c"
    "1234567890" rfl (by decide)⟩

end Cache

end ClusterManager
