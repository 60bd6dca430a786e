import ClusterManager.Cache.Membership
import ClusterManager.Lib.Search

/-!
# The walk around the ring

What `GetN` gives, said without the walk. The points are in order and each has an owner, however
the nodes have come and gone. The nodes of a key are distinct; there are as many as asked for, or
all that own a point; and they stand in the order of their first points from the hash of the key
on, around the ring (`Ring.getN_walks`).

The model of `Ring` takes the search for the first point and the walk with its indices modulo the
number of points for what they come to, the first index and a rotation of the list.
`Ring.search_eq` and `Ring.pointsFrom_eq` say that they do.
-/

namespace ClusterManager

namespace Ring

variable {m : Ring} {h : ℕ}

/-! ### The search and the indices -/

/-- The binary search finds the first point at or after the hash of the key. -/
theorem search_eq (m : Ring) (key : String) :
    sortSearch m.keys.length (fun i => m.hash key ≤ m.keys.getD i 0) = m.search key :=
  sortSearch_eq_findIdx m.sorted (m.hash key) 0

/-- The points met at the indices from there on, modulo their number. -/
theorem pointsFrom_eq (m : Ring) (key : String) :
    (List.range m.keys.length).map (fun i => m.keys.getD ((m.search key + i) % m.keys.length) 0) =
      m.pointsFrom key := by
  refine List.ext_getElem (by simp [pointsFrom]) fun i hi hi' => ?_
  rw [List.length_map, List.length_range] at hi
  have hlt : (m.search key + i) % m.keys.length < m.keys.length := Nat.mod_lt _ (by omega)
  simp only [List.getElem_map, List.getElem_range, pointsFrom, List.getElem_rotate]
  rw [List.getD_eq_getElem _ _ hlt]
  simp only [Nat.add_comm]

/-! ### Owners -/

/-- Every point has an owner. -/
def Owned (m : Ring) : Prop := ∀ h ∈ m.keys, (m.hashMap h).isSome

theorem owned_new (replicas : ℕ) (hash : String → ℕ) : (new replicas hash).Owned := nofun

/-- Adding nodes never leaves a point without an owner, -/
theorem Owned.add (hm : m.Owned) (addrs : List String) : (m.add addrs).Owned := by
  intro h hh
  refine hashMap_add_of (P := fun owner => owner.isSome) (fun _ _ _ => rfl) ?_
  have hmem : h ∈ (m.add addrs).points := List.mem_toFinset.mpr hh
  exact (mem_points_add.mp hmem).imp_left fun hp => hm h (List.mem_toFinset.mp hp)

/-- and removing one takes its points with it. -/
theorem Owned.remove (hm : m.Owned) (addr : String) : (m.remove addr).Owned := by
  intro h hh
  obtain ⟨hmem, hne⟩ := List.mem_filter.mp hh
  rw [hashMap_remove (of_decide_eq_true hne)]
  exact hm h hmem

theorem owned_after (replicas : ℕ) (hash : String → ℕ) (cs : List RingChange) :
    (after replicas hash cs).Owned := by
  suffices hall : ∀ m : Ring, m.Owned → (cs.foldl change m).Owned from
    hall _ (owned_new replicas hash)
  induction cs with
  | nil => exact fun m hm => hm
  | cons c cs ih =>
    refine fun m hm => ih _ ?_
    cases c with
    | add addrs => exact hm.add addrs
    | remove addr => exact hm.remove addr

/-- The nodes that own a point. -/
def owners (m : Ring) : Finset String := m.points.image m.owner

/-- From the hash of a key on, a point of `a` is met before all points of `b`. -/
def MetBefore (m : Ring) (key a b : String) : Prop :=
  ∃ p ∈ m.keys, m.owner p = a ∧ ∀ q ∈ m.keys, m.owner q = b → Ahead (m.hash key) p q

/-- The owners in the order in which they are met. -/
theorem ownersFrom_metBefore (m : Ring) (key : String) :
    (ownersFrom m.points m.owner (m.hash key)).Pairwise (m.MetBefore key) := by
  refine (ownersFrom_pairwise m.owner).imp ?_
  rintro a b ⟨p, hp, ha, hall⟩
  exact ⟨p, List.mem_toFinset.mp hp, ha, fun q hq => hall q (List.mem_toFinset.mpr hq)⟩

/-- What `GetN` gives for a key and a number. -/
structure Walks (m : Ring) (key : String) (n : ℕ) : Prop where
  /-- The points are in order, and each has an owner. -/
  sorted : m.keys.Pairwise (· ≤ ·)
  owned : ∀ h ∈ m.keys, ∃ addr, m.hashMap h = some addr
  /-- The nodes are distinct, as many as asked for or as there are. -/
  nodup : (m.getN key n).Nodup
  length : (m.getN key n).length = min n m.owners.card
  owns : ∀ a ∈ m.getN key n, m.Owns a
  /-- They are in the order of their first points, and those that are left out come later. -/
  ordered : (m.getN key n).Pairwise (m.MetBefore key)
  leftOut : ∀ a ∈ m.getN key n, ∀ b, m.Owns b → b ∉ m.getN key n → m.MetBefore key a b
  /-- The first is the owner of the key. -/
  first : m.keys ≠ [] → 1 ≤ n → (m.getN key n).head? = some (m.get key)

theorem Owned.walks (hm : m.Owned) (key : String) (n : ℕ) : m.Walks key n where
  sorted := m.sorted
  owned h hh := Option.isSome_iff_exists.mp (hm h hh)
  nodup := getN_nodup
  length := by
    rw [getN_eq, List.length_take, length_ownersFrom]
    rfl
  owns a ha := owns_of_mem_getN ha
  ordered := by
    rw [getN_eq]
    exact (m.ownersFrom_metBefore key).sublist (List.take_sublist _ _)
  leftOut a ha b hb hnot := by
    -- the list of all owners is the nodes of the key and the others after them
    have hpair := m.ownersFrom_metBefore key
    rw [← List.take_append_drop n (ownersFrom m.points m.owner (m.hash key)), ← getN_eq,
      List.pairwise_append] at hpair
    have hall : b ∈ ownersFrom m.points m.owner (m.hash key) := by
      rw [mem_ownersFrom]
      obtain ⟨p, hp, rfl⟩ := hb
      exact ⟨p, List.mem_toFinset.mpr hp, rfl⟩
    rw [← List.take_append_drop n (ownersFrom m.points m.owner (m.hash key)), ← getN_eq,
      List.mem_append] at hall
    exact hpair.2.2 a ha b (hall.resolve_left hnot)
  first hne hn := by
    obtain ⟨k, rfl⟩ : ∃ k, n = k + 1 := ⟨n - 1, by omega⟩
    obtain ⟨p, hp⟩ := List.exists_mem_of_ne_nil _ hne
    rw [get_eq_head m key k]
    rcases hl : m.getN key (k + 1) with _ | ⟨a, l⟩
    · have hmem := mem_getN_of_length_lt (by rw [hl]; exact Nat.succ_pos k) ⟨p, hp, rfl⟩
      rw [hl] at hmem
      cases hmem
    · rfl

/-- **The walk around the ring.** On every ring that comes of adding and removing nodes, with any
hash function and any number of points for each, `GetN` gives for every key and every number what
it is to give. -/
theorem getN_walks (replicas : ℤ) (hash : String → ℕ) (cs : List RingChange) (key : String)
    (n : ℕ) : (after replicas.toNat hash cs).Walks key n :=
  (owned_after replicas.toNat hash cs).walks key n

end Ring

end ClusterManager
