import Mathlib.Algebra.Order.Ring.Int
import Mathlib.Data.List.Sort
import Mathlib.Data.List.Rotate
import Mathlib.Logic.Function.Basic
import ClusterManager.Lib.Circle

/-!
# The hash ring

`Ring` is the consistent hash that spreads keys over the nodes of the cache. A node owns
the points that its address, numbered, hashes to; a key belongs to the node of the
first point at or after the hash of the key, around the ring. `Ring.getN` goes on from
there and collects the nodes it meets, each once, until it has enough of them or has
been all around.

`Ring.walk_spec` is what the walk gives: distinct owners, at most as many as asked for,
and all there are when it gives fewer. `Ring.get_eq` and `Ring.getN_eq` say what the two
lookups are for: the points are a set on a circle, and the nodes of a key are the owners in
the order in which they are first met from its hash on.
-/

namespace ClusterManager

theorem pairwise_le_nil : ([] : List ℕ).Pairwise (· ≤ ·) := List.Pairwise.nil

/-- The ring: its points in order, and the owner of each. -/
structure Ring where
  hash : String → ℕ
  replicas : ℕ
  keys : List ℕ := []
  hashMap : ℕ → Option String := fun _ => none
  /-- The points are in order. -/
  sorted : keys.Pairwise (· ≤ ·) := by first | exact pairwise_le_nil | simp

namespace Ring

/-- A ring without nodes. -/
def new (replicas : ℕ) (hash : String → ℕ) : Ring where
  hash := hash
  replicas := replicas

/-- The points a node owns. -/
def pointsOf (m : Ring) (addr : String) : List ℕ :=
  (List.range m.replicas).map fun i => m.hash (toString i ++ addr)

/-- Add nodes to the ring. A point that two nodes hash to is the later one's. -/
def add (m : Ring) (addrs : List String) : Ring :=
  { m with
    keys := (m.keys ++ addrs.flatMap m.pointsOf).insertionSort (· ≤ ·)
    hashMap := addrs.foldl
      (fun hm addr => (m.pointsOf addr).foldl (fun hm h => Function.update hm h (some addr)) hm)
      m.hashMap
    sorted := List.pairwise_insertionSort _ _ }

/-- The owner of a point. -/
def owner (m : Ring) (h : ℕ) : String := (m.hashMap h).getD ""

/-- The index of the first point at or after the hash of a key, the length of the ring
if there is none: on points in order the binary search finds the first. -/
def search (m : Ring) (key : String) : ℕ := m.keys.findIdx fun h => m.hash key ≤ h

/-- The points from a key on, around the ring. -/
def pointsFrom (m : Ring) (key : String) : List ℕ := m.keys.rotate (m.search key)

/-- The owner of a key, empty on an empty ring. -/
def get (m : Ring) (key : String) : String :=
  match m.pointsFrom key with
  | [] => ""
  | h :: _ => m.owner h

/-- The walk along points: `result` are the nodes met so far. -/
def walk (m : Ring) (n : ℕ) : List String → List ℕ → List String
  | result, [] => result
  | result, h :: points =>
    if result.length < n then
      if m.owner h ∈ result then m.walk n result points
      else m.walk n (result ++ [m.owner h]) points
    else result

/-- Up to `n` nodes for a key, from its owner on. -/
def getN (m : Ring) (key : String) (n : ℕ) : List String := m.walk n [] (m.pointsFrom key)

/-- The same for any number. On a ring that has points there is no room for a negative
number of nodes, and the call panics. -/
def getN? (m : Ring) (key : String) (n : ℤ) : Option (List String) :=
  if m.keys = [] then some [] else if n < 0 then none else some (m.getN key n.toNat)

/-- Take a node off the ring. -/
def remove (m : Ring) (addr : String) : Ring :=
  { m with
    keys := m.keys.filter fun h => m.owner h ≠ addr
    hashMap := fun h => if m.hashMap h = some addr then none else m.hashMap h
    sorted := m.sorted.filter _ }

variable {m : Ring} {n : ℕ}

/-- **What the walk gives.** -/
theorem walk_spec {result : List String} {points : List ℕ} (hnd : result.Nodup)
    (hlen : result.length ≤ n) :
    (m.walk n result points).Nodup ∧ (m.walk n result points).length ≤ n ∧
      (∀ a ∈ m.walk n result points, a ∈ result ∨ a ∈ points.map m.owner) ∧
      (∀ a ∈ result, a ∈ m.walk n result points) ∧
      ((m.walk n result points).length < n →
        ∀ a ∈ points.map m.owner, a ∈ m.walk n result points) := by
  induction points generalizing result with
  | nil => exact ⟨hnd, hlen, fun a ha => Or.inl ha, fun a ha => ha, by simp⟩
  | cons h points ih =>
    rw [walk]
    split
    · rename_i hlt
      split
      · rename_i hmem
        obtain ⟨h1, h2, h3, h4, h5⟩ := ih hnd hlen
        refine ⟨h1, h2, fun a ha => (h3 a ha).imp_right (List.mem_cons_of_mem _), h4, ?_⟩
        intro hlt' a ha
        rcases List.mem_cons.mp ha with rfl | ha
        · exact h4 _ hmem
        · exact h5 hlt' a ha
      · rename_i hmem
        have hnd' : (result ++ [m.owner h]).Nodup := by
          refine List.nodup_append.mpr ⟨hnd, List.nodup_singleton _, ?_⟩
          intro a ha b hb
          obtain rfl := List.mem_singleton.mp hb
          rintro rfl
          exact hmem ha
        obtain ⟨h1, h2, h3, h4, h5⟩ := ih hnd' (by simp; omega)
        refine ⟨h1, h2, fun a ha => ?_, fun a ha => h4 a (by simp [ha]), ?_⟩
        · rcases h3 a ha with ha | ha
          · rcases List.mem_append.mp ha with ha | ha
            · exact Or.inl ha
            · exact Or.inr (by simp [List.mem_singleton.mp ha])
          · exact Or.inr (List.mem_cons_of_mem _ ha)
        · intro hlt' a ha
          rcases List.mem_cons.mp ha with rfl | ha
          · exact h4 _ (by simp)
          · exact h5 hlt' a ha
    · rename_i hge
      exact ⟨hnd, hlen, fun a ha => Or.inl ha, fun a ha => ha, fun hlt => absurd hlt hge⟩

/-! ### The ring as a circle -/

/-- The points of the ring, as a set. -/
def points (m : Ring) : Finset ℕ := m.keys.toFinset

/-- The walk collects the owners it has not met, until it has enough. -/
theorem walk_eq {result : List String} (points : List ℕ) (hlen : result.length ≤ n) :
    m.walk n result points =
      (result ++ ((points.map m.owner).filter (· ∉ result)).eraseDups).take n := by
  induction points generalizing result with
  | nil => simp [walk, List.take_of_length_le hlen]
  | cons h points ih =>
    rw [walk]
    by_cases hlt : result.length < n
    · rw [if_pos hlt, List.map_cons]
      by_cases hmem : m.owner h ∈ result
      · rw [if_pos hmem, ih hlen, List.filter_cons_of_neg (by simpa using hmem)]
      · rw [if_neg hmem, ih (by rw [List.length_append]; exact hlt),
          List.filter_cons_of_pos (by simpa using hmem),
          List.eraseDups_cons, List.append_assoc, List.filter_filter]
        refine congrArg (fun l => (result ++ m.owner h :: l.eraseDups).take n)
          (List.filter_congr fun a _ => ?_)
        by_cases ha : a = m.owner h <;> simp [ha]
    · rw [if_neg hlt, List.take_append_of_le_length (not_lt.mp hlt),
        List.take_of_length_le hlen]

theorem eraseDups_pointsFrom (m : Ring) (key : String) :
    (m.pointsFrom key).eraseDups = clockwise m.points (m.hash key) :=
  eraseDups_rotate m.sorted (m.hash key)

/-- **The nodes of a key** are the first owners met from its hash on. -/
theorem getN_eq (m : Ring) (key : String) (n : ℕ) :
    m.getN key n = (ownersFrom m.points m.owner (m.hash key)).take n := by
  rw [getN, walk_eq _ (Nat.zero_le n), ownersFrom, ← eraseDups_pointsFrom,
    eraseDups_map_eraseDups]
  simp

/-- **The owner of a key** is the first of its nodes. -/
theorem get_eq (m : Ring) (key : String) :
    m.get key = ((ownersFrom m.points m.owner (m.hash key)).head?).getD "" := by
  rw [get, ownersFrom, ← eraseDups_pointsFrom, eraseDups_map_eraseDups]
  rcases m.pointsFrom key with _ | ⟨h, l⟩
  · rfl
  · rw [List.map_cons, List.eraseDups_cons]
    rfl

theorem keys_eq_nil : m.keys = [] ↔ m.points = ∅ := (List.toFinset_eq_empty_iff _).symm

/-- A node owns a point of the ring. -/
def Owns (m : Ring) (addr : String) : Prop := ∃ h ∈ m.keys, m.owner h = addr

variable {key : String}

theorem mem_owner_pointsFrom {addr : String} :
    addr ∈ (m.pointsFrom key).map m.owner ↔ m.Owns addr := by
  simp [pointsFrom, Owns]

theorem getN_nodup : (m.getN key n).Nodup := (walk_spec List.nodup_nil (Nat.zero_le _)).1

theorem length_getN_le : (m.getN key n).length ≤ n :=
  (walk_spec List.nodup_nil (Nat.zero_le _)).2.1

theorem owns_of_mem_getN {addr : String} (h : addr ∈ m.getN key n) : m.Owns addr := by
  rcases (walk_spec List.nodup_nil (Nat.zero_le _)).2.2.1 addr h with h | h
  · simp at h
  · exact mem_owner_pointsFrom.mp h

/-- A walk that gives fewer nodes than asked for gives all there are. -/
theorem mem_getN_of_length_lt (hlt : (m.getN key n).length < n) {addr : String}
    (h : m.Owns addr) : addr ∈ m.getN key n :=
  (walk_spec List.nodup_nil (Nat.zero_le _)).2.2.2.2 hlt addr (mem_owner_pointsFrom.mpr h)

/-- Two nodes are found exactly when two are asked for and there are two. -/
theorem one_lt_length_getN :
    1 < (m.getN key n).length ↔ 1 < n ∧ ∃ a b, m.Owns a ∧ m.Owns b ∧ a ≠ b := by
  constructor
  · intro h
    refine ⟨lt_of_lt_of_le h length_getN_le, ?_⟩
    match hl : m.getN key n with
    | [] | [_] => simp [hl] at h
    | a :: b :: rest =>
      have hnd : (m.getN key n).Nodup := getN_nodup
      rw [hl, List.nodup_cons] at hnd
      have ha : a ∈ m.getN key n := by simp [hl]
      have hb : b ∈ m.getN key n := by simp [hl]
      refine ⟨a, b, owns_of_mem_getN ha, owns_of_mem_getN hb, ?_⟩
      rintro rfl
      exact hnd.1 (by simp)
  · rintro ⟨hn, a, b, ha, hb, hab⟩
    by_contra hcon
    have hlt : (m.getN key n).length < n := by omega
    have ha' := mem_getN_of_length_lt hlt ha
    have hb' := mem_getN_of_length_lt hlt hb
    obtain ⟨c, hc⟩ := List.length_eq_one_iff.mp
      (le_antisymm (not_lt.mp hcon) (List.length_pos_of_mem ha'))
    rw [hc, List.mem_singleton] at ha' hb'
    exact hab (ha'.trans hb'.symm)

end Ring

end ClusterManager
