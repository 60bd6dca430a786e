import ClusterManager.Cache.ConsistentHash

/-!
# Nodes that join and leave

Each node of the cache keeps a ring of its own, and changes it as it hears of nodes that join
and leave. Two questions are asked of the ring then.

*Is the ring a matter of who is a member?* Nodes hear of the changes in different orders, and
of some of them twice. The points of a node depend on its address only, so that the set of the
points is that of the points of the members – provided that no two nodes have a point in
common. Where they have, the point is the one's that came later, and goes when that one
leaves. The labels that are hashed are a number and an address written one after the other, so
that there are addresses that have a point in common whatever the hash function is: the
twentieth point of `2.168.0.1` is the second one of `92.168.0.1`. `lookups_agree_iff` says that
points in common are the only thing that can go wrong, and that they always do.

*How much changes when one node joins or leaves?* Here nothing goes wrong, points in common or
not (`Ring.minimal_disruption`): a key goes to the node that joins or stays where it is, and
when a node leaves, the nodes of a key are the others in the same order.
-/

namespace ClusterManager

/-- A change of the ring. -/
inductive RingChange where
  | add (addrs : List String)
  | remove (addr : String)

namespace RingChange

/-- The nodes a change is about. -/
def addrs : RingChange → List String
  | .add addrs => addrs
  | .remove addr => [addr]

/-- The members after a change. -/
def members (S : Finset String) : RingChange → Finset String
  | .add addrs => S ∪ addrs.toFinset
  | .remove addr => S.erase addr

/-- The members after a number of changes. -/
def membersAfter (cs : List RingChange) : Finset String := cs.foldl members ∅

/-- All changes are about nodes of `A`. -/
def Over (A : Set String) (cs : List RingChange) : Prop := ∀ c ∈ cs, ∀ addr ∈ c.addrs, addr ∈ A

end RingChange

namespace Ring

def change (m : Ring) : RingChange → Ring
  | .add addrs => m.add addrs
  | .remove addr => m.remove addr

/-- The ring after a number of changes. -/
def after (replicas : ℕ) (hash : String → ℕ) (cs : List RingChange) : Ring :=
  cs.foldl change (new replicas hash)

/-- No two nodes of `A` have a point in common. -/
def Apart (replicas : ℕ) (hash : String → ℕ) (A : Set String) : Prop :=
  ∀ a ∈ A, ∀ b ∈ A, ∀ h ∈ (new replicas hash).pointsOf a, h ∈ (new replicas hash).pointsOf b → a = b

/-- The same nodes for every key. -/
def SameLookups (m m' : Ring) : Prop :=
  ∀ key, m.get key = m'.get key ∧ ∀ n, m.getN? key n = m'.getN? key n

/-! ### What a change does -/

variable {m : Ring} {h : ℕ}

theorem mem_points_add {addrs : List String} :
    h ∈ (m.add addrs).points ↔ h ∈ m.points ∨ ∃ a ∈ addrs, h ∈ m.pointsOf a := by
  simp [points, add]

theorem foldl_update {l : List ℕ} {v : Option String} {hm : ℕ → Option String} :
    l.foldl (fun hm h => Function.update hm h v) hm h = if h ∈ l then v else hm h := by
  induction l generalizing hm with
  | nil => simp
  | cons a l ih =>
    rw [List.foldl_cons, ih]
    by_cases hl : h ∈ l
    · simp [hl]
    · by_cases ha : h = a
      · subst ha
        simp
      · simp [hl, ha]

/-- After nodes have joined a point has the owner it had, or one of those that hash to it: what
holds of each of these holds of its owner. -/
theorem hashMap_add_of {addrs : List String} {P : Option String → Prop}
    (hall : ∀ a ∈ addrs, h ∈ m.pointsOf a → P (some a))
    (hsome : P (m.hashMap h) ∨ ∃ a ∈ addrs, h ∈ m.pointsOf a) : P ((m.add addrs).hashMap h) := by
  show P (addrs.foldl _ m.hashMap h)
  generalize m.hashMap = hm at hsome
  induction addrs generalizing hm with
  | nil =>
    rcases hsome with hm | ⟨a, ha, -⟩
    · exact hm
    · cases ha
  | cons b addrs ih =>
    rw [List.foldl_cons]
    refine ih (fun a ha => hall a (List.mem_cons_of_mem _ ha)) _ ?_
    rw [foldl_update]
    by_cases hb : h ∈ m.pointsOf b
    · rw [if_pos hb]
      exact Or.inl (hall b List.mem_cons_self hb)
    · rw [if_neg hb]
      refine hsome.imp_right ?_
      rintro ⟨a, ha, hmem⟩
      rcases List.mem_cons.mp ha with rfl | ha
      · exact absurd hmem hb
      · exact ⟨a, ha, hmem⟩

theorem owner_add (b : String) :
    (m.add [b]).owner h = if h ∈ m.pointsOf b then b else m.owner h := by
  rw [owner, owner]
  by_cases hb : h ∈ m.pointsOf b
  · rw [if_pos hb, hashMap_add_of (P := (· = some b)) (by simp) (Or.inr ⟨b, by simp, hb⟩)]
    rfl
  · rw [if_neg hb, hashMap_add_of (P := (· = m.hashMap h)) (by simp [hb]) (Or.inl rfl)]

theorem points_remove (b : String) :
    (m.remove b).points = m.points.filter fun h => m.owner h ≠ b := by
  ext h
  simp [points, remove]

/-- Another node's point keeps its owner when a node leaves. -/
theorem hashMap_remove {b : String} (hne : m.owner h ≠ b) :
    (m.remove b).hashMap h = m.hashMap h := by
  refine if_neg fun hb => hne ?_
  rw [owner, hb]
  rfl

theorem owner_remove {b : String} (hne : m.owner h ≠ b) : (m.remove b).owner h = m.owner h := by
  rw [owner, owner, hashMap_remove hne]

/-! ### The ring and the members -/

/-- The points are those of the members, and each is its member's. -/
structure Tidy (m : Ring) (S : Finset String) : Prop where
  mem_points : ∀ h, h ∈ m.points ↔ ∃ a ∈ S, h ∈ m.pointsOf a
  hashMap_eq : ∀ a ∈ S, ∀ h ∈ m.pointsOf a, m.hashMap h = some a

theorem Tidy.owner_eq {S : Finset String} (hm : m.Tidy S) {a : String} (ha : a ∈ S)
    (hh : h ∈ m.pointsOf a) : m.owner h = a := by
  rw [owner, hm.hashMap_eq a ha h hh]
  rfl

theorem tidy_new (replicas : ℕ) (hash : String → ℕ) : (new replicas hash).Tidy ∅ where
  mem_points h := by simp [new, points]
  hashMap_eq a ha := by simp at ha

theorem Tidy.add {S : Finset String} (hm : m.Tidy S) {addrs : List String}
    (hapart : ∀ a ∈ S ∪ addrs.toFinset, ∀ b ∈ S ∪ addrs.toFinset, ∀ h ∈ m.pointsOf a,
      h ∈ m.pointsOf b → a = b) : (m.add addrs).Tidy (S ∪ addrs.toFinset) where
  mem_points h := by
    rw [mem_points_add, hm.mem_points]
    show _ ↔ ∃ a ∈ S ∪ addrs.toFinset, h ∈ m.pointsOf a
    simp only [Finset.mem_union, List.mem_toFinset, or_and_right, exists_or]
  hashMap_eq a ha h hh := by
    refine hashMap_add_of (P := (· = _)) (fun b hb hmem => ?_) ?_
    · exact congrArg some (hapart b (by simp [hb]) a ha h hmem hh)
    · rcases Finset.mem_union.mp ha with ha | ha
      · exact Or.inl (hm.hashMap_eq a ha h hh)
      · exact Or.inr ⟨a, List.mem_toFinset.mp ha, hh⟩

theorem Tidy.remove {S : Finset String} (hm : m.Tidy S) (b : String) :
    (m.remove b).Tidy (S.erase b) where
  mem_points h := by
    rw [points_remove, Finset.mem_filter, hm.mem_points]
    constructor
    · rintro ⟨⟨a, ha, hh⟩, hne⟩
      rw [hm.owner_eq ha hh] at hne
      exact ⟨a, Finset.mem_erase.mpr ⟨hne, ha⟩, hh⟩
    · rintro ⟨a, ha, hh⟩
      obtain ⟨hne, ha⟩ := Finset.mem_erase.mp ha
      exact ⟨⟨a, ha, hh⟩, by rwa [hm.owner_eq ha hh]⟩
  hashMap_eq a ha h hh := by
    obtain ⟨hne, ha⟩ := Finset.mem_erase.mp ha
    rw [hashMap_remove (by rwa [hm.owner_eq ha hh]), hm.hashMap_eq a ha h hh]

theorem pointsOf_change (c : RingChange) : (m.change c).pointsOf = m.pointsOf := by
  rcases c with addrs | addr <;> rfl

theorem hash_change (c : RingChange) : (m.change c).hash = m.hash := by
  rcases c with addrs | addr <;> rfl

/-- Nodes that are apart keep the ring tidy, whatever comes when. -/
theorem Tidy.changes {S : Finset String} (hm : m.Tidy S) {A : Set String}
    (hapart : ∀ a ∈ A, ∀ b ∈ A, ∀ h ∈ m.pointsOf a, h ∈ m.pointsOf b → a = b) (hS : ∀ a ∈ S, a ∈ A)
    {cs : List RingChange} (hcs : RingChange.Over A cs) :
    (cs.foldl change m).Tidy (cs.foldl RingChange.members S) := by
  induction cs generalizing m S with
  | nil => exact hm
  | cons c cs ih =>
    have hc := hcs c List.mem_cons_self
    have hcs' : RingChange.Over A cs := fun c' hc' => hcs c' (List.mem_cons_of_mem _ hc')
    have hapart' := hapart
    rw [← pointsOf_change c] at hapart'
    rcases c with addrs | addr
    · have hS' : ∀ a ∈ S ∪ addrs.toFinset, a ∈ A := by
        intro a ha
        rcases Finset.mem_union.mp ha with ha | ha
        · exact hS a ha
        · exact hc a (List.mem_toFinset.mp ha)
      refine ih (hm.add fun a ha b hb => ?_) hapart' hS' hcs'
      exact hapart a (hS' a ha) b (hS' b hb)
    · exact ih (hm.remove addr) hapart' (fun a ha => hS a (Finset.mem_of_mem_erase ha)) hcs'

theorem hash_changes (cs : List RingChange) : (cs.foldl change m).hash = m.hash := by
  induction cs generalizing m with
  | nil => rfl
  | cons c cs ih => rw [List.foldl_cons, ih, hash_change]

theorem pointsOf_changes (cs : List RingChange) :
    (cs.foldl change m).pointsOf = m.pointsOf := by
  induction cs generalizing m with
  | nil => rfl
  | cons c cs ih => rw [List.foldl_cons, ih, pointsOf_change]

/-- Tidy rings with the same members give the same nodes. -/
theorem Tidy.sameLookups {m' : Ring} {S : Finset String} (hm : m.Tidy S) (hm' : m'.Tidy S)
    (hhash : m.hash = m'.hash) (hpoints : m.pointsOf = m'.pointsOf) : SameLookups m m' := by
  have hset : m.points = m'.points := by
    ext h
    rw [hm.mem_points, hm'.mem_points, hpoints]
  have howner : ∀ h ∈ m.points, m.owner h = m'.owner h := by
    intro h hh
    obtain ⟨a, ha, hha⟩ := (hm.mem_points h).mp hh
    rw [hm.owner_eq ha hha, hm'.owner_eq ha (by rwa [← hpoints])]
  have howners : ∀ key, ownersFrom m.points m.owner (m.hash key) =
      ownersFrom m'.points m'.owner (m'.hash key) := by
    intro key
    rw [ownersFrom_congr howner, hset, hhash]
  intro key
  refine ⟨by rw [get_eq, get_eq, howners], fun n => ?_⟩
  have hempty : m.keys = [] ↔ m'.keys = [] := by rw [keys_eq_nil, keys_eq_nil, hset]
  simp only [getN?, hempty, getN_eq, howners]

/-- A key that hashes to a point of the ring belongs to the owner of that point. -/
theorem get_of_mem {key : String} (hmem : m.hash key ∈ m.points) :
    m.get key = m.owner (m.hash key) := by
  rw [get_eq, head?_ownersFrom, head?_clockwise_of_mem hmem]
  rfl

/-- The ring of two nodes, where the second one came later: a point they have in common is
the second one's, and so is the label it is hashed from. -/
theorem get_common {replicas : ℕ} {hash : String → ℕ} {a b key : String}
    (hb : hash key ∈ (new replicas hash).pointsOf b) :
    (after replicas hash [.add [a], .add [b]]).get key = b := by
  have hmem : hash key ∈ ((((new replicas hash).add [a]).add [b]).points) :=
    mem_points_add.mpr (Or.inr ⟨b, List.mem_singleton_self b, hb⟩)
  show (((new replicas hash).add [a]).add [b]).get key = b
  rw [get_of_mem hmem, owner_add]
  exact if_pos hb

end Ring

open ClusterManager.Ring in
/-- **The ring is a matter of who is a member exactly when no two nodes have a point in
common.** -/
theorem lookups_agree_iff (replicas : ℕ) (hash : String → ℕ) (A : Set String) :
    (∀ cs cs' : List RingChange, RingChange.Over A cs → RingChange.Over A cs' →
      RingChange.membersAfter cs = RingChange.membersAfter cs' →
        SameLookups (after replicas hash cs) (after replicas hash cs')) ↔
      Apart replicas hash A := by
  constructor
  · intro hagree a ha b hb h hha hhb
    -- the label of the point is a key that hashes to it
    obtain ⟨i, -, hi⟩ := List.mem_map.mp hha
    have hover : ∀ a' ∈ A, ∀ b' ∈ A, RingChange.Over A [.add [a'], .add [b']] := by
      intro a' ha' b' hb' c hc addr haddr
      simp only [List.mem_cons, List.not_mem_nil, or_false] at hc
      rcases hc with rfl | rfl
      · rwa [List.mem_singleton.mp haddr]
      · rwa [List.mem_singleton.mp haddr]
    have hsame := (hagree _ _ (hover a ha b hb) (hover b hb a ha)
      (by simp [RingChange.membersAfter, RingChange.members, Finset.union_comm])
      (toString i ++ a)).1
    rw [← show hash (toString i ++ a) = h from hi] at hha hhb
    rw [get_common hhb, get_common hha] at hsame
    exact hsame.symm
  · intro hapart cs cs' hcs hcs' hmembers
    have htidy := (tidy_new replicas hash).changes hapart (by simp) hcs
    have htidy' := (tidy_new replicas hash).changes hapart (by simp) hcs'
    rw [show cs.foldl RingChange.members ∅ = cs'.foldl RingChange.members ∅ from hmembers] at htidy
    refine htidy.sameLookups htidy' ?_ ?_
    · exact (hash_changes cs).trans (hash_changes cs').symm
    · exact (pointsOf_changes cs).trans (pointsOf_changes cs').symm

/-- A hash function. -/
def polyHash (s : String) : ℕ := s.toList.foldl (fun h c => (31 * h + c.toNat) % 2 ^ 32) 7

/-- The twentieth point of `2.168.0.1:8001` is the second of `92.168.0.1:8001`, and belongs
to the one that was heard of later. -/
theorem not_lookups_agree :
    RingChange.membersAfter [.add ["2.168.0.1:8001"], .add ["92.168.0.1:8001"]] =
        RingChange.membersAfter [.add ["92.168.0.1:8001"], .add ["2.168.0.1:8001"]] ∧
      (Ring.after 50 polyHash [.add ["2.168.0.1:8001"], .add ["92.168.0.1:8001"]]).get
        "192.168.0.1:8001" = "92.168.0.1:8001" ∧
      (Ring.after 50 polyHash [.add ["92.168.0.1:8001"], .add ["2.168.0.1:8001"]]).get
        "192.168.0.1:8001" = "2.168.0.1:8001" := by
  -- the key is the label of both points
  refine ⟨by simp [RingChange.membersAfter, RingChange.members, Finset.union_comm],
    Ring.get_common (List.mem_map.mpr ⟨1, List.mem_range.mpr (by decide), rfl⟩),
    Ring.get_common (List.mem_map.mpr ⟨19, List.mem_range.mpr (by decide), rfl⟩)⟩

/-! ### One change -/

namespace Ring

variable {m : Ring}

theorem points_add (b : String) : (m.add [b]).points = m.points ∪ (m.pointsOf b).toFinset := by
  ext h
  rw [mem_points_add, Finset.mem_union, List.mem_toFinset]
  simp

/-- When a node joins, a key goes to it or stays where it is. -/
theorem get_add (b key : String) : (m.add [b]).get key = m.get key ∨ (m.add [b]).get key = b := by
  rw [get_eq, get_eq, head?_ownersFrom, head?_ownersFrom, points_add,
    show (m.add [b]).hash = m.hash from rfl]
  rcases hhead : (clockwise (m.points ∪ (m.pointsOf b).toFinset) (m.hash key)).head? with _ | h
  · -- there is no point, before and after
    have hnone : m.points = ∅ := by
      rw [List.head?_eq_none_iff] at hhead
      refine Finset.eq_empty_of_forall_notMem fun h hh => ?_
      have hmem := (mem_clockwise (h := m.hash key)).mpr
        (Finset.mem_union_left (m.pointsOf b).toFinset hh)
      rw [hhead] at hmem
      cases hmem
    exact Or.inl (by simp [hnone, clockwise])
  · rw [Option.map_some, Option.getD_some, owner_add]
    by_cases hb : h ∈ m.pointsOf b
    · exact Or.inr (if_pos hb)
    · have hfirst := (head?_clockwise_union hhead).resolve_left fun hmem =>
        hb (List.mem_toFinset.mp hmem)
      rw [if_neg hb, hfirst]
      exact Or.inl rfl

theorem getN_remove (b key : String) (n : ℕ) :
    (m.remove b).getN key n = ((m.getN key (n + 1)).filter (· ≠ b)).take n := by
  have howners : ownersFrom (m.remove b).points (m.remove b).owner (m.hash key) =
      ownersFrom (m.points.filter fun h => m.owner h ≠ b) m.owner (m.hash key) := by
    rw [points_remove]
    refine ownersFrom_congr fun h hh => ?_
    exact owner_remove (Finset.mem_filter.mp hh).2
  rw [getN_eq, getN_eq, ← take_ownersFrom_filter, ← howners]
  rfl

theorem get_eq_head (m : Ring) (key : String) (n : ℕ) :
    m.get key = ((m.getN key (n + 1)).head?).getD "" := by
  rw [get_eq, getN_eq]
  rcases ownersFrom m.points m.owner (m.hash key) with _ | ⟨a, l⟩ <;> rfl

/-- **What changes when a node joins or leaves**, on any ring. -/
theorem minimal_disruption (m : Ring) (b key : String) (n : ℕ) :
    ((m.add [b]).get key = m.get key ∨ (m.add [b]).get key = b) ∧
      (m.remove b).getN key n = ((m.getN key (n + 1)).filter (· ≠ b)).take n ∧
      (m.get key ≠ b → (m.remove b).get key = m.get key) ∧
      ∀ c, m.getN key 2 = [b, c] → (m.remove b).get key = c := by
  refine ⟨get_add b key, getN_remove b key n, fun hne => ?_, fun c hc => ?_⟩
  · rw [get_eq_head m key 1] at hne
    rw [get_eq_head _ key 0, getN_remove, get_eq_head m key 1]
    rcases hl : m.getN key 2 with _ | ⟨a, l⟩
    · rfl
    · rw [hl] at hne
      rw [List.filter_cons_of_pos (by simpa using hne)]
      rfl
  · have hnodup : (m.getN key 2).Nodup := getN_nodup
    rw [hc] at hnodup
    have hcb : c ≠ b := by
      rintro rfl
      simp at hnodup
    rw [get_eq_head _ key 0, getN_remove, hc, List.filter_cons_of_neg (by simp),
      List.filter_cons_of_pos (by simpa using hcb)]
    rfl

end Ring

end ClusterManager
