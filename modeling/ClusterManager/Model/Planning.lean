import Mathlib.Algebra.BigOperators.Group.Finset.Basic
import Mathlib.Algebra.Order.BigOperators.Group.Finset
import Mathlib.Data.Finset.Basic
import ClusterManager.Lib.Drain
import ClusterManager.Model.Topology

/-!
# Planning a scale-out

`collectSlotTasks` decides which slots leave the masters that own more than an even
share, and to which empty master each of them goes. It is one loop over the masters,
in it one over the ranges of a master, and in it one over the slots of a range from
the last one down; a cursor into the list of empty masters and the slot counts of
both sides are shared by all of them.

The loops are the two of `ClusterManager.Lib.Drain`. Towards the empty masters the
planner fills bins up to the share (`Tracks` says which state of the filling it is
in), and from one master it drains the blocks that are its ranges against the quota
that is its surplus (`foldl_collectFromRange_drained`). The inner loop is left when
the surplus is gone, but only the inner one, so a surplus that ends before the last
range is overrun by what the empty masters still take.
`collectSlotTasks_leavesShare_iff` is the exact condition under which that does not
happen.
-/

namespace ClusterManager

open Drain

/-! ### The planner -/

/-- What the planner mutates: the topology, the cursor into the empty masters, and
the tasks it has planned. -/
structure PlanState where
  topo : Topology
  empIdx : ℕ := 0
  tasks : List SlotTask := []

/-- The task that moves a slot of `masterNode` to the empty master `e`. -/
def buildSlotTask (mgr : BaseNodeManager) (slotNum : ℤ) (masterNode e : ClusterNode) :
    SlotTask :=
  let destRuntime := mgr.getNodeByHost e.ip
  let fromRuntime := mgr.getNodeByHost masterNode.ip
  { slot := slotNum
    fromID := masterNode.id
    fromIP := masterNode.ip
    toID := e.id
    toIP := e.ip
    destHostPort := (destRuntime.map (·.hostPort)).getD 0
    fromHostPort := (fromRuntime.map (·.hostPort)).getD 0
    containerPort := (destRuntime.map (·.conPort)).getD 0 }

/-- Plan one slot: append the task, count the slot on the empty master and off the
master, and move the cursor on if the empty master has its share. -/
def planSlot (mgr : BaseNodeManager) (masterNode e : ClusterNode) (newV slotNum : ℤ)
    (s : PlanState) : PlanState :=
  let topo := (s.topo.addEmptySlots s.empIdx 1).addNodeSlots masterNode.id (-1)
  { topo := topo
    empIdx := if (topo.emptyNode s.empIdx).map (·.slotsNum) = some newV then s.empIdx + 1
      else s.empIdx
    tasks := s.tasks ++ [buildSlotTask mgr slotNum masterNode e] }

/-- The loop over the slots of one range. It ends when the empty masters are used up,
when the master is itself the next empty one, or when the master is down to the
share. -/
def collectFromRange (mgr : BaseNodeManager) (masterNode : ClusterNode) (newV : ℤ) :
    List ℤ → PlanState → PlanState
  | [], s => s
  | slotNum :: rest, s =>
    match s.topo.emptyNode s.empIdx with
    | none => s
    | some e =>
      if masterNode.id = e.id then s
      else
        let s' := planSlot mgr masterNode e newV slotNum s
        -- this leaves the range, not the loop over the ranges
        if s'.topo.slotsNum masterNode.id = newV then s'
        else collectFromRange mgr masterNode newV rest s'

/-- The loop over the ranges of one master. -/
def collectTasksFromMaster (mgr : BaseNodeManager) (masterNode : ClusterNode) (newV : ℤ)
    (s : PlanState) : PlanState :=
  masterNode.slots.foldl (fun s r => collectFromRange mgr masterNode newV r.slotsDown s) s

/-- What the loop over the masters does with one of them. -/
def visitMaster (mgr : BaseNodeManager) (clusterName : String) (newV : ℤ) (s : PlanState)
    (masterID : String) : PlanState :=
  match s.topo.nodes masterID with
  | none => s
  | some masterNode =>
    if masterNode.slotsNum = 0 ∨ masterNode.clusterName ≠ clusterName ∨
        masterNode.slotsNum ≤ newV then s
    else collectTasksFromMaster mgr masterNode newV s

/-- The even share of a master. The callers have checked that there is a master. -/
def Topology.share (t : Topology) : ℕ := totalSlots / t.masterIDs.length

/-- The plan for a topology: the tasks, with the topology and the cursor the planner
leaves behind. -/
def collectSlotTasks (mgr : BaseNodeManager) (t : Topology) (clusterName : String) :
    PlanState :=
  t.masterIDs.foldl (visitMaster mgr clusterName t.share) { topo := t }

/-! ### The empty masters as bins -/

namespace Topology

/-- The name an entry of the empty masters goes by. -/
def emptyIDs (t : Topology) : List String :=
  t.empty.map fun r => match r with
    | .shared id => id
    | .copy n => n.id

/-- Which record each entry of the empty masters stands for: the node of a name, or
the copy at a position. -/
def emptyKeys (t : Topology) : List (String ⊕ ℕ) :=
  t.empty.mapIdx fun i r => match r with
    | .shared id => .inl id
    | .copy _ => .inr i

/-- The slot count of a record. -/
def recordSlots (t : Topology) : String ⊕ ℕ → ℤ
  | .inl id => t.slotsNum id
  | .inr i => ((t.emptyNode i).map (·.slotsNum)).getD 0

/-- **Empty masters are empty**: the record in the list and the node of its name both
count no slot. -/
def EmptyMasters (t : Topology) : Prop :=
  ∀ r ∈ t.empty, ∀ n, t.deref r = some n → n.slotsNum = 0 ∧ t.slotsNum n.id = 0

@[simp] theorem length_emptyKeys (t : Topology) : t.emptyKeys.length = t.empty.length := by
  simp [emptyKeys]

theorem emptyKeys_getElem? (t : Topology) (i : ℕ) :
    t.emptyKeys[i]? = t.empty[i]?.map fun r => match r with
      | .shared id => Sum.inl id
      | .copy _ => Sum.inr i := by
  simp [emptyKeys, List.getElem?_mapIdx]

/-- There is an empty master at every position of the list. -/
theorem emptyNode_isSome {t : Topology} {i : ℕ} :
    (t.emptyNode i).isSome ↔ i < t.empty.length := by
  rw [emptyNode]
  constructor
  · intro h
    by_contra hcon
    rw [List.getElem?_eq_none (by omega)] at h
    simp at h
  · intro h
    rw [List.getElem?_eq_getElem h, Option.bind_some]
    cases hr : t.empty[i] with
    | shared id => exact t.empty_mem id (hr ▸ List.getElem_mem h)
    | copy n => rfl

theorem id_mem_emptyIDs {t : Topology} {i : ℕ} {e : ClusterNode} (h : t.emptyNode i = some e) :
    e.id ∈ t.emptyIDs := by
  rw [emptyNode, Option.bind_eq_some_iff] at h
  obtain ⟨r, hr, he⟩ := h
  refine List.mem_map.mpr ⟨r, List.mem_of_getElem? hr, ?_⟩
  cases r with
  | shared id => exact (t.nodes_id id e he).symm
  | copy n =>
    cases he
    rfl

/-- The count of the entry at a position is the count of its record. -/
theorem emptyNode_slotsNum {t : Topology} {i : ℕ} {e : ClusterNode} {k : String ⊕ ℕ}
    (h : t.emptyNode i = some e) (hk : t.emptyKeys[i]? = some k) :
    e.slotsNum = t.recordSlots k := by
  have h' := h
  rw [emptyNode, Option.bind_eq_some_iff] at h'
  obtain ⟨r, hr, he⟩ := h'
  rw [emptyKeys_getElem?, hr] at hk
  cases r with
  | shared id =>
    obtain rfl : Sum.inl id = k := by simpa using hk
    have he' : t.nodes id = some e := he
    simp [recordSlots, slotsNum, he']
  | copy n =>
    obtain rfl : Sum.inr i = k := by simpa using hk
    simp [recordSlots, h]

/-! ### Counting a slot -/

theorem addNodeSlots_recordSlots {t : Topology} {id : String} {d : ℤ} (hid : id ∉ t.emptyIDs)
    {i : ℕ} {k : String ⊕ ℕ} (hk : t.emptyKeys[i]? = some k) :
    (t.addNodeSlots id d).recordSlots k = t.recordSlots k := by
  rw [emptyKeys_getElem?, Option.map_eq_some_iff] at hk
  obtain ⟨r, hr, rfl⟩ := hk
  have hmem := List.mem_of_getElem? hr
  cases r with
  | shared j =>
    have hne : j ≠ id := by
      rintro rfl
      exact hid (List.mem_map.mpr ⟨_, hmem, rfl⟩)
    simp only [recordSlots]
    rw [addNodeSlots_slotsNum fun h => absurd h hne, if_neg hne, add_zero]
  | copy n =>
    have he : t.emptyNode i = some n := by rw [emptyNode, hr]; rfl
    have he' : (t.addNodeSlots id d).emptyNode i = some n := by
      rw [emptyNode, addNodeSlots_empty, hr]
      rfl
    simp only [recordSlots, he, he']

section AddEmptySlots

variable (t : Topology) (i : ℕ) (d : ℤ)

@[simp] theorem addEmptySlots_masterIDs : (t.addEmptySlots i d).masterIDs = t.masterIDs := by
  rw [addEmptySlots]
  split <;> rfl

@[simp] theorem addEmptySlots_emptyIDs : (t.addEmptySlots i d).emptyIDs = t.emptyIDs := by
  rw [addEmptySlots]
  split
  · rfl
  · rfl
  · rename_i n hn
    refine List.ext_getElem? fun j => ?_
    simp only [emptyIDs, List.getElem?_map, List.getElem?_set]
    split
    · rename_i h
      subst h
      rw [if_pos (List.getElem?_eq_some_iff.mp hn).1, hn]
      rfl
    · rfl

@[simp] theorem addEmptySlots_emptyKeys : (t.addEmptySlots i d).emptyKeys = t.emptyKeys := by
  rw [addEmptySlots]
  split
  · rfl
  · rfl
  · rename_i n hn
    refine List.ext_getElem? fun j => ?_
    rw [emptyKeys_getElem?, emptyKeys_getElem?]
    simp only [List.getElem?_set]
    split
    · rename_i h
      subst h
      rw [if_pos (List.getElem?_eq_some_iff.mp hn).1, hn]
      rfl
    · rfl

/-- Counting a slot leaves everything of a node but the count. -/
theorem addEmptySlots_nodes (id : String) :
    ((t.addEmptySlots i d).nodes id).map (fun n => { n with slotsNum := 0 }) =
      (t.nodes id).map (fun n => { n with slotsNum := 0 }) := by
  rw [addEmptySlots]
  split
  · rfl
  · rw [addNodeSlots_nodes]
    cases t.nodes id with
    | none => rfl
    | some n =>
      simp only [Option.map_some]
      split <;> rfl
  · rfl

variable {t i d}

/-- Counting a slot on an empty master leaves the count of every other node. -/
theorem addEmptySlots_slotsNum {id : String} (hid : id ∉ t.emptyIDs) :
    (t.addEmptySlots i d).slotsNum id = t.slotsNum id := by
  rw [addEmptySlots]
  split
  · rfl
  · rename_i j hj
    have hne : id ≠ j := by
      rintro rfl
      exact hid (List.mem_map.mpr ⟨_, List.mem_of_getElem? hj, rfl⟩)
    rw [addNodeSlots_slotsNum fun h => absurd h hne, if_neg hne, add_zero]
  · rfl

/-- Counting a slot on an empty master counts it on its record and on no other. -/
theorem addEmptySlots_recordSlots {k : String ⊕ ℕ} (hk : t.emptyKeys[i]? = some k)
    {j : ℕ} {k' : String ⊕ ℕ} (hk' : t.emptyKeys[j]? = some k') :
    (t.addEmptySlots i d).recordSlots k' = t.recordSlots k' + if k' = k then d else 0 := by
  rw [emptyKeys_getElem?, Option.map_eq_some_iff] at hk hk'
  obtain ⟨r, hr, rfl⟩ := hk
  obtain ⟨r', hr', rfl⟩ := hk'
  cases r with
  | shared id =>
    have hadd : t.addEmptySlots i d = t.addNodeSlots id d := by rw [addEmptySlots, hr]
    have hid := t.empty_mem id (List.mem_of_getElem? hr)
    rw [hadd]
    cases r' with
    | shared id' =>
      simp only [recordSlots, Sum.inl.injEq]
      exact addNodeSlots_slotsNum fun _ => hid
    | copy n =>
      have he : t.emptyNode j = some n := by rw [emptyNode, hr']; rfl
      have he' : (t.addNodeSlots id d).emptyNode j = some n := by
        rw [emptyNode, addNodeSlots_empty, hr']
        rfl
      simp [recordSlots, he, he']
  | copy n =>
    have hlt : i < t.empty.length := (List.getElem?_eq_some_iff.mp hr).1
    have hempty : (t.addEmptySlots i d).empty =
        t.empty.set i (.copy { n with slotsNum := n.slotsNum + d }) := by
      rw [addEmptySlots]
      split <;> simp_all
    have hnodes : (t.addEmptySlots i d).nodes = t.nodes := by
      rw [addEmptySlots]
      split <;> simp_all
    cases r' with
    | shared id' => simp [recordSlots, slotsNum, hnodes]
    | copy n' =>
      have he : t.emptyNode j = some n' := by rw [emptyNode, hr']; rfl
      simp only [recordSlots, he, Sum.inr.injEq]
      rw [emptyNode, hempty, List.getElem?_set]
      rcases eq_or_ne i j with rfl | hij
      · obtain rfl : n = n' := by simpa [hr] using hr'
        simp [hlt, deref]
      · rw [if_neg hij, hr', if_neg (Ne.symm hij)]
        simp [deref]

end AddEmptySlots

end Topology

/-! ### One step of the planner -/

/-- **The planner is a filling**: after the tasks planned so far, the cursor and the
counts of the empty masters are those of a filling of the same bins by that many
units, the records are unchanged but for their counts, and a node that is no empty
master has lost the slots planned away from it. -/
structure Tracks (t : Topology) (v : ℤ) (s : PlanState) : Prop where
  keys : s.topo.emptyKeys = t.emptyKeys
  ids : s.topo.emptyIDs = t.emptyIDs
  cursor : (Bins.after t.emptyKeys v s.tasks.length).cursor = s.empIdx
  count : ∀ (i : ℕ) (k : String ⊕ ℕ), t.emptyKeys[i]? = some k →
    (Bins.after t.emptyKeys v s.tasks.length).count k = s.topo.recordSlots k
  nodes : ∀ id, (s.topo.nodes id).map (fun n => { n with slotsNum := 0 }) =
    (t.nodes id).map (fun n => { n with slotsNum := 0 })
  own : ∀ id, id ∉ t.emptyIDs →
    s.topo.slotsNum id = t.slotsNum id - (s.tasks.countP fun x => x.fromID = id : ℕ)

section Step

variable {mgr : BaseNodeManager} {t : Topology} {v : ℤ} {s : PlanState}

/-- Before the first task. -/
theorem Tracks.init (h : t.EmptyMasters) : Tracks t v { topo := t } where
  keys := rfl
  ids := rfl
  cursor := rfl
  count := by
    intro i k hk
    have hlt : i < t.empty.length := by
      have := (List.getElem?_eq_some_iff.mp hk).1
      simpa using this
    obtain ⟨e, he⟩ := Option.isSome_iff_exists.mp (Topology.emptyNode_isSome.mpr hlt)
    rw [← Topology.emptyNode_slotsNum he hk]
    rw [Topology.emptyNode, Option.bind_eq_some_iff] at he
    obtain ⟨r, hr, he⟩ := he
    exact ((h r (List.mem_of_getElem? hr) e he).1).symm
  nodes := fun _ => rfl
  own := by simp

/-- The guard of the loops: there still is an empty master. -/
theorem Tracks.isSome_iff (h : Tracks t v s) :
    (s.topo.emptyNode s.empIdx).isSome ↔ openAfter t.emptyKeys v s.tasks.length := by
  rw [Topology.emptyNode_isSome, openAfter, h.cursor, ← h.keys, Topology.length_emptyKeys]

/-- **One slot planned is one unit placed.** -/
theorem Tracks.planSlot {m e : ClusterNode} {slotNum : ℤ} (h : Tracks t v s)
    (hm : m.id ∉ t.emptyIDs) (hnode : (t.nodes m.id).isSome)
    (he : s.topo.emptyNode s.empIdx = some e) :
    Tracks t v (planSlot mgr m e v slotNum s) := by
  obtain ⟨k, hk⟩ : ∃ k, t.emptyKeys[s.empIdx]? = some k := by
    refine ⟨_, List.getElem?_eq_getElem ?_⟩
    rw [← h.keys, Topology.length_emptyKeys]
    exact Topology.emptyNode_isSome.mp (by rw [he]; rfl)
  have hks : s.topo.emptyKeys[s.empIdx]? = some k := by rw [h.keys, hk]
  have hlen : (ClusterManager.planSlot mgr m e v slotNum s).tasks.length =
      s.tasks.length + 1 := by simp [ClusterManager.planSlot]
  -- the counts after the slot has been counted on both sides
  have hrec : ∀ (j : ℕ) (k' : String ⊕ ℕ), t.emptyKeys[j]? = some k' →
      (ClusterManager.planSlot mgr m e v slotNum s).topo.recordSlots k' =
        s.topo.recordSlots k' + if k' = k then 1 else 0 := by
    intro j k' hk'
    have hk₁ : s.topo.emptyKeys[j]? = some k' := by rw [h.keys, hk']
    refine (Topology.addNodeSlots_recordSlots (i := j) ?_ ?_).trans
      (Topology.addEmptySlots_recordSlots hks hk₁)
    · rwa [Topology.addEmptySlots_emptyIDs, h.ids]
    · rwa [Topology.addEmptySlots_emptyKeys]
  have hkeys : (ClusterManager.planSlot mgr m e v slotNum s).topo.emptyKeys = t.emptyKeys :=
    (Topology.addEmptySlots_emptyKeys _ _ _).trans h.keys
  have hat : ((ClusterManager.planSlot mgr m e v slotNum s).topo.emptyNode s.empIdx).map
      (·.slotsNum) = some ((Bins.after t.emptyKeys v s.tasks.length).count k + 1) := by
    obtain ⟨e', he'⟩ := Option.isSome_iff_exists.mp (Topology.emptyNode_isSome.mpr
      (show s.empIdx < (ClusterManager.planSlot mgr m e v slotNum s).topo.empty.length by
        rw [← Topology.length_emptyKeys, hkeys]
        exact (List.getElem?_eq_some_iff.mp hk).1))
    rw [he', Option.map_some, Topology.emptyNode_slotsNum he' (by rw [hkeys, hk]),
      hrec _ k hk, if_pos rfl, h.count _ k hk]
  constructor
  · exact hkeys
  · exact (Topology.addEmptySlots_emptyIDs _ _ _).trans h.ids
  · rw [hlen, Bins.after_succ, Bins.place, h.cursor]
    simp only [hk]
    change _ = ite _ _ _
    refine if_congr ?_ rfl rfl
    rw [← Option.some_inj, ← hat]
    rfl
  · intro j k' hk'
    rw [hlen, Bins.after_succ, Bins.place, h.cursor, hrec j k' hk']
    simp only [hk]
    rcases eq_or_ne k' k with rfl | hne
    · rw [Function.update_self, if_pos rfl, h.count _ _ hk]
    · rw [Function.update_of_ne hne, if_neg hne, add_zero, h.count _ _ hk']
  · intro id
    refine Eq.trans ?_ ((Topology.addEmptySlots_nodes s.topo s.empIdx 1 id).trans (h.nodes id))
    simp only [ClusterManager.planSlot, Topology.addNodeSlots_nodes]
    cases (s.topo.addEmptySlots s.empIdx 1).nodes id with
    | none => rfl
    | some n =>
      simp only [Option.map_some]
      split <;> rfl
  · intro id hid
    have hsome : (((s.topo.addEmptySlots s.empIdx 1)).nodes m.id).isSome := by
      have := congrArg Option.isSome
        ((Topology.addEmptySlots_nodes s.topo s.empIdx 1 m.id).trans (h.nodes m.id))
      rw [Option.isSome_map, Option.isSome_map] at this
      rwa [this]
    change ((s.topo.addEmptySlots s.empIdx 1).addNodeSlots m.id (-1)).slotsNum id = _
    rw [Topology.addNodeSlots_slotsNum (fun _ => hsome),
      Topology.addEmptySlots_slotsNum (by rwa [h.ids]), h.own id hid]
    simp only [ClusterManager.planSlot, List.countP_append, buildSlotTask]
    rcases eq_or_ne id m.id with rfl | hne
    · simp
      omega
    · simp [hne, Ne.symm hne]

/-! ### Draining one master -/

/-- What a loop over slots of `m` does to the plan: it is still a filling, it has
come to `n` tasks, and the new ones all move slots of `m`. -/
structure Drained (t : Topology) (v : ℤ) (m : ClusterNode) (n : ℕ) (s s' : PlanState) :
    Prop where
  tracks : Tracks t v s'
  length : s'.tasks.length = n
  tasks : ∃ new, s'.tasks = s.tasks ++ new ∧ ∀ x ∈ new, x.fromID = m.id

variable {m : ClusterNode} {n n' : ℕ} {s' s'' : PlanState}

theorem Drained.refl (h : Tracks t v s) : Drained t v m s.tasks.length s s :=
  ⟨h, rfl, [], by simp, by simp⟩

theorem Drained.trans (h : Drained t v m n s s') (h' : Drained t v m n' s' s'') :
    Drained t v m n' s s'' := by
  obtain ⟨new, hnew, hfrom⟩ := h.tasks
  obtain ⟨new', hnew', hfrom'⟩ := h'.tasks
  refine ⟨h'.tracks, h'.length, new ++ new', by rw [hnew', hnew, List.append_assoc], ?_⟩
  intro x hx
  rcases List.mem_append.mp hx with hx | hx
  · exact hfrom x hx
  · exact hfrom' x hx

/-- The tasks from `m` are those there were and the new ones. -/
theorem Drained.countP_self (h : Drained t v m n s s') :
    s'.tasks.countP (fun x => x.fromID = m.id) + s.tasks.length =
      s.tasks.countP (fun x => x.fromID = m.id) + n := by
  obtain ⟨new, hnew, hfrom⟩ := h.tasks
  have hall : new.countP (fun x => x.fromID = m.id) = new.length :=
    List.countP_eq_length.mpr fun x hx => by simpa using hfrom x hx
  rw [← h.length, hnew, List.countP_append, List.length_append, hall]
  omega

/-- The tasks from another node are those there were. -/
theorem Drained.countP_of_ne (h : Drained t v m n s s') {id : String} (hid : id ≠ m.id) :
    s'.tasks.countP (fun x => x.fromID = id) = s.tasks.countP (fun x => x.fromID = id) := by
  obtain ⟨new, hnew, hfrom⟩ := h.tasks
  have hnone : new.countP (fun x => x.fromID = id) = 0 :=
    List.countP_eq_zero.mpr fun x hx => by
      rw [decide_eq_true_eq, hfrom x hx]
      exact Ne.symm hid
  rw [hnew, List.countP_append, hnone, add_zero]

/-- What a master still counts, after slots have been planned away from it. -/
theorem Drained.slotsNum (hs : Tracks t v s) (h : Drained t v m n s s')
    (hm : m.id ∉ t.emptyIDs) :
    s'.topo.slotsNum m.id = s.topo.slotsNum m.id - ((n : ℤ) - s.tasks.length) := by
  have := h.countP_self
  rw [h.tracks.own _ hm, hs.own _ hm]
  omega

theorem planSlot_drained (mgr : BaseNodeManager) {e : ClusterNode} (slotNum : ℤ)
    (h : Tracks t v s)
    (hm : m.id ∉ t.emptyIDs) (hnode : (t.nodes m.id).isSome)
    (he : s.topo.emptyNode s.empIdx = some e) :
    Drained t v m (s.tasks.length + 1) s (planSlot mgr m e v slotNum s) :=
  ⟨h.planSlot hm hnode he, by simp [planSlot], [_], rfl, by simp [buildSlotTask]⟩

/-- **The loop over a range drains a block** against what the master has above the
share. -/
theorem collectFromRange_drained (mgr : BaseNodeManager) (h : Tracks t v s) (hm : m.id ∉ t.emptyIDs)
    (hnode : (t.nodes m.id).isSome) (l : List ℤ) :
    Drained t v m (drainBlock (openAfter t.emptyKeys v) l.length
      (s.topo.slotsNum m.id - v) s.tasks.length) s (collectFromRange mgr m v l s) := by
  induction l generalizing s with
  | nil => exact Drained.refl h
  | cons slotNum l ih =>
    rw [collectFromRange, List.length_cons, drainBlock]
    cases he : s.topo.emptyNode s.empIdx with
    | none =>
      rw [if_neg (by rw [← h.isSome_iff, he]; simp)]
      exact Drained.refl h
    | some e =>
      have hne : m.id ≠ e.id := by
        intro hcon
        exact hm (hcon ▸ h.ids ▸ Topology.id_mem_emptyIDs he)
      have hd := planSlot_drained mgr slotNum h hm hnode he
      have hv := hd.slotsNum h hm
      push_cast at hv
      rw [if_pos (by rw [← h.isSome_iff, he]; simp)]
      simp only [if_neg hne]
      split
      · rw [if_pos (by omega)]
        exact hd
      · rw [if_neg (by omega)]
        have := ih hd.tracks
        rw [hd.length, show (planSlot mgr m e v slotNum s).topo.slotsNum m.id - v =
          s.topo.slotsNum m.id - v - 1 by omega] at this
        exact hd.trans this

/-- **The loop over the ranges drains the blocks** against what the master has above
the share. -/
theorem foldl_collectFromRange_drained (mgr : BaseNodeManager) (h : Tracks t v s)
    (hm : m.id ∉ t.emptyIDs) (hnode : (t.nodes m.id).isSome) (rs : List SlotRange) :
    Drained t v m (drainBlocks (openAfter t.emptyKeys v) (rs.map SlotRange.size)
      (s.topo.slotsNum m.id - v) s.tasks.length) s
      (rs.foldl (fun s r => collectFromRange mgr m v r.slotsDown s) s) := by
  induction rs generalizing s with
  | nil => exact Drained.refl h
  | cons r rs ih =>
    rw [List.map_cons, drainBlocks, List.foldl_cons]
    have hd := collectFromRange_drained mgr h hm hnode r.slotsDown
    rw [SlotRange.length_slotsDown] at hd
    have hle := (drainBlock_bounds (g := openAfter t.emptyKeys v) r.size
      (s.topo.slotsNum m.id - v) s.tasks.length).1
    have := ih hd.tracks
    rw [hd.length, hd.slotsNum h hm] at this
    refine hd.trans ?_
    convert this using 2
    omega

/-- A master whose ranges hold no slot is passed over. -/
theorem collectTasksFromMaster_of_owned_eq_zero (mgr : BaseNodeManager) (s : PlanState)
    (h : m.owned = 0) : collectTasksFromMaster mgr m v s = s := by
  have hnil : ∀ r ∈ m.slots, r.slotsDown = [] := by
    intro r hr
    rw [← List.length_eq_zero_iff, SlotRange.length_slotsDown]
    exact List.sum_eq_zero_iff_forall_eq_nat.mp h _ (List.mem_map_of_mem hr)
  rw [collectTasksFromMaster]
  generalize m.slots = rs at hnil
  induction rs with
  | nil => rfl
  | cons r rs ih =>
    rw [List.foldl_cons, hnil r (by simp), collectFromRange]
    exact ih fun r' hr' => hnil r' (by simp [hr'])

end Step

/-! ### The loop over the masters -/

namespace Topology

variable (t : Topology) (clusterName : String)

/-- What a master of the cluster owns above the share. -/
def surplus (id : String) : ℕ :=
  match t.nodes id with
  | none => 0
  | some n => if n.clusterName = clusterName then (n.slotsNum - t.share).toNat else 0

/-- The size of the last range of a node that holds a slot. -/
def lastRange (id : String) : ℕ :=
  match t.nodes id with
  | none => 0
  | some n => lastBlock (n.slots.map SlotRange.size)

/-- The surplus of a list of masters, each counted once. -/
def surplusOf (P : List String) : ℕ := ∑ id ∈ P.toFinset, t.surplus clusterName id

/-- The slot counts of the masters are the sizes of their ranges. -/
def CountsSlots : Prop := ∀ id ∈ t.masterIDs, ∀ n, t.nodes id = some n → n.slotsNum = n.owned

variable {t clusterName}

theorem EmptyMasters.slotsNum_eq_zero (h : t.EmptyMasters) {id : String}
    (hid : id ∈ t.emptyIDs) : t.slotsNum id = 0 := by
  obtain ⟨r, hr, rfl⟩ := List.mem_map.mp hid
  cases r with
  | shared id =>
    obtain ⟨n, hn⟩ := Option.isSome_iff_exists.mp (t.empty_mem id hr)
    rw [← t.nodes_id id n hn]
    exact (h _ hr n hn).2
  | copy n => exact (h _ hr n rfl).2

/-- A master with a surplus is none of the empty ones. -/
theorem EmptyMasters.notMem_of_surplus_pos (h : t.EmptyMasters) {id : String}
    (hs : 0 < t.surplus clusterName id) : id ∉ t.emptyIDs := by
  intro hid
  have h0 := h.slotsNum_eq_zero hid
  rw [surplus] at hs
  cases hn : t.nodes id with
  | none => simp [hn] at hs
  | some n =>
    simp only [slotsNum, hn, Option.map_some, Option.getD_some] at h0
    simp only [hn, h0] at hs
    split at hs <;> omega

end Topology

section Masters

variable {mgr : BaseNodeManager} {t : Topology} {clusterName : String} {s : PlanState}

/-- The planner sees the record of the topology, with the count of the plan. -/
theorem Tracks.nodes_eq_some {v : ℤ} (h : Tracks t v s) {id : String} {n : ClusterNode}
    (hn : t.nodes id = some n) :
    s.topo.nodes id = some { n with slotsNum := s.topo.slotsNum id } := by
  have := h.nodes id
  rw [hn, Option.map_some, Option.map_eq_some_iff] at this
  obtain ⟨n', hn', heq⟩ := this
  have hc : s.topo.slotsNum id = n'.slotsNum := by simp [Topology.slotsNum, hn']
  rw [hn', hc]
  cases n'
  cases n
  simp only [ClusterNode.mk.injEq, true_and] at heq
  simp_all

/-- A master without surplus is passed over. -/
theorem visitMaster_of_surplus_eq_zero (hcount : t.CountsSlots) (hempty : t.EmptyMasters)
    (h : Tracks t t.share s) {id : String} (hmem : id ∈ t.masterIDs)
    (hs : t.surplus clusterName id = 0) :
    visitMaster mgr clusterName t.share s id = s := by
  rw [visitMaster]
  cases hn : t.nodes id with
  | none =>
    have := h.nodes id
    rw [hn, Option.map_none, Option.map_eq_none_iff] at this
    rw [this]
  | some n =>
    rw [h.nodes_eq_some hn]
    simp only
    split
    · rfl
    · rename_i hcon
      rw [not_or, not_or, not_not, not_le] at hcon
      by_cases hid : id ∈ t.emptyIDs
      · -- an empty master that has been filled, and has no range to give from
        refine collectTasksFromMaster_of_owned_eq_zero mgr s ?_
        have h0 := hempty.slotsNum_eq_zero hid
        simp only [Topology.slotsNum, hn, Option.map_some, Option.getD_some] at h0
        have := hcount id hmem n hn
        change n.owned = 0
        omega
      · have hown := h.own id hid
        simp only [Topology.surplus, hn, hcon.2.1, if_true] at hs
        simp only [Topology.slotsNum, hn, Option.map_some, Option.getD_some] at hown
        have := hcon.2.2
        simp only [Topology.slotsNum] at this
        omega

/-- A master with a surplus is drained when the plan has left it above the share. -/
theorem visitMaster_of_surplus_pos (mgr : BaseNodeManager) (hempty : t.EmptyMasters)
    (h : Tracks t t.share s) {id : String} {n : ClusterNode} (hn : t.nodes id = some n)
    (hs : 0 < t.surplus clusterName id) (hlt : (t.share : ℤ) < s.topo.slotsNum id) :
    Drained t t.share n (drainBlocks (openAfter t.emptyKeys t.share)
      (n.slots.map SlotRange.size) (s.topo.slotsNum id - t.share) s.tasks.length) s
      (visitMaster mgr clusterName t.share s id) := by
  obtain rfl : n.id = id := t.nodes_id id n hn
  have hc : n.clusterName = clusterName := by
    by_contra hcon
    simp [Topology.surplus, hn, hcon] at hs
  rw [visitMaster, h.nodes_eq_some hn]
  simp only
  rw [if_neg (by rw [not_or, not_or, not_not, not_le]; exact ⟨by omega, hc, hlt⟩)]
  have := foldl_collectFromRange_drained (m := { n with slotsNum := s.topo.slotsNum n.id })
    mgr h (hempty.notMem_of_surplus_pos hs) (by rw [hn]; rfl) n.slots
  exact ⟨this.tracks, this.length, this.tasks⟩

/-- A master that the plan has left at the share or below is passed over. -/
theorem visitMaster_of_le (mgr : BaseNodeManager) {v : ℤ} (h : Tracks t v s) {id : String}
    {n : ClusterNode} (hn : t.nodes id = some n) (hle : s.topo.slotsNum id ≤ v) :
    visitMaster mgr clusterName v s id = s := by
  rw [visitMaster, h.nodes_eq_some hn]
  simp only
  rw [if_pos (Or.inr (Or.inr hle))]

/-- Every master with a surplus keeps the share: no more tasks than it has surplus. -/
def KeepsShare (t : Topology) (clusterName : String) (s : PlanState) : Prop :=
  ∀ id, 0 < t.surplus clusterName id →
    s.tasks.countP (fun x => x.fromID = id) ≤ t.surplus clusterName id

/-- The surplus of every master in `P` ends in its last range, or the empty masters
are used up by the surplus of the masters up to it. -/
def SurplusFits (t : Topology) (clusterName : String) (P : List String) : Prop :=
  ∀ (i : ℕ) (id : String), P[i]? = some id → 0 < t.surplus clusterName id →
    t.share < t.lastRange id ∨
      ¬ openAfter t.emptyKeys t.share (t.surplusOf clusterName (P.take (i + 1)))

/-- What is true after the masters `P` in any case: the plan is a filling, and its
tasks are from masters of `P` with a surplus. -/
structure Visited (t : Topology) (clusterName : String) (P : List String) (s : PlanState) :
    Prop where
  tracks : Tracks t t.share s
  source : ∀ id, s.tasks.countP (fun x => x.fromID = id) ≠ 0 →
    id ∈ P ∧ 0 < t.surplus clusterName id

/-- What is true after the masters `P` as long as each keeps its share: the plan has
taken all the surplus of `P` or all the room there was, and none of `P` will be
drained again. -/
structure Settled (t : Topology) (clusterName : String) (P : List String) (s : PlanState) :
    Prop where
  le : s.tasks.length ≤ t.surplusOf clusterName P
  eq : s.tasks.length = t.surplusOf clusterName P ∨
    ¬ openAfter t.emptyKeys t.share s.tasks.length
  rest : ∀ id ∈ P, 0 < t.surplus clusterName id →
    s.topo.slotsNum id ≤ t.share ∨ ¬ openAfter t.emptyKeys t.share s.tasks.length

theorem surplusOf_append_of_mem {P : List String} {id : String} (h : id ∈ P) :
    t.surplusOf clusterName (P ++ [id]) = t.surplusOf clusterName P := by
  rw [Topology.surplusOf, Topology.surplusOf, List.toFinset_append]
  congr 1
  simpa using h

theorem surplusOf_append_of_notMem {P : List String} {id : String} (h : id ∉ P) :
    t.surplusOf clusterName (P ++ [id]) =
      t.surplusOf clusterName P + t.surplus clusterName id := by
  rw [Topology.surplusOf, Topology.surplusOf, List.toFinset_append, List.toFinset_cons,
    List.toFinset_nil, insert_empty_eq, Finset.sum_union (by simpa using h),
    Finset.sum_singleton]

theorem surplusOf_mono {P Q : List String} (h : P ⊆ Q) :
    t.surplusOf clusterName P ≤ t.surplusOf clusterName Q :=
  Finset.sum_le_sum_of_subset fun id hid => by
    rw [List.mem_toFinset] at hid ⊢
    exact h hid

/-- The condition on one more master. -/
theorem surplusFits_append {P : List String} {id : String} :
    SurplusFits t clusterName (P ++ [id]) ↔ SurplusFits t clusterName P ∧
      (0 < t.surplus clusterName id → t.share < t.lastRange id ∨
        ¬ openAfter t.emptyKeys t.share (t.surplusOf clusterName (P ++ [id]))) := by
  constructor
  · intro h
    refine ⟨fun i j hj hs => ?_, fun hs => ?_⟩
    · have hlt : i < P.length := (List.getElem?_eq_some_iff.mp hj).1
      have := h i j (by rw [List.getElem?_append_left hlt, hj]) hs
      rwa [List.take_append_of_le_length (by omega)] at this
    · have := h P.length id (by simp) hs
      rwa [List.take_of_length_le (by simp)] at this
  · rintro ⟨h, hid⟩ i j hj hs
    rcases Nat.lt_or_ge i P.length with hlt | hge
    · rw [List.getElem?_append_left hlt] at hj
      rw [List.take_append_of_le_length (by omega)]
      exact h i j hj hs
    · have hi : i = P.length := by
        have := (List.getElem?_eq_some_iff.mp hj).1
        rw [List.length_append, List.length_singleton] at this
        omega
      subst hi
      obtain rfl : id = j := by simpa using hj
      rw [List.take_of_length_le (by simp)]
      exact hid hs

/-- The plan after the masters `P`. -/
def planAfter (mgr : BaseNodeManager) (t : Topology) (clusterName : String)
    (P : List String) : PlanState :=
  P.foldl (visitMaster mgr clusterName t.share) { topo := t }

theorem planAfter_concat (P : List String) (id : String) : planAfter mgr t clusterName (P ++ [id]) =
    visitMaster mgr clusterName t.share (planAfter mgr t clusterName P) id :=
  List.foldl_concat ..

theorem surplus_eq {id : String} (hs : 0 < t.surplus clusterName id) :
    (t.surplus clusterName id : ℤ) = t.slotsNum id - t.share := by
  rw [Topology.surplus] at hs ⊢
  cases hn : t.nodes id with
  | none => simp [hn] at hs
  | some n =>
    simp only [hn, Topology.slotsNum, Option.map_some, Option.getD_some] at hs ⊢
    split at hs
    · rename_i hc
      rw [if_pos hc]
      omega
    · omega

/-- What the first visit of a master with a surplus does. -/
theorem first_visit (mgr : BaseNodeManager) (hcount : t.CountsSlots)
    (hempty : t.EmptyMasters) {P : List String} (h : Visited t clusterName P s) {id : String}
    (hmem : id ∈ t.masterIDs) (hid : id ∉ P) (hs : 0 < t.surplus clusterName id) :
    ∃ n B, t.nodes id = some n ∧
      Drained t t.share n (drainBlocks (openAfter t.emptyKeys t.share) B
        (t.surplus clusterName id : ℕ) s.tasks.length) s
        (visitMaster mgr clusterName t.share s id) ∧
      B.sum = t.share + t.surplus clusterName id ∧ lastBlock B = t.lastRange id := by
  obtain ⟨n, hn⟩ : ∃ n, t.nodes id = some n := by
    cases hn : t.nodes id with
    | none => simp [Topology.surplus, hn] at hs
    | some n => exact ⟨n, rfl⟩
  -- nothing has been planned away from this master yet
  have hnone : s.tasks.countP (fun x => x.fromID = id) = 0 := by
    by_contra hcon
    exact hid (h.source id hcon).1
  have hslots : s.topo.slotsNum id = n.slotsNum := by
    rw [h.tracks.own id (hempty.notMem_of_surplus_pos hs), hnone]
    simp [Topology.slotsNum, hn]
  have hsurp : (t.surplus clusterName id : ℤ) = n.slotsNum - t.share := by
    simpa [Topology.slotsNum, hn] using surplus_eq hs
  have hd := visitMaster_of_surplus_pos mgr hempty h.tracks hn hs (by omega)
  rw [hslots, ← hsurp] at hd
  refine ⟨n, _, hn, hd, ?_, by simp [Topology.lastRange, hn]⟩
  have := hcount id hmem n hn
  rw [ClusterNode.owned] at this
  omega

/-- A visit of a master with a surplus plans tasks of that master only, and none if
the empty masters are used up or the master is down to the share. -/
theorem visitMaster_drained (mgr : BaseNodeManager) (hempty : t.EmptyMasters)
    (h : Tracks t t.share s) {id : String} (hs : 0 < t.surplus clusterName id) :
    ∃ n k, n.id = id ∧ Drained t t.share n k s (visitMaster mgr clusterName t.share s id) ∧
      (s.topo.slotsNum id ≤ t.share ∨ ¬ openAfter t.emptyKeys t.share s.tasks.length →
        k = s.tasks.length) := by
  obtain ⟨n, hn⟩ : ∃ n, t.nodes id = some n := by
    cases hn : t.nodes id with
    | none => simp [Topology.surplus, hn] at hs
    | some n => exact ⟨n, rfl⟩
  rcases le_or_gt (s.topo.slotsNum id) t.share with hle | hlt
  · refine ⟨n, _, t.nodes_id id n hn, ?_, fun _ => rfl⟩
    rw [visitMaster_of_le mgr h hn hle]
    exact Drained.refl h
  · refine ⟨n, _, t.nodes_id id n hn, visitMaster_of_surplus_pos mgr hempty h hn hs hlt, ?_⟩
    rintro (hle | hg)
    · omega
    · obtain ⟨h1, -, h3⟩ := drainBlocks_bounds (g := openAfter t.emptyKeys t.share)
        (n.slots.map SlotRange.size) (s.topo.slotsNum id - t.share) s.tasks.length
      by_contra hcon
      exact hg (h3 _ (le_refl _) (by omega))

/-- What is true of the plan after the masters `P`: each master has kept its share
exactly when the surplus of each fits, and as long as that is so the plan has taken
the surplus of `P` or all the room there was. -/
structure PlanSpec (t : Topology) (clusterName : String) (P : List String) (s : PlanState) :
    Prop where
  visited : Visited t clusterName P s
  keeps_iff : KeepsShare t clusterName s ↔ SurplusFits t clusterName P
  settled : KeepsShare t clusterName s → Settled t clusterName P s

/-- A visit that plans nothing. -/
theorem PlanSpec.idle {P : List String} {id : String} {s' : PlanState}
    (h : PlanSpec t clusterName P s) (htr : Tracks t t.share s') (htasks : s'.tasks = s.tasks)
    (hT : t.surplusOf clusterName (P ++ [id]) = t.surplusOf clusterName P)
    (hfits : SurplusFits t clusterName P → SurplusFits t clusterName (P ++ [id]))
    (hrest : KeepsShare t clusterName s → 0 < t.surplus clusterName id →
      s.topo.slotsNum id ≤ t.share ∨ ¬ openAfter t.emptyKeys t.share s.tasks.length)
    (hempty : t.EmptyMasters) : PlanSpec t clusterName (P ++ [id]) s' := by
  have hkeep : KeepsShare t clusterName s' ↔ KeepsShare t clusterName s := by
    rw [KeepsShare, KeepsShare, htasks]
  refine ⟨⟨htr, fun j hj => ?_⟩, ?_, fun hk => ?_⟩
  · rw [htasks] at hj
    exact ⟨List.mem_append_left _ (h.visited.source j hj).1, (h.visited.source j hj).2⟩
  · rw [hkeep, h.keeps_iff]
    exact ⟨hfits, fun h' => (surplusFits_append.mp h').1⟩
  · obtain ⟨h1, h2, h3⟩ := h.settled (hkeep.mp hk)
    rw [← hT] at h1 h2
    rw [← htasks] at h1 h2
    refine ⟨h1, h2, fun j hj hsj => ?_⟩
    rw [htr.own j (hempty.notMem_of_surplus_pos hsj), htasks,
      ← h.visited.tracks.own j (hempty.notMem_of_surplus_pos hsj)]
    rcases List.mem_append.mp hj with hj | hj
    · exact h3 j hj hsj
    · obtain rfl : j = id := by simpa using hj
      exact hrest (hkeep.mp hk) hsj

/-- A master without surplus. -/
theorem PlanSpec.skip (mgr : BaseNodeManager) (hcount : t.CountsSlots)
    (hempty : t.EmptyMasters) {P : List String} {id : String} (hmem : id ∈ t.masterIDs)
    (hs : t.surplus clusterName id = 0) (h : PlanSpec t clusterName P s) :
    PlanSpec t clusterName (P ++ [id]) (visitMaster mgr clusterName t.share s id) := by
  rw [visitMaster_of_surplus_eq_zero hcount hempty h.visited.tracks hmem hs]
  refine h.idle h.visited.tracks rfl ?_ ?_ (fun _ hs' => absurd hs' (by omega)) hempty
  · by_cases hid : id ∈ P
    · exact surplusOf_append_of_mem hid
    · rw [surplusOf_append_of_notMem hid, hs, add_zero]
  · exact fun hf => surplusFits_append.mpr ⟨hf, fun hs' => absurd hs' (by omega)⟩

/-- A master that has been visited before. -/
theorem PlanSpec.again (mgr : BaseNodeManager) (hempty : t.EmptyMasters) {P : List String}
    {id : String} (hid : id ∈ P) (hs : 0 < t.surplus clusterName id)
    (h : PlanSpec t clusterName P s) :
    PlanSpec t clusterName (P ++ [id]) (visitMaster mgr clusterName t.share s id) := by
  obtain ⟨n, k, rfl, hd, hk⟩ := visitMaster_drained mgr hempty h.visited.tracks hs
  have hT : t.surplusOf clusterName (P ++ [n.id]) = t.surplusOf clusterName P :=
    surplusOf_append_of_mem hid
  by_cases hkeep : KeepsShare t clusterName s
  · have hrest := (h.settled hkeep).rest n.id hid hs
    obtain ⟨new, hnew, -⟩ := hd.tasks
    have hlen := hd.length
    rw [hk hrest, hnew, List.length_append] at hlen
    have hnil : new = [] := List.length_eq_zero_iff.mp (by omega)
    refine h.idle hd.tracks (by rw [hnew, hnil, List.append_nil]) hT (fun hf => ?_)
      (fun _ _ => hrest) hempty
    -- what held at the first visit holds now, the surplus counted being larger
    refine surplusFits_append.mpr ⟨hf, fun _ => ?_⟩
    obtain ⟨i, hi⟩ := List.mem_iff_getElem?.mp hid
    rcases hf i n.id hi hs with h' | h'
    · exact Or.inl h'
    · refine Or.inr fun hcon => h' (openAfter_of_le ?_ hcon)
      exact surplusOf_mono fun j hj => List.mem_append_left _ (List.mem_of_mem_take hj)
  · have hkeep' : ¬ KeepsShare t clusterName
        (visitMaster mgr clusterName t.share s n.id) := by
      refine fun hcon => hkeep fun j hj => le_trans ?_ (hcon j hj)
      obtain ⟨new, hnew, -⟩ := hd.tasks
      rw [hnew, List.countP_append]
      exact Nat.le_add_right _ _
    refine ⟨⟨hd.tracks, fun j hj => ?_⟩, ⟨fun hcon => absurd hcon hkeep', fun hcon => ?_⟩,
      fun hcon => absurd hcon hkeep'⟩
    · rcases eq_or_ne j n.id with rfl | hne
      · exact ⟨List.mem_append_left _ hid, hs⟩
      · rw [hd.countP_of_ne hne] at hj
        exact ⟨List.mem_append_left _ (h.visited.source j hj).1, (h.visited.source j hj).2⟩
    · exact absurd (h.keeps_iff.mpr (surplusFits_append.mp hcon).1) hkeep

/-- A master that is visited for the first time. -/
theorem PlanSpec.first (mgr : BaseNodeManager) (hcount : t.CountsSlots)
    (hempty : t.EmptyMasters) {P : List String} {id : String} (hmem : id ∈ t.masterIDs)
    (hid : id ∉ P) (hs : 0 < t.surplus clusterName id) (h : PlanSpec t clusterName P s) :
    PlanSpec t clusterName (P ++ [id]) (visitMaster mgr clusterName t.share s id) := by
  obtain ⟨n, B, hn, hd, hsum, hlast⟩ := first_visit mgr hcount hempty h.visited hmem hid hs
  obtain rfl : n.id = id := t.nodes_id id n hn
  have hT : t.surplusOf clusterName (P ++ [n.id]) = _ := surplusOf_append_of_notMem hid
  have hnone : s.tasks.countP (fun x => x.fromID = n.id) = 0 := by
    by_contra hcon
    exact hid (h.visited.source n.id hcon).1
  have hself := hd.countP_self
  have hge := (drainBlocks_bounds (g := openAfter t.emptyKeys t.share) B
    (t.surplus clusterName n.id : ℕ) s.tasks.length).1
  have hkeep : KeepsShare t clusterName (visitMaster mgr clusterName t.share s n.id) ↔
      KeepsShare t clusterName s ∧ drainBlocks (openAfter t.emptyKeys t.share) B
        (t.surplus clusterName n.id : ℕ) s.tasks.length ≤
          s.tasks.length + t.surplus clusterName n.id := by
    constructor
    · intro hk
      refine ⟨fun j hj => ?_, by have := hk n.id hs; omega⟩
      rcases eq_or_ne j n.id with rfl | hne
      · omega
      · rw [← hd.countP_of_ne hne]
        exact hk j hj
    · rintro ⟨hk, hle⟩ j hj
      rcases eq_or_ne j n.id with rfl | hne
      · omega
      · rw [hd.countP_of_ne hne]
        exact hk j hj
  refine ⟨⟨hd.tracks, fun j hj => ?_⟩, ?_, fun hk => ?_⟩
  · rcases eq_or_ne j n.id with rfl | hne
    · exact ⟨by simp, hs⟩
    · rw [hd.countP_of_ne hne] at hj
      exact ⟨List.mem_append_left _ (h.visited.source j hj).1, (h.visited.source j hj).2⟩
  · rw [hkeep, surplusFits_append, ← h.keeps_iff, hT]
    refine and_congr_right fun hk => ?_
    obtain ⟨hle, heq, -⟩ := h.settled hk
    -- the room left after the surplus of `P` is the room left by the plan for `P`
    have hroom : openAfter t.emptyKeys t.share (s.tasks.length + t.surplus clusterName n.id) ↔
        openAfter t.emptyKeys t.share
          (t.surplusOf clusterName P + t.surplus clusterName n.id) := by
      rcases heq with heq | hfull
      · rw [heq]
      · exact ⟨fun ho => absurd (openAfter_of_le (by omega) ho) hfull,
          fun ho => absurd (openAfter_of_le (by omega) ho) hfull⟩
    rw [drainBlocks_le_iff hs fun _ _ => openAfter_of_le, hsum, hlast, hroom]
    constructor
    · rintro (hl | hg) -
      · exact Or.inl (by omega)
      · exact Or.inr hg
    · intro hor
      rcases hor hs with hl | hg
      · exact Or.inl (by omega)
      · exact Or.inr hg
  · obtain ⟨hk, hstop⟩ := hkeep.mp hk
    obtain ⟨hle, heq, hrest⟩ := h.settled hk
    have hquota := quota_le_drainBlocks (g := openAfter t.emptyKeys t.share) (t := s.tasks.length)
      (e := (t.surplus clusterName n.id : ℕ)) (B := B) (by omega)
    refine ⟨by rw [hd.length, hT]; omega, ?_, fun j hj hsj => ?_⟩
    · rw [hd.length, hT]
      rcases hquota with hg | hq
      · exact Or.inr hg
      · rcases heq with heq | hfull
        · exact Or.inl (by omega)
        · exact Or.inr fun ho => hfull (openAfter_of_le hge ho)
    · rw [hd.length]
      rcases eq_or_ne j n.id with rfl | hne
      · rcases hquota with hg | hq
        · exact Or.inr hg
        · refine Or.inl ?_
          rw [hd.tracks.own n.id (hempty.notMem_of_surplus_pos hs)]
          have hsurp : (t.surplus clusterName n.id : ℤ) = t.slotsNum n.id - t.share :=
            surplus_eq hs
          omega
      · have hj' : j ∈ P := by simpa [hne] using hj
        rw [hd.tracks.own j (hempty.notMem_of_surplus_pos hsj), hd.countP_of_ne hne,
          ← h.visited.tracks.own j (hempty.notMem_of_surplus_pos hsj)]
        exact (hrest j hj' hsj).imp_right fun hg ho => hg (openAfter_of_le hge ho)

/-- **The plan, master by master.** -/
theorem planAfter_spec (mgr : BaseNodeManager) (hcount : t.CountsSlots)
    (hempty : t.EmptyMasters) (P : List String) (hP : P ⊆ t.masterIDs) :
    PlanSpec t clusterName P (planAfter mgr t clusterName P) := by
  induction P using List.reverseRec with
  | nil =>
    refine ⟨⟨Tracks.init hempty, by simp [planAfter]⟩, ⟨fun _ => ?_, fun _ => ?_⟩, fun _ => ?_⟩
    · intro i id hi
      simp at hi
    · intro id _
      simp [planAfter]
    · exact ⟨by simp [planAfter], Or.inl (by simp [planAfter, Topology.surplusOf]), by simp⟩
  | append_singleton P id ih =>
    have hspec := ih fun j hj => hP (List.mem_append_left _ hj)
    have hmem : id ∈ t.masterIDs := hP (by simp)
    rw [planAfter_concat]
    rcases Nat.eq_zero_or_pos (t.surplus clusterName id) with hs | hs
    · exact hspec.skip mgr hcount hempty hmem hs
    · by_cases hid : id ∈ P
      · exact hspec.again mgr hempty hid hs
      · exact hspec.first mgr hcount hempty hmem hid hs

/-- The plan leaves every master its share: of a master that owns at least the share,
no more slots are moved than it owns above it. -/
def LeavesShare (t : Topology) (plan : PlanState) : Prop :=
  ∀ id ∈ t.masterIDs, ∀ n, t.nodes id = some n → (t.share : ℤ) ≤ n.slotsNum →
    (plan.tasks.countP (fun x => x.fromID = id) : ℤ) ≤ n.slotsNum - t.share

/-- A plan that takes from masters with a surplus only leaves every master its share
when it leaves those their share. -/
theorem leavesShare_iff (h : Visited t clusterName t.masterIDs s) :
    LeavesShare t s ↔ KeepsShare t clusterName s := by
  constructor
  · intro hl id hs
    by_cases h0 : s.tasks.countP (fun x => x.fromID = id) = 0
    · omega
    · cases hn : t.nodes id with
      | none => simp [Topology.surplus, hn] at hs
      | some n =>
        have hsurp := surplus_eq hs
        simp only [Topology.slotsNum, hn, Option.map_some, Option.getD_some] at hsurp
        have := hl id (h.source id h0).1 n hn (by omega)
        omega
  · intro hk id hid n hn hle
    by_cases h0 : s.tasks.countP (fun x => x.fromID = id) = 0
    · rw [h0]
      simpa using hle
    · have hs := (h.source id h0).2
      have hsurp := surplus_eq hs
      simp only [Topology.slotsNum, hn, Option.map_some, Option.getD_some] at hsurp
      have := hk id hs
      omega

/-- The empty masters are used up by `T` slots when they are distinct records and have
the share each. For a share of 0 they are never full, but then there is a slot left in
the last range. -/
theorem lastRange_or_full_iff (hcount : t.CountsSlots) {id : String} (hmem : id ∈ t.masterIDs)
    (hs : 0 < t.surplus clusterName id) (T : ℕ) :
    (t.share < t.lastRange id ∨ ¬ openAfter t.emptyKeys t.share T) ↔
      t.share < t.lastRange id ∨ t.emptyKeys.Nodup ∧ t.empty.length * t.share ≤ T := by
  rcases Nat.eq_zero_or_pos t.share with h0 | hpos
  · have hlast : 0 < t.lastRange id := by
      cases hn : t.nodes id with
      | none => simp [Topology.surplus, hn] at hs
      | some n =>
        have hsurp := surplus_eq hs
        simp only [Topology.slotsNum, hn, Option.map_some, Option.getD_some] at hsurp
        have hown := hcount id hmem n hn
        simp only [Topology.lastRange, hn]
        refine lastBlock_pos ?_
        rw [ClusterNode.owned] at hown
        omega
    exact ⟨fun _ => Or.inl (by omega), fun _ => Or.inl (by omega)⟩
  · refine or_congr_right ?_
    by_cases hnd : t.emptyKeys.Nodup
    · rw [openAfter_iff_of_nodup hnd hpos, Topology.length_emptyKeys, not_lt]
      exact ⟨fun h => ⟨hnd, h⟩, fun h => h.2⟩
    · exact ⟨fun h => absurd (openAfter_of_not_nodup hnd hpos T) h, fun h => absurd h.1 hnd⟩

/-- The plan leaves every master its share exactly when every surplus fits. -/
theorem leavesShare_iff_surplusFits (mgr : BaseNodeManager) (hcount : t.CountsSlots)
    (hempty : t.EmptyMasters) :
    LeavesShare t (collectSlotTasks mgr t clusterName) ↔
      SurplusFits t clusterName t.masterIDs := by
  have hspec : PlanSpec t clusterName t.masterIDs (planAfter mgr t clusterName t.masterIDs) :=
    planAfter_spec mgr hcount hempty t.masterIDs (List.Subset.refl _)
  exact (leavesShare_iff hspec.visited).trans hspec.keeps_iff

/-- There is something to do when a master has a surplus and an empty master has room. -/
theorem collectSlotTasks_ne_nil (mgr : BaseNodeManager) (hcount : t.CountsSlots)
    (hempty : t.EmptyMasters) (hopen : openAfter t.emptyKeys t.share 0) {id : String}
    (hmem : id ∈ t.masterIDs) (hs : 0 < t.surplus clusterName id) :
    (collectSlotTasks mgr t clusterName).tasks ≠ [] := by
  have hspec : PlanSpec t clusterName t.masterIDs (collectSlotTasks mgr t clusterName) :=
    planAfter_spec mgr hcount hempty t.masterIDs (List.Subset.refl _)
  intro hnil
  have hkeep : KeepsShare t clusterName (collectSlotTasks mgr t clusterName) := by
    intro j _
    rw [hnil]
    exact Nat.zero_le _
  have heq := (hspec.settled hkeep).eq
  rw [hnil] at heq
  rcases heq with h0 | hfull
  · have hle := Finset.single_le_sum (fun j _ => Nat.zero_le (t.surplus clusterName j))
      (List.mem_toFinset.mpr hmem)
    have h0' : 0 = ∑ j ∈ t.masterIDs.toFinset, t.surplus clusterName j := h0
    omega
  · exact hfull hopen

/-- **When planning does not drain a master below the share.** For every master with a
surplus, either the surplus cannot end before its last range, the share being smaller
than that range, or the empty masters have no room left for more than the surplus of
the masters up to it. Where neither is so, the loop over the ranges goes on after the
surplus is gone and takes slots of the share. -/
theorem collectSlotTasks_leavesShare_iff (mgr : BaseNodeManager) (t : Topology)
    (clusterName : String) (hcount : t.CountsSlots) (hempty : t.EmptyMasters) :
    LeavesShare t (collectSlotTasks mgr t clusterName) ↔
      ∀ (i : ℕ) (id : String), t.masterIDs[i]? = some id → 0 < t.surplus clusterName id →
        t.share < t.lastRange id ∨ t.emptyKeys.Nodup ∧
          t.empty.length * t.share ≤ t.surplusOf clusterName (t.masterIDs.take (i + 1)) := by
  rw [leavesShare_iff_surplusFits mgr hcount hempty, SurplusFits]
  refine forall_congr' fun i => forall_congr' fun id => forall_congr' fun hi =>
    forall_congr' fun hs => ?_
  exact lastRange_or_full_iff hcount (List.mem_of_getElem? hi) hs _

end Masters

/-! ### Two masters and an empty one -/

/-- The masters' ranges have no slot in common. -/
def Topology.DisjointRanges (t : Topology) : Prop :=
  (t.masterIDs.flatMap fun id => ((t.nodes id).map (·.slots)).getD []).Pairwise
    fun r r' => r.stop < r'.start ∨ r'.stop < r.start

/-- A master of the cluster `m` with its ranges counted. -/
def countedMaster (id : String) (slots : List SlotRange) : ClusterNode :=
  { id := id, ip := id, port := 6379, nodeType := .master, masterID := "-"
    linkState := "connected", slots := slots, slotsNum := (slots.map SlotRange.size).sum
    clusterName := "m" }

/-- The masters `a` and `b` with their ranges, and the empty master `c`. -/
def twoMasters (a b : List SlotRange) : Topology where
  nodes id :=
    if id = "a" then some (countedMaster id a)
    else if id = "b" then some (countedMaster id b)
    else if id = "c" then some (countedMaster id [])
    else none
  masterIDs := ["a", "b", "c"]
  empty := [.shared "c"]
  nodes_id := by
    intro id n hn
    split_ifs at hn
    all_goals
      cases hn
      rfl
  empty_mem := by simp

theorem twoMasters_countsSlots (a b : List SlotRange) : (twoMasters a b).CountsSlots := by
  intro id _ n hn
  simp only [twoMasters] at hn
  split_ifs at hn
  all_goals
    cases hn
    rfl

theorem twoMasters_emptyMasters (a b : List SlotRange) : (twoMasters a b).EmptyMasters := by
  intro r hr n hn
  obtain rfl : r = .shared "c" := by simpa [twoMasters] using hr
  obtain rfl : countedMaster "c" [] = n := by simpa [twoMasters, Topology.deref] using hn
  exact ⟨rfl, rfl⟩

/-- Two halves of the slots, one range each: a fresh cluster scaled out by one. -/
theorem leavesShare_of_fresh :
    LeavesShare (twoMasters [⟨0, 8191⟩] [⟨8192, 16383⟩])
      (collectSlotTasks {} (twoMasters [⟨0, 8191⟩] [⟨8192, 16383⟩]) "m") := by
  refine (collectSlotTasks_leavesShare_iff _ _ _ (twoMasters_countsSlots _ _)
    (twoMasters_emptyMasters _ _)).mpr fun i id hi hs => Or.inl ?_
  have hid : id ∈ ["a", "b", "c"] := List.mem_of_getElem? hi
  simp only [List.mem_cons, List.not_mem_nil, or_false] at hid
  rcases hid with rfl | rfl | rfl
  · decide
  · decide
  · exact absurd hs (by decide)

/-- A master with a second range of one slot gives up its surplus of 2541 slots from
the first range and then that slot too. -/
theorem not_leavesShare_of_second_range :
    (twoMasters [⟨0, 8000⟩, ⟨16383, 16383⟩] [⟨8001, 16382⟩]).DisjointRanges ∧
      (twoMasters [⟨0, 8000⟩, ⟨16383, 16383⟩] [⟨8001, 16382⟩]).CountsSlots ∧
      (twoMasters [⟨0, 8000⟩, ⟨16383, 16383⟩] [⟨8001, 16382⟩]).EmptyMasters ∧
      ¬ LeavesShare (twoMasters [⟨0, 8000⟩, ⟨16383, 16383⟩] [⟨8001, 16382⟩])
        (collectSlotTasks {} (twoMasters [⟨0, 8000⟩, ⟨16383, 16383⟩] [⟨8001, 16382⟩]) "m") := by
  have hcount := twoMasters_countsSlots [⟨0, 8000⟩, ⟨16383, 16383⟩] [⟨8001, 16382⟩]
  have hempty := twoMasters_emptyMasters [⟨0, 8000⟩, ⟨16383, 16383⟩] [⟨8001, 16382⟩]
  refine ⟨by unfold Topology.DisjointRanges; decide, hcount, hempty, ?_⟩
  rw [leavesShare_iff_surplusFits _ hcount hempty]
  intro hfits
  have hs : 0 < (twoMasters [⟨0, 8000⟩, ⟨16383, 16383⟩] [⟨8001, 16382⟩]).surplus "m" "a" := by
    decide
  have h := (lastRange_or_full_iff hcount (by decide) hs _).mp (hfits 0 "a" rfl hs)
  rcases h with h | ⟨-, h⟩
  · exact absurd h (by decide)
  · exact absurd h (by decide)

end ClusterManager
