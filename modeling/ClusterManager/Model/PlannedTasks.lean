import Mathlib.Algebra.BigOperators.Group.Finset.Piecewise
import Mathlib.Data.List.Count
import Mathlib.Data.List.Perm.Subperm
import Mathlib.Algebra.BigOperators.Ring.Finset
import ClusterManager.Model.Planning

/-!
# What is planned

`ClusterManager.Model.Planning` follows the planner by numbers: how many slots leave which
master. Here it is followed by the tasks themselves.

*Which slots are moved, and where?* Whatever the loops are left by, the slots a master gives
are taken from its ranges in the order in which the loops walk them
(`collectFromRange_emits`), so the slots of the whole plan are a part of the slots of all
masters, in order. Where no two ranges have a slot in common, none is moved twice
(`collectSlotTasks_wellFormed`). Nothing is needed of the counts, and nothing of the list of
the empty masters.

*Does every empty master get its share?* It gets no more than that, since the cursor leaves
it when its count has come to the share. That it gets no less is a matter of the total: as
long as an empty master has room, every old master has given its surplus at least, and what
the old masters have above the share is enough for all the empty ones, the share being
rounded down (`collectSlotTasks_fills`).
-/

namespace ClusterManager

open Drain

/-! ### Ranges as sets of slots -/

namespace SlotRange

instance : Membership ℤ SlotRange where
  mem r i := r.start ≤ i ∧ i ≤ r.stop

theorem mem_def {r : SlotRange} {i : ℤ} : i ∈ r ↔ r.start ≤ i ∧ i ≤ r.stop := Iff.rfl

instance (r : SlotRange) (i : ℤ) : Decidable (i ∈ r) :=
  decidable_of_iff (r.start ≤ i ∧ i ≤ r.stop) mem_def.symm

/-- No slot is in both ranges. -/
def Disjoint (r r' : SlotRange) : Prop := ∀ i, i ∈ r → i ∉ r'

theorem slotsDown_eq (r : SlotRange) :
    r.slotsDown = (List.range r.size).map fun i : ℕ => r.stop - i := by
  simp only [slotsDown, List.bind_eq_flatMap, List.map_flatMap, List.pure_def, List.map_singleton]
  exact List.flatMap_pure_eq_map _ _

@[simp] theorem mem_slotsDown {r : SlotRange} {i : ℤ} : i ∈ r.slotsDown ↔ i ∈ r := by
  rw [slotsDown_eq, mem_def, List.mem_map]
  constructor
  · rintro ⟨j, hj, rfl⟩
    rw [List.mem_range, size] at hj
    omega
  · rintro ⟨h1, h2⟩
    refine ⟨(r.stop - i).toNat, ?_, by omega⟩
    rw [List.mem_range, size]
    omega

theorem nodup_slotsDown (r : SlotRange) : r.slotsDown.Nodup := by
  rw [slotsDown_eq]
  exact List.nodup_range.map fun i j (hij : r.stop - (i : ℤ) = r.stop - (j : ℤ)) => by omega

end SlotRange

namespace Topology

/-- The ranges of the node of a name. -/
def rangesOf (t : Topology) (id : String) : List SlotRange :=
  ((t.nodes id).map (·.slots)).getD []

/-- The slots of the node of a name, in the order the planner walks them in. -/
def slotsOf (t : Topology) (id : String) : List ℤ := (t.rangesOf id).flatMap SlotRange.slotsDown

/-- The ranges of the masters are pairwise disjoint. -/
def RangesDisjoint (t : Topology) : Prop :=
  (t.masterIDs.flatMap t.rangesOf).Pairwise SlotRange.Disjoint

theorem mem_slotsOf {t : Topology} {id : String} {i : ℤ} :
    i ∈ t.slotsOf id ↔ ∃ n, t.nodes id = some n ∧ ∃ r ∈ n.slots, i ∈ r := by
  rw [slotsOf, rangesOf, List.mem_flatMap]
  cases t.nodes id with
  | none => simp
  | some n => simp

theorem length_slotsOf {t : Topology} {id : String} {n : ClusterNode} (hn : t.nodes id = some n) :
    (t.slotsOf id).length = n.owned := by
  rw [slotsOf, rangesOf, hn, List.length_flatMap, ClusterNode.owned]
  exact congrArg List.sum (List.map_congr_left fun r _ => r.length_slotsDown)

/-- Disjoint ranges have each slot once. -/
theorem RangesDisjoint.nodup {t : Topology} (h : t.RangesDisjoint) :
    (t.masterIDs.flatMap t.slotsOf).Nodup := by
  have heq : t.masterIDs.flatMap t.slotsOf =
      (t.masterIDs.flatMap t.rangesOf).flatMap SlotRange.slotsDown := by
    rw [List.flatMap_assoc]
    rfl
  rw [heq, List.nodup_flatMap]
  refine ⟨fun r _ => r.nodup_slotsDown, h.imp fun hdis i hi hi' => ?_⟩
  exact hdis i (SlotRange.mem_slotsDown.mp hi) (SlotRange.mem_slotsDown.mp hi')

end Topology

/-! ### The tasks of one master -/

/-- The same topology but for the slot counts. -/
structure Recounted (t t' : Topology) : Prop where
  ids : t'.emptyIDs = t.emptyIDs
  nodes : ∀ id, (t'.nodes id).map (fun n => { n with slotsNum := 0 }) =
    (t.nodes id).map fun n => { n with slotsNum := 0 }

theorem Recounted.rfl {t : Topology} : Recounted t t := ⟨Eq.refl _, fun _ => Eq.refl _⟩

theorem Recounted.trans {t t' t'' : Topology} (h : Recounted t t') (h' : Recounted t' t'') :
    Recounted t t'' :=
  ⟨h'.ids.trans h.ids, fun id => (h'.nodes id).trans (h.nodes id)⟩

/-- What is known of a node is known of it after counting. -/
theorem Recounted.exists_node {t t' : Topology} (h : Recounted t t') {id : String}
    {n : ClusterNode} (hn : t'.nodes id = some n) :
    ∃ v, t.nodes id = some { n with slotsNum := v } := by
  have hmap := h.nodes id
  rw [hn, Option.map_some] at hmap
  obtain ⟨n', hn', heq⟩ := Option.map_eq_some_iff.mp hmap.symm
  refine ⟨n'.slotsNum, hn'.trans (congrArg some ?_)⟩
  cases n'
  cases n
  simp only [ClusterNode.mk.injEq, true_and] at heq ⊢
  simp_all

theorem recounted_planSlot (mgr : BaseNodeManager) (m e : ClusterNode) (v slotNum : ℤ)
    (s : PlanState) : Recounted s.topo (planSlot mgr m e v slotNum s).topo where
  ids := Topology.addEmptySlots_emptyIDs _ _ _
  nodes id := by
    refine Eq.trans ?_ (Topology.addEmptySlots_nodes s.topo s.empIdx 1 id)
    simp only [planSlot, Topology.addNodeSlots_nodes]
    rcases (s.topo.addEmptySlots s.empIdx 1).nodes id with _ | n
    · rfl
    · simp only [Option.map_some]
      split <;> rfl

/-- The plan goes on from `s` to `s'` by tasks that take slots of `L`, in this order, from the
node `id`, and bring each of them to an empty master that is another node. -/
structure Emits (id : String) (L : List ℤ) (s s' : PlanState) : Prop where
  recounted : Recounted s.topo s'.topo
  tasks : ∃ new, s'.tasks = s.tasks ++ new ∧ (new.map SlotTask.slot).Sublist L ∧
    ∀ x ∈ new, x.fromID = id ∧ x.toID ∈ s.topo.emptyIDs ∧ x.fromID ≠ x.toID

section Emits

variable {mgr : BaseNodeManager} {m : ClusterNode} {v : ℤ} {id : String} {L L' : List ℤ}
  {s s' s'' : PlanState}

theorem Emits.nil : Emits id L s s :=
  ⟨Recounted.rfl, [], (List.append_nil _).symm, List.nil_sublist L, by simp⟩

theorem Emits.append (h : Emits id L s s') (h' : Emits id L' s' s'') :
    Emits id (L ++ L') s s'' := by
  obtain ⟨new, hnew, hsub, hto⟩ := h.tasks
  obtain ⟨new', hnew', hsub', hto'⟩ := h'.tasks
  refine ⟨h.recounted.trans h'.recounted, new ++ new', ?_, ?_, fun x hx => ?_⟩
  · rw [hnew', hnew, List.append_assoc]
  · rw [List.map_append]
    exact hsub.append hsub'
  · rcases List.mem_append.mp hx with hx | hx
    · exact hto x hx
    · rw [← h.recounted.ids]
      exact hto' x hx

theorem planSlot_emits {e : ClusterNode} {slotNum : ℤ}
    (he : s.topo.emptyNode s.empIdx = some e) (hne : m.id ≠ e.id) :
    Emits m.id [slotNum] s (planSlot mgr m e v slotNum s) := by
  refine ⟨recounted_planSlot _ _ _ _ _ _, [buildSlotTask mgr slotNum m e], rfl,
    List.Sublist.refl _, fun x hx => ?_⟩
  obtain rfl := List.mem_singleton.mp hx
  exact ⟨rfl, Topology.id_mem_emptyIDs he, hne⟩

/-- The loop over a range takes slots from the front, whatever it is left by. -/
theorem collectFromRange_emits (mgr : BaseNodeManager) (m : ClusterNode) (v : ℤ) (l : List ℤ)
    (s : PlanState) : Emits m.id l s (collectFromRange mgr m v l s) := by
  induction l generalizing s with
  | nil => exact Emits.nil
  | cons slotNum l ih =>
    rw [collectFromRange]
    split
    · exact Emits.nil
    rename_i e he
    split
    · exact Emits.nil
    rename_i hne
    have hfirst : Emits m.id [slotNum] s (planSlot mgr m e v slotNum s) := planSlot_emits he hne
    dsimp only
    split
    · have hrest : Emits m.id l (planSlot mgr m e v slotNum s) (planSlot mgr m e v slotNum s) :=
        Emits.nil
      exact hfirst.append hrest
    · exact hfirst.append (ih _)

theorem collectTasksFromMaster_emits (mgr : BaseNodeManager) (m : ClusterNode) (v : ℤ)
    (s : PlanState) :
    Emits m.id (m.slots.flatMap SlotRange.slotsDown) s (collectTasksFromMaster mgr m v s) := by
  rw [collectTasksFromMaster]
  generalize m.slots = rs
  induction rs generalizing s with
  | nil => exact Emits.nil
  | cons r rs ih => exact (collectFromRange_emits mgr m v r.slotsDown s).append (ih _)

/-- A visit of a master takes slots of that master. -/
theorem visitMaster_emits (mgr : BaseNodeManager) (clusterName : String) {t : Topology}
    (h : Recounted t s.topo) (id : String) :
    Emits id (t.slotsOf id) s (visitMaster mgr clusterName v s id) := by
  rw [visitMaster]
  split
  · exact Emits.nil
  rename_i n hn
  split
  · exact Emits.nil
  obtain ⟨v', hn'⟩ := h.exists_node hn
  have hslots : t.slotsOf id = n.slots.flatMap SlotRange.slotsDown := by
    rw [Topology.slotsOf, Topology.rangesOf, hn']
    rfl
  rw [hslots, ← s.topo.nodes_id id n hn]
  exact collectTasksFromMaster_emits mgr n v s

end Emits

/-! ### The whole plan -/

/-- What is true of the tasks after the masters `P`: their slots are slots of `P` in order, and
each task takes a slot of its master to an empty master that is another node. -/
structure PlanShape (t : Topology) (P : List String) (s : PlanState) : Prop where
  recounted : Recounted t s.topo
  slots : (s.tasks.map SlotTask.slot).Sublist (P.flatMap t.slotsOf)
  tasks : ∀ x ∈ s.tasks, x.fromID ∈ P ∧ x.slot ∈ t.slotsOf x.fromID ∧ x.toID ∈ t.emptyIDs ∧
    x.fromID ≠ x.toID

/-- One more master. -/
theorem PlanShape.visit (mgr : BaseNodeManager) (clusterName : String) (v : ℤ) {t : Topology}
    {P : List String} {s : PlanState} (h : PlanShape t P s) (id : String) :
    PlanShape t (P ++ [id]) (visitMaster mgr clusterName v s id) := by
  have hvisit := visitMaster_emits (v := v) mgr clusterName h.recounted id
  obtain ⟨new, hnew, hsub, hto⟩ := hvisit.tasks
  refine ⟨h.recounted.trans hvisit.recounted, ?_, fun x hx => ?_⟩
  · rw [hnew, List.map_append, List.flatMap_append, List.flatMap_singleton]
    exact h.slots.append hsub
  · rw [hnew] at hx
    rcases List.mem_append.mp hx with hx | hx
    · obtain ⟨hmem, hrest⟩ := h.tasks x hx
      exact ⟨List.mem_append_left _ hmem, hrest⟩
    · obtain ⟨hfrom, hmem, hne⟩ := hto x hx
      rw [h.recounted.ids] at hmem
      refine ⟨by simp [hfrom], ?_, hmem, hne⟩
      rw [hfrom]
      exact hsub.subset (List.mem_map_of_mem hx)

theorem planAfter_shape (mgr : BaseNodeManager) (t : Topology) (clusterName : String)
    (P : List String) : PlanShape t P (planAfter mgr t clusterName P) := by
  induction P using List.reverseRec with
  | nil => exact ⟨Recounted.rfl, List.Sublist.refl _, by simp [planAfter]⟩
  | append_singleton P id ih =>
    rw [planAfter_concat]
    exact ih.visit mgr clusterName t.share id

/-- **The plan is well formed.** Where no two ranges of the masters have a slot in common, no
slot is planned twice; each task takes a slot out of a range of the master it names, and takes
it to an empty master that is not that master. -/
theorem collectSlotTasks_wellFormed (mgr : BaseNodeManager) (t : Topology) (clusterName : String)
    (hdisjoint : t.RangesDisjoint) :
    ((collectSlotTasks mgr t clusterName).tasks.map SlotTask.slot).Nodup ∧
      ∀ x ∈ (collectSlotTasks mgr t clusterName).tasks,
        x.fromID ∈ t.masterIDs ∧
        (∃ n, t.nodes x.fromID = some n ∧ ∃ r ∈ n.slots, x.slot ∈ r) ∧
        x.toID ∈ t.emptyIDs ∧ x.fromID ≠ x.toID := by
  have hshape : PlanShape t t.masterIDs (collectSlotTasks mgr t clusterName) :=
    planAfter_shape mgr t clusterName t.masterIDs
  refine ⟨hdisjoint.nodup.sublist hshape.slots, fun x hx => ?_⟩
  obtain ⟨hfrom, hslot, hto, hne⟩ := hshape.tasks x hx
  exact ⟨hfrom, Topology.mem_slotsOf.mp hslot, hto, hne⟩

theorem twoMasters_rangesDisjoint :
    (twoMasters [⟨0, 8191⟩] [⟨8192, 16383⟩]).RangesDisjoint := by
  have hranges : (twoMasters [⟨0, 8191⟩] [⟨8192, 16383⟩]).masterIDs.flatMap
      (twoMasters [⟨0, 8191⟩] [⟨8192, 16383⟩]).rangesOf = [⟨0, 8191⟩, ⟨8192, 16383⟩] := by decide
  rw [Topology.RangesDisjoint, hranges, List.pairwise_pair]
  intro i hi hi'
  have h1 : i ≤ 8191 := hi.2
  have h2 : 8192 ≤ i := hi'.1
  omega

/-- Two halves of the slots. -/
theorem wellFormed_of_fresh :
    ((collectSlotTasks {} (twoMasters [⟨0, 8191⟩] [⟨8192, 16383⟩]) "m").tasks.map
        SlotTask.slot).Nodup ∧
      ∀ x ∈ (collectSlotTasks {} (twoMasters [⟨0, 8191⟩] [⟨8192, 16383⟩]) "m").tasks,
        x.toID = "c" ∧ x.fromID ≠ "c" := by
  obtain ⟨hnodup, htasks⟩ := collectSlotTasks_wellFormed {}
    (twoMasters [⟨0, 8191⟩] [⟨8192, 16383⟩]) "m" twoMasters_rangesDisjoint
  refine ⟨hnodup, fun x hx => ?_⟩
  obtain ⟨-, -, hto, hne⟩ := htasks x hx
  obtain hc : x.toID = "c" := List.mem_singleton.mp hto
  exact ⟨hc, hc ▸ hne⟩

/-! ### What the empty masters get -/

namespace Topology

variable {t : Topology}

theorem emptyIDs_getElem? {i : ℕ} {e : ClusterNode} (h : t.emptyNode i = some e) :
    t.emptyIDs[i]? = some e.id := by
  rw [emptyNode, Option.bind_eq_some_iff] at h
  obtain ⟨r, hr, he⟩ := h
  rw [emptyIDs, List.getElem?_map, hr, Option.map_some]
  rcases r with id | n
  · exact congrArg some (t.nodes_id id e he).symm
  · cases he
    rfl

/-- Empty masters of different names are different records. -/
theorem nodup_emptyKeys (h : t.emptyIDs.Nodup) : t.emptyKeys.Nodup := by
  refine List.nodup_iff_injective_get.mpr fun i j hij => Fin.ext ?_
  have hi : t.emptyKeys[i.1]? = some (t.emptyKeys.get i) := List.getElem?_eq_getElem i.2
  have hj : t.emptyKeys[j.1]? = some (t.emptyKeys.get i) := hij ▸ List.getElem?_eq_getElem j.2
  rw [emptyKeys_getElem?, Option.map_eq_some_iff] at hi hj
  obtain ⟨r, hr, hri⟩ := hi
  obtain ⟨r', hr', hrj⟩ := hj
  rw [← hri] at hrj
  rcases r with id | n <;> rcases r' with id' | n'
  · obtain rfl : id' = id := Sum.inl.inj hrj
    have hlt : i.1 < t.emptyIDs.length := by
      rw [emptyIDs, List.length_map]
      exact (List.getElem?_eq_some_iff.mp hr).1
    refine (List.getElem?_inj hlt h).mp ?_
    rw [emptyIDs, List.getElem?_map, List.getElem?_map, hr, hr']
  · cases hrj
  · cases hrj
  · exact (Sum.inr.inj hrj).symm

/-- Counting a slot on an empty master leaves the node of every name that is not shared. -/
theorem addEmptySlots_slotsNum_of_notMem {i : ℕ} {d : ℤ} {id : String}
    (hid : Sum.inl id ∉ t.emptyKeys) : (t.addEmptySlots i d).slotsNum id = t.slotsNum id := by
  rw [addEmptySlots]
  split
  · rfl
  · rename_i j hj
    have hne : id ≠ j := by
      rintro rfl
      refine hid (List.mem_of_getElem? (i := i) ?_)
      rw [emptyKeys_getElem?, hj]
      rfl
    rw [addNodeSlots_slotsNum fun h => absurd h hne, if_neg hne, add_zero]
  · rfl

end Topology

/-- What holds before a slot is planned and after it holds after the loop over a range. -/
theorem collectFromRange_inv {I : PlanState → Prop} {mgr : BaseNodeManager} {m : ClusterNode}
    {v : ℤ} (hstep : ∀ s e slotNum, I s → s.topo.emptyNode s.empIdx = some e →
      I (planSlot mgr m e v slotNum s)) (l : List ℤ) {s : PlanState} (hs : I s) :
    I (collectFromRange mgr m v l s) := by
  induction l generalizing s with
  | nil => exact hs
  | cons slotNum l ih =>
    rw [collectFromRange]
    split
    · exact hs
    rename_i e he
    split
    · exact hs
    dsimp only
    split
    · exact hstep s e slotNum hs he
    · exact ih (hstep s e slotNum hs he)

theorem visitMaster_inv {I : PlanState → Prop} {mgr : BaseNodeManager} {clusterName id : String}
    {v : ℤ} {s : PlanState} (hs : I s)
    (hstep : ∀ n, s.topo.nodes id = some n → v < n.slotsNum → ∀ s e slotNum, I s →
      s.topo.emptyNode s.empIdx = some e → I (planSlot mgr n e v slotNum s)) :
    I (visitMaster mgr clusterName v s id) := by
  rw [visitMaster]
  split
  · exact hs
  rename_i n hn
  split
  · exact hs
  rename_i hguard
  rw [not_or, not_or, not_le] at hguard
  exact List.foldlRecOn _ _ (motive := I) hs fun s' hs' r _ =>
    collectFromRange_inv (hstep n hn hguard.2.2) r.slotsDown hs'

/-- **The empty masters are being filled**: none is above `v`, and each has been given as many
slots as are counted on its record. -/
structure Fills (t : Topology) (v : ℕ) (s : PlanState) : Prop where
  tracks : Tracks t v s
  room : s.tasks.length ≤ t.empty.length * v
  reached : ∀ id ∈ t.emptyIDs, s.topo.slotsNum id ≤ v
  given : ∀ (i : ℕ) (id : String) (k : String ⊕ ℕ), t.emptyIDs[i]? = some id →
    t.emptyKeys[i]? = some k → (s.tasks.countP (fun x => x.toID = id) : ℤ) =
      (Bins.after t.emptyKeys v s.tasks.length).count k

section Fills

variable {mgr : BaseNodeManager} {t : Topology} {v : ℕ} {s : PlanState}

theorem Fills.init (h : t.EmptyMasters) : Fills t v { topo := t } where
  tracks := Tracks.init h
  room := Nat.zero_le _
  reached id hid := by
    rw [h.slotsNum_eq_zero hid]
    exact Int.natCast_nonneg v
  given _ _ _ _ _ := by simp [Bins.after]

/-- One slot is planned. -/
theorem Fills.planSlot {m e : ClusterNode} {slotNum : ℤ} (h : Fills t v s) (hv : 0 < v)
    (hids : t.emptyIDs.Nodup) (hm : m.id ∉ t.emptyIDs) (hnode : (t.nodes m.id).isSome)
    (he : s.topo.emptyNode s.empIdx = some e) : Fills t v (planSlot mgr m e v slotNum s) := by
  have hkeys := Topology.nodup_emptyKeys hids
  have htracks : Tracks t v (ClusterManager.planSlot mgr m e v slotNum s) :=
    h.tracks.planSlot hm hnode he
  have hlen : (ClusterManager.planSlot mgr m e v slotNum s).tasks.length = s.tasks.length + 1 := by
    simp [ClusterManager.planSlot]
  have hroom : (ClusterManager.planSlot mgr m e v slotNum s).tasks.length ≤
      t.empty.length * v := by
    have hopen := h.tracks.isSome_iff.mp (by rw [he]; rfl)
    rw [openAfter_iff_of_nodup hkeys hv, Topology.length_emptyKeys] at hopen
    omega
  refine ⟨htracks, hroom, fun id hid => ?_, fun i id k hi hk => ?_⟩
  · by_cases hshared : Sum.inl id ∈ t.emptyKeys
    · -- the node is the record that is counted on
      obtain ⟨i, hi⟩ := List.mem_iff_getElem?.mp hshared
      have hcount := htracks.count i _ hi
      rw [Topology.recordSlots] at hcount
      rw [← hcount]
      exact Bins.count_le_of_nodup hkeys hv (by rwa [Topology.length_emptyKeys]) hshared
    · have hne : id ≠ m.id := by
        rintro rfl
        exact hm hid
      change ((s.topo.addEmptySlots s.empIdx 1).addNodeSlots m.id (-1)).slotsNum id ≤ v
      rw [Topology.addNodeSlots_slotsNum fun heq => absurd heq hne, if_neg hne, add_zero,
        Topology.addEmptySlots_slotsNum_of_notMem (by rwa [h.tracks.keys])]
      exact h.reached id hid
  · obtain ⟨k₀, hk₀⟩ : ∃ k₀, t.emptyKeys[s.empIdx]? = some k₀ := by
      refine ⟨_, List.getElem?_eq_getElem ?_⟩
      rw [← h.tracks.keys, Topology.length_emptyKeys]
      exact Topology.emptyNode_isSome.mp (by rw [he]; rfl)
    have hid₀ : t.emptyIDs[s.empIdx]? = some e.id := h.tracks.ids ▸ Topology.emptyIDs_getElem? he
    have hgiven := h.given i id k hi hk
    rw [hlen, Bins.after_succ, Bins.place, h.tracks.cursor]
    simp only [hk₀, ClusterManager.planSlot, List.countP_append]
    rcases eq_or_ne i s.empIdx with rfl | hne
    · obtain rfl : k₀ = k := Option.some_inj.mp (hk₀.symm.trans hk)
      obtain rfl : e.id = id := Option.some_inj.mp (hid₀.symm.trans hi)
      rw [Function.update_self, ← hgiven]
      simp [buildSlotTask]
    · -- another entry has another name and another record
      have hkne : k ≠ k₀ := by
        rintro rfl
        exact hne ((List.getElem?_inj (List.getElem?_eq_some_iff.mp hk).1 hkeys).mp
          (hk.trans hk₀.symm))
      have hidne : e.id ≠ id := by
        rintro rfl
        exact hne ((List.getElem?_inj (List.getElem?_eq_some_iff.mp hi).1 hids).mp
          (hi.trans hid₀.symm))
      rw [Function.update_of_ne hkne, ← hgiven]
      simp [buildSlotTask, hidne]

end Fills

/-! ### The old masters have enough -/

namespace Topology

variable (t : Topology) (clusterName : String)

/-- An old master of the cluster: a known master that is none of the empty ones. -/
def IsOld (id : String) : Prop :=
  id ∈ t.masterIDs ∧ id ∉ t.emptyIDs ∧ ∃ n, t.nodes id = some n ∧ n.clusterName = clusterName

/-- Every slot is in a range of an old master. -/
def OldCover : Prop :=
  ∀ i : ℕ, i < totalSlots → ∃ id, t.IsOld clusterName id ∧ (i : ℤ) ∈ t.slotsOf id

/-- The count of an old master is the size of its ranges. -/
def OldCounts : Prop :=
  ∀ id, t.IsOld clusterName id → ∀ n, t.nodes id = some n → n.slotsNum = n.owned

variable {t clusterName}

/-- What the old masters have is at least all slots. -/
theorem OldCover.le_sum (hcover : t.OldCover clusterName) (hcounts : t.OldCounts clusterName)
    {O : Finset String} (hO : ∀ id, t.IsOld clusterName id → id ∈ O)
    (hO' : ∀ id ∈ O, t.IsOld clusterName id) : (totalSlots : ℤ) ≤ ∑ id ∈ O, t.slotsNum id := by
  have hsub : (List.range totalSlots).map (Nat.cast : ℕ → ℤ) ⊆ O.toList.flatMap t.slotsOf := by
    intro i hi
    obtain ⟨j, hj, rfl⟩ := List.mem_map.mp hi
    obtain ⟨id, hold, hmem⟩ := hcover j (List.mem_range.mp hj)
    exact List.mem_flatMap.mpr ⟨id, Finset.mem_toList.mpr (hO id hold), hmem⟩
  have hnodup : ((List.range totalSlots).map (Nat.cast : ℕ → ℤ)).Nodup :=
    List.nodup_range.map Nat.cast_injective
  have hle := (List.subperm_of_subset hnodup hsub).length_le
  have hsizes : ∀ id ∈ O, ((t.slotsOf id).length : ℤ) = t.slotsNum id := by
    intro id hid
    obtain ⟨-, -, n, hn, -⟩ := hO' id hid
    rw [length_slotsOf hn, ← hcounts id (hO' id hid) n hn, slotsNum, hn]
    rfl
  rw [List.length_map, List.length_range, List.length_flatMap, Finset.sum_map_toList] at hle
  rw [← Finset.sum_congr rfl hsizes]
  exact_mod_cast hle

end Topology

/-- Tasks from different masters are different tasks. -/
theorem sum_countP_fromID_le (O : Finset String) (tasks : List SlotTask) :
    ∑ id ∈ O, tasks.countP (fun x => x.fromID = id) ≤ tasks.length := by
  induction tasks with
  | nil => simp
  | cons x tasks ih =>
    simp only [List.countP_cons, List.length_cons, Finset.sum_add_distrib, decide_eq_true_eq,
      Finset.sum_ite_eq]
    split <;> omega

/-- What is true after the masters `P`: the empty masters are being filled, and as long as there
is room for more, every old master of `P` has given all it had above the share. -/
structure FillSpec (t : Topology) (clusterName : String) (P : List String) (s : PlanState) :
    Prop where
  fills : Fills t t.share s
  gave : openAfter t.emptyKeys t.share s.tasks.length → ∀ id ∈ P, t.IsOld clusterName id →
    t.slotsNum id ≤ t.share + (s.tasks.countP (fun x => x.fromID = id) : ℕ)

section Share

variable {mgr : BaseNodeManager} {t : Topology} {clusterName : String} {s : PlanState}
  {P : List String}

/-- A visit that plans nothing. -/
theorem FillSpec.idle (h : FillSpec t clusterName P s) {id : String}
    (hid : t.IsOld clusterName id → s.topo.slotsNum id ≤ t.share) :
    FillSpec t clusterName (P ++ [id]) s := by
  refine ⟨h.fills, fun hopen j hj hold => ?_⟩
  rcases List.mem_append.mp hj with hj | hj
  · exact h.gave hopen j hj hold
  · obtain rfl := List.mem_singleton.mp hj
    have hle := hid hold
    rw [h.fills.tracks.own j hold.2.1] at hle
    omega

/-- An old master above the share is drained. -/
theorem FillSpec.drain (mgr : BaseNodeManager) (hshare : 0 < t.share) (hids : t.emptyIDs.Nodup)
    (hempty : t.EmptyMasters) (hcounts : t.OldCounts clusterName) (h : FillSpec t clusterName P s)
    {id : String} (hold : t.IsOld clusterName id) (hlt : (t.share : ℤ) < s.topo.slotsNum id) :
    FillSpec t clusterName (P ++ [id]) (visitMaster mgr clusterName t.share s id) := by
  obtain ⟨n, hn, hcluster⟩ := hold.2.2
  obtain rfl : n.id = id := t.nodes_id id n hn
  have hown := h.fills.tracks.own n.id hold.2.1
  have hslots : t.slotsNum n.id = n.slotsNum := by
    rw [Topology.slotsNum, hn]
    rfl
  have hsurplus : 0 < t.surplus clusterName n.id := by
    simp only [Topology.surplus, hn, hcluster, if_true]
    omega
  have hdrained := visitMaster_of_surplus_pos mgr hempty h.fills.tracks hn hsurplus hlt
  have hquota := quota_le_drainBlocks (g := openAfter t.emptyKeys t.share)
    (B := n.slots.map SlotRange.size) (e := s.topo.slotsNum n.id - t.share)
    (t := s.tasks.length) (by
      have howned := hcounts n.id hold n hn
      rw [ClusterNode.owned] at howned
      omega)
  have hge := (drainBlocks_bounds (g := openAfter t.emptyKeys t.share)
    (n.slots.map SlotRange.size) (s.topo.slotsNum n.id - t.share) s.tasks.length).1
  refine ⟨?_, fun hopen j hj hj' => ?_⟩
  · refine visitMaster_inv (I := Fills t t.share) h.fills fun n' hn' _ s' e slotNum hs' he => ?_
    have hid' : n'.id = n.id := s.topo.nodes_id n.id n' hn'
    exact hs'.planSlot hshare hids (hid' ▸ hold.2.1) (by rw [hid', hn]; rfl) he
  · rw [hdrained.length] at hopen
    rcases eq_or_ne j n.id with rfl | hne
    · have hself := hdrained.countP_self
      have hmore := hquota.resolve_left (not_not_intro hopen)
      omega
    · rw [hdrained.countP_of_ne hne]
      refine h.gave (openAfter_of_le hge hopen) j ?_ hj'
      simpa [hne] using hj

theorem FillSpec.visit (mgr : BaseNodeManager) (hshare : 0 < t.share) (hids : t.emptyIDs.Nodup)
    (hempty : t.EmptyMasters) (hcounts : t.OldCounts clusterName) (h : FillSpec t clusterName P s)
    {id : String} (hmem : id ∈ t.masterIDs) :
    FillSpec t clusterName (P ++ [id]) (visitMaster mgr clusterName t.share s id) := by
  rcases hn : t.nodes id with _ | n
  · have hnone : s.topo.nodes id = none := by
      have hmap := h.fills.tracks.nodes id
      rw [hn, Option.map_none, Option.map_eq_none_iff] at hmap
      exact hmap
    rw [visitMaster, hnone]
    refine h.idle fun hold => ?_
    obtain ⟨n, hn', -⟩ := hold.2.2
    cases hn.symm.trans hn'
  by_cases hle : s.topo.slotsNum id ≤ t.share
  · rw [visitMaster_of_le mgr h.fills.tracks hn hle]
    exact h.idle fun _ => hle
  have hid : id ∉ t.emptyIDs := fun hid => hle (h.fills.reached id hid)
  by_cases hcluster : n.clusterName = clusterName
  · exact h.drain mgr hshare hids hempty hcounts ⟨hmem, hid, n, hn, hcluster⟩ (not_le.mp hle)
  · rw [visitMaster, h.fills.tracks.nodes_eq_some hn]
    simp only
    rw [if_pos (Or.inr (Or.inl hcluster))]
    refine h.idle fun hold => ?_
    obtain ⟨n', hn', hc⟩ := hold.2.2
    obtain rfl : n = n' := Option.some_inj.mp (hn.symm.trans hn')
    exact absurd hc hcluster

theorem planAfter_fills (mgr : BaseNodeManager) (hshare : 0 < t.share) (hids : t.emptyIDs.Nodup)
    (hempty : t.EmptyMasters) (hcounts : t.OldCounts clusterName) (P : List String)
    (hP : P ⊆ t.masterIDs) : FillSpec t clusterName P (planAfter mgr t clusterName P) := by
  induction P using List.reverseRec with
  | nil => exact ⟨Fills.init hempty, fun _ id hid => absurd hid (List.not_mem_nil)⟩
  | append_singleton P id ih =>
    rw [planAfter_concat]
    exact (ih fun j hj => hP (List.mem_append_left _ hj)).visit mgr hshare hids hempty hcounts
      (hP (by simp))

/-- What the old masters have above the share is enough for the empty ones. -/
theorem FillSpec.full (hshare : 0 < t.share) (hmasters : t.masterIDs.Nodup)
    (hids : t.emptyIDs.Nodup) (hsub : t.emptyIDs ⊆ t.masterIDs)
    (hcover : t.OldCover clusterName) (hcounts : t.OldCounts clusterName)
    (h : FillSpec t clusterName t.masterIDs s) : s.tasks.length = t.empty.length * t.share := by
  classical
  refine le_antisymm h.fills.room (not_lt.mp fun hlt => ?_)
  have hopen : openAfter t.emptyKeys t.share s.tasks.length := by
    rwa [openAfter_iff_of_nodup (Topology.nodup_emptyKeys hids) hshare, Topology.length_emptyKeys]
  let O := t.masterIDs.toFinset.filter fun id => t.IsOld clusterName id
  have hO : ∀ id, id ∈ O ↔ t.IsOld clusterName id := by
    intro id
    rw [Finset.mem_filter, List.mem_toFinset]
    exact and_iff_right_of_imp And.left
  have hslots := hcover.le_sum hcounts (fun id hid => (hO id).mpr hid) fun id hid => (hO id).mp hid
  -- the old masters are those that are not empty
  have hcard : O.card + t.empty.length ≤ t.masterIDs.length := by
    have hdis : Disjoint O t.emptyIDs.toFinset := by
      rw [Finset.disjoint_left]
      intro id hid hid'
      exact ((hO id).mp hid).2.1 (List.mem_toFinset.mp hid')
    have hle := Finset.card_le_card (s := O ∪ t.emptyIDs.toFinset) (t := t.masterIDs.toFinset) (by
      intro id hid
      rw [List.mem_toFinset]
      rcases Finset.mem_union.mp hid with hid | hid
      · exact ((hO id).mp hid).1
      · exact hsub (List.mem_toFinset.mp hid))
    rw [Finset.card_union_of_disjoint hdis, List.toFinset_card_of_nodup hids,
      List.toFinset_card_of_nodup hmasters, Topology.emptyIDs, List.length_map] at hle
    exact hle
  have hgave : ∑ id ∈ O, t.slotsNum id ≤ O.card * (t.share : ℤ) + s.tasks.length := by
    calc
      ∑ id ∈ O, t.slotsNum id
        ≤ ∑ id ∈ O, ((t.share : ℤ) + (s.tasks.countP (fun x => x.fromID = id) : ℕ)) :=
          Finset.sum_le_sum fun id hid =>
            h.gave hopen id ((hO id).mp hid).1 ((hO id).mp hid)
      _ = O.card * (t.share : ℤ) +
            (∑ id ∈ O, s.tasks.countP (fun x => x.fromID = id) : ℕ) := by
          rw [Finset.sum_add_distrib, Finset.sum_const, nsmul_eq_mul, Nat.cast_sum]
      _ ≤ O.card * (t.share : ℤ) + s.tasks.length := by
          have := sum_countP_fromID_le O s.tasks
          omega
  have hfloor : t.masterIDs.length * t.share ≤ totalSlots := Nat.mul_div_le _ _
  have hsplit : (O.card + t.empty.length) * t.share ≤ t.masterIDs.length * t.share :=
    Nat.mul_le_mul_right _ hcard
  rw [Nat.add_mul] at hsplit
  have htotal : (totalSlots : ℤ) ≤ (O.card * t.share + s.tasks.length : ℕ) := by
    push_cast
    exact hslots.trans hgave
  omega

end Share

/-- **Every empty master gets its share.** When the old masters have all slots, in ranges that
are counted right, and each master is listed once, the old ones and the empty ones, then the plan
gives each empty master the share, neither more nor less. -/
theorem collectSlotTasks_fills (mgr : BaseNodeManager) (t : Topology) (clusterName : String)
    (hcover : t.OldCover clusterName) (hcounts : t.OldCounts clusterName)
    (hmasters : t.masterIDs.Nodup) (hids : t.emptyIDs.Nodup) (hsub : t.emptyIDs ⊆ t.masterIDs)
    (hlen : t.masterIDs.length ≤ totalSlots) (hempty : t.EmptyMasters) :
    ∀ id ∈ t.emptyIDs, (collectSlotTasks mgr t clusterName).tasks.countP (fun x => x.toID = id) =
      totalSlots / t.masterIDs.length := by
  intro id hid
  have hshare : 0 < t.share := Nat.div_pos hlen (List.length_pos_of_mem (hsub hid))
  have hspec : FillSpec t clusterName t.masterIDs (collectSlotTasks mgr t clusterName) :=
    planAfter_fills mgr hshare hids hempty hcounts t.masterIDs (List.Subset.refl _)
  have hfull := hspec.full hshare hmasters hids hsub hcover hcounts
  obtain ⟨i, hi⟩ := List.mem_iff_getElem?.mp hid
  obtain ⟨k, hk⟩ : ∃ k, t.emptyKeys[i]? = some k := by
    refine ⟨_, List.getElem?_eq_getElem ?_⟩
    have hlt := (List.getElem?_eq_some_iff.mp hi).1
    rwa [Topology.length_emptyKeys, ← List.length_map]
  have hgiven := hspec.fills.given i id k hi hk
  rw [hfull, ← Topology.length_emptyKeys,
    Bins.count_of_full (Topology.nodup_emptyKeys hids) hshare (List.mem_of_getElem? hk)] at hgiven
  exact_mod_cast hgiven

theorem twoMasters_isOld {a b : List SlotRange} {id : String} (hid : id = "a" ∨ id = "b") :
    (twoMasters a b).IsOld "m" id := by
  rcases hid with rfl | rfl
  · exact ⟨by simp [twoMasters], by simp [twoMasters, Topology.emptyIDs], countedMaster "a" a,
      rfl, rfl⟩
  · exact ⟨by simp [twoMasters], by simp [twoMasters, Topology.emptyIDs], countedMaster "b" b,
      rfl, rfl⟩

theorem twoMasters_oldCover :
    (twoMasters [⟨0, 8191⟩] [⟨8192, 16383⟩]).OldCover "m" := by
  intro i hi
  have hlt : i < 16384 := hi
  rcases Nat.lt_or_ge i 8192 with hlow | hhigh
  · refine ⟨"a", twoMasters_isOld (Or.inl rfl), Topology.mem_slotsOf.mpr ⟨_, rfl, ⟨0, 8191⟩, ?_⟩⟩
    exact ⟨List.mem_singleton_self _, Int.natCast_nonneg i, show (i : ℤ) ≤ 8191 by omega⟩
  · refine ⟨"b", twoMasters_isOld (Or.inr rfl),
      Topology.mem_slotsOf.mpr ⟨_, rfl, ⟨8192, 16383⟩, ?_⟩⟩
    exact ⟨List.mem_singleton_self _, show (8192 : ℤ) ≤ i by omega,
      show (i : ℤ) ≤ 16383 by omega⟩

/-- A third master gets a third of the slots, rounded down. -/
theorem fills_of_fresh :
    (collectSlotTasks {} (twoMasters [⟨0, 8191⟩] [⟨8192, 16383⟩]) "m").tasks.countP
      (fun x => x.toID = "c") = 5461 := by
  refine (collectSlotTasks_fills {} (twoMasters [⟨0, 8191⟩] [⟨8192, 16383⟩]) "m"
    twoMasters_oldCover ?_ (by decide) (by decide) (by decide) (by decide)
    (twoMasters_emptyMasters _ _) "c" (by decide)).trans rfl
  exact fun id hold => twoMasters_countsSlots _ _ id hold.1

end ClusterManager
