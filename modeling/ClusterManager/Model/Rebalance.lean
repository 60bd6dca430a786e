import ClusterManager.Model.ClientReads
import ClusterManager.Model.PlannedTasks

/-!
# A plan that is carried out

The planner counts slots on records, the workers send commands, and Redis keeps the owners. Here
the three are put together: what the owners of the slots are when the workers have carried out a
plan and every migration has returned without an error. Then both sides of every planned slot name
the new owner (`owners_of_ok`), since the replies to the two hand-overs are the only ones that
count for the result, and the other slots are as they were (`owners_after`).

So what the plan says about tasks is true of slots. Each empty master owns exactly its share, each
slot has one owner, and an old master owns nothing that it did not own before
(`rebalanced_of_plan`). Commands about keys may have failed on the way; `reads_throughout` says
what that costs.
-/

namespace ClusterManager

open Drain

/-! ### The owners -/

section Owners

variable {hashSlot : String → ℤ} {f : Faults} {t : SlotTask} {s : SlotState}

theorem finalizeSlotMigration_owners
    (hok : ((finalizeSlotMigration t).run (slotCell hashSlot f) s).1 = .ok ()) (side : Side) :
    ((finalizeSlotMigration t).run (slotCell hashSlot f) s).2.owner side = t.toID := by
  rw [finalizeSlotMigration, Program.run_bind, Program.run_send] at hok ⊢
  rcases hdest : (slotCell hashSlot f s (.setNode .dest t.slot t.toID)).1 with err | _
  · rw [hdest] at hok
    cases hok
  rw [hdest] at hok
  dsimp only at hok ⊢
  rw [Program.run_bind, Program.run_send] at hok ⊢
  rcases hsource : (slotCell hashSlot f (slotCell hashSlot f s (.setNode .dest t.slot t.toID)).2
    (.setNode .source t.slot t.toID)).1 with err | _
  · rw [hsource] at hok
    cases hok
  simp only [Program.run_pure, listsOwnKeys_snd, slotHandler, SlotState.effect,
    if_pos (acts_of_reply hdest), if_pos (acts_of_reply hsource)]
  cases side with
  | source => exact Function.update_self _ _ _
  | dest => exact (Function.update_of_ne (by decide) _ _).trans (Function.update_self _ _ _)

/-- **A migration that returns without an error has handed the slot over**, on both sides. -/
theorem owners_of_ok (hok : ((migrateSlotShared t).run (slotCell hashSlot f) s).1 = .ok ())
    (side : Side) : ((migrateSlotShared t).run (slotCell hashSlot f) s).2.owner side = t.toID := by
  rw [migrateSlotShared, Program.run_bind] at hok ⊢
  rcases hsetup : ((setupSlotMigration t).run (slotCell hashSlot f) s).1 with err | _
  · rw [hsetup] at hok
    cases hok
  rw [hsetup] at hok
  dsimp only at hok ⊢
  rw [Program.run_bind] at hok ⊢
  split at hok
  · rename_i hkeys
    rw [if_pos hkeys]
    rw [Program.run_bind] at hok ⊢
    exact finalizeSlotMigration_owners hok side
  · rename_i hkeys
    rw [if_neg hkeys]
    exact finalizeSlotMigration_owners hok side

section Finished

variable {f : SlotTask → Faults} {tasks : List SlotTask} {st : ℤ → SlotState} {n : ℕ}
  {z : List (Crew SlotTask SlotCmd SlotCmd.Reply (Except String Unit)) × (ℤ → SlotState)}
  (hslots : (tasks.map SlotTask.slot).Nodup)
  (hrun : MigrationRun hashSlot (fun t => slotHandler (f t)) tasks st n z)
  (hidle : Crew.Idle z.1)

include hslots hrun hidle

/-- What the workers leave is what each migration leaves alone. -/
theorem finished_alone :
    (Crew.results z.1).Perm (tasks.map fun t =>
        (t, ((migrateSlotShared t).run (slotCell hashSlot (f t)) (st t.slot)).1)) ∧
      (∀ t ∈ tasks,
        z.2 t.slot = ((migrateSlotShared t).run (slotCell hashSlot (f t)) (st t.slot)).2) ∧
      ∀ slot, (∀ t ∈ tasks, t.slot ≠ slot) → z.2 slot = st slot := by
  have hperm := flatten_groupSlotTasks_perm tasks
  have hacts := fun t (_ : t ∈ tasks) => migrateSlotShared_onSlot hashSlot (slotHandler (f t)) t
  obtain ⟨hresults, hstore⟩ := hrun.inOrder ((hperm.map SlotTask.slot).nodup_iff.mpr hslots)
    (fun t ht => hacts t (hperm.subset ht)) hperm hidle
  rw [Crew.inOrder_results hslots hacts st] at hresults
  rw [hstore]
  exact ⟨hresults, Crew.inOrder_store hslots hacts st⟩

/-- The owners when no migration has returned an error. -/
theorem owners_after (hok : ∀ x ∈ Crew.results z.1, x.2 = .ok ()) :
    (∀ t ∈ tasks, ∀ side, (z.2 t.slot).owner side = t.toID) ∧
      ∀ slot, (∀ t ∈ tasks, t.slot ≠ slot) → z.2 slot = st slot := by
  obtain ⟨hresults, hcells, hframe⟩ := finished_alone hslots hrun hidle
  refine ⟨fun t ht side => ?_, hframe⟩
  rw [hcells t ht]
  exact owners_of_ok (hok _ (hresults.symm.subset (List.mem_map_of_mem ht))) side

end Finished

end Owners

/-! ### The share -/

/-- What the plan gives an empty master. -/
theorem countP_toID_of_fills {t : Topology} {clusterName id : String} {s : PlanState}
    (hspec : FillSpec t clusterName t.masterIDs s) (hshare : 0 < t.share)
    (hids : t.emptyIDs.Nodup) (hfull : s.tasks.length = t.empty.length * t.share)
    (hid : id ∈ t.emptyIDs) : s.tasks.countP (fun x => x.toID = id) = t.share := by
  obtain ⟨i, hi⟩ := List.mem_iff_getElem?.mp hid
  have hlt : i < t.emptyKeys.length := by
    rw [Topology.length_emptyKeys, ← List.length_map]
    exact (List.getElem?_eq_some_iff.mp hi).1
  have hgiven := hspec.fills.given i id _ hi (List.getElem?_eq_getElem hlt)
  rw [hfull, ← Topology.length_emptyKeys, Bins.count_of_full (Topology.nodup_emptyKeys hids) hshare
    (List.getElem_mem hlt)] at hgiven
  exact_mod_cast hgiven

/-- A master that owns nothing but slots of the tasks owns as many as they give it. -/
theorem countP_owner {tasks : List SlotTask} (hslots : (tasks.map SlotTask.slot).Nodup)
    (hwithin : ∀ x ∈ tasks, 0 ≤ x.slot ∧ x.slot < totalSlots) {st : ℤ → SlotState} {id : String}
    (hmoved : ∀ x ∈ tasks, (st x.slot).owner .source = x.toID)
    (hrest : ∀ i : ℕ, i < totalSlots → (∀ x ∈ tasks, x.slot ≠ i) → (st i).owner .source ≠ id) :
    (List.range totalSlots).countP (fun i : ℕ => (st i).owner .source = id) =
      tasks.countP fun x => x.toID = id := by
  rw [List.countP_eq_length_filter, List.countP_eq_length_filter,
    ← List.length_map (Nat.cast : ℕ → ℤ), ← List.length_map SlotTask.slot]
  refine List.Perm.length_eq ((List.perm_ext_iff_of_nodup ?_ ?_).mpr fun i => ?_)
  · exact (List.nodup_range.filter _).map Nat.cast_injective
  · exact hslots.sublist (List.filter_sublist.map _)
  simp only [List.mem_map, List.mem_filter, List.mem_range, decide_eq_true_eq]
  constructor
  · rintro ⟨j, ⟨hj, howner⟩, rfl⟩
    by_cases htask : ∃ x ∈ tasks, x.slot = j
    · obtain ⟨x, hx, hxj⟩ := htask
      exact ⟨x, ⟨hx, (hmoved x hx).symm.trans (hxj ▸ howner)⟩, hxj⟩
    · push Not at htask
      exact absurd howner (hrest j hj htask)
  · rintro ⟨x, ⟨hx, hto⟩, rfl⟩
    obtain ⟨hlow, hhigh⟩ := hwithin x hx
    obtain ⟨j, hj⟩ := Int.eq_ofNat_of_zero_le hlow
    exact ⟨j, ⟨by omega, by rw [← hj, hmoved x hx, hto]⟩, hj.symm⟩

/-- Redis names the owners that the manager knows, and the ranges are ranges of slots. -/
structure Topology.OwnedIn (t : Topology) (st : ℤ → SlotState) : Prop where
  owner : ∀ id ∈ t.masterIDs, ∀ i ∈ t.slotsOf id, ∀ side, (st i).owner side = id
  within : ∀ id ∈ t.masterIDs, ∀ i ∈ t.slotsOf id, 0 ≤ i ∧ i < totalSlots

/-- **A plan that is carried out rebalances the cluster**, whatever the order of the commands. Each
slot has one owner, each empty master owns its share, and the others own nothing new. -/
theorem rebalanced_of_plan (mgr : BaseNodeManager) (t : Topology) (clusterName : String)
    (hdisjoint : t.RangesDisjoint) (hcover : t.OldCover clusterName)
    (hcounts : t.OldCounts clusterName) (hmasters : t.masterIDs.Nodup) (hids : t.emptyIDs.Nodup)
    (hsub : t.emptyIDs ⊆ t.masterIDs) (hlen : t.masterIDs.length ≤ totalSlots)
    (hempty : t.EmptyMasters) (hashSlot : String → ℤ) (f : SlotTask → Faults)
    (st : ℤ → SlotState) (howned : t.OwnedIn st) {n : ℕ}
    {z : List (Crew SlotTask SlotCmd SlotCmd.Reply (Except String Unit)) × (ℤ → SlotState)}
    (hrun : MigrationRun hashSlot (fun t => slotHandler (f t))
      (collectSlotTasks mgr t clusterName).tasks st n z)
    (hidle : Crew.Idle z.1) (hok : ∀ x ∈ Crew.results z.1, x.2 = .ok ()) :
    (∀ i : ℕ, i < totalSlots → ∃ id ∈ t.masterIDs, ∀ side, (z.2 i).owner side = id) ∧
    (∀ id ∈ t.emptyIDs,
      (List.range totalSlots).countP (fun i : ℕ => (z.2 i).owner .source = id) = t.share) ∧
    ∀ id ∉ t.emptyIDs, ∀ i side, (z.2 i).owner side = id → (st i).owner side = id := by
  have hshape : PlanShape t t.masterIDs (collectSlotTasks mgr t clusterName) :=
    planAfter_shape mgr t clusterName t.masterIDs
  have hslots := hdisjoint.nodup.sublist hshape.slots
  obtain ⟨hmoved, hrest⟩ := owners_after hslots hrun hidle hok
  -- a slot without a task has an old owner
  have hold : ∀ i : ℕ, i < totalSlots →
      (∀ x ∈ (collectSlotTasks mgr t clusterName).tasks, x.slot ≠ i) →
      ∃ id ∈ t.masterIDs, id ∉ t.emptyIDs ∧ ∀ side, (z.2 i).owner side = id := by
    intro i hi hno
    obtain ⟨id, ⟨hmem, hnot, -⟩, hslot⟩ := hcover i hi
    exact ⟨id, hmem, hnot, fun side => by rw [hrest i hno, howned.owner id hmem i hslot]⟩
  refine ⟨fun i hi => ?_, fun id hid => ?_, fun id hnot i side howner => ?_⟩
  · by_cases htask : ∃ x ∈ (collectSlotTasks mgr t clusterName).tasks, x.slot = i
    · obtain ⟨x, hx, hxi⟩ := htask
      exact ⟨x.toID, hsub (hshape.tasks x hx).2.2.1, fun side => hxi ▸ hmoved x hx side⟩
    · push Not at htask
      obtain ⟨id, hmem, -, howner⟩ := hold i hi htask
      exact ⟨id, hmem, howner⟩
  · have hshare : 0 < t.share := Nat.div_pos hlen (List.length_pos_of_mem (hsub hid))
    have hspec : FillSpec t clusterName t.masterIDs (collectSlotTasks mgr t clusterName) :=
      planAfter_fills mgr hshare hids hempty hcounts t.masterIDs (List.Subset.refl _)
    have hfull := hspec.full hshare hmasters hids hsub hcover hcounts
    rw [← countP_toID_of_fills hspec hshare hids hfull hid]
    refine countP_owner hslots (fun x hx => ?_) (fun x hx => hmoved x hx .source) fun i hi hno => ?_
    · obtain ⟨hfrom, hslot, -⟩ := hshape.tasks x hx
      exact howned.within x.fromID hfrom x.slot hslot
    · obtain ⟨id', -, hnot, howner⟩ := hold i hi hno
      exact fun heq => hnot ((howner .source).symm.trans heq ▸ hid)
  · by_cases htask : ∃ x ∈ (collectSlotTasks mgr t clusterName).tasks, x.slot = i
    · obtain ⟨x, hx, rfl⟩ := htask
      exact absurd ((hmoved x hx side).symm.trans howner ▸ (hshape.tasks x hx).2.2.1) hnot
    · push Not at htask
      rwa [hrest i htask] at howner

/-! ### A third master -/

/-- Without failures every migration returns without an error. -/
theorem ok_of_no_faults {hashSlot : String → ℤ} {t : SlotTask} {s : SlotState} :
    ((migrateSlotShared t).run (slotCell hashSlot {}) s).1 = .ok () := by
  have hsetup : ((setupSlotMigration t).run (slotCell hashSlot {}) s).1 = .ok () := rfl
  rw [migrateSlotShared, Program.run_bind, hsetup]
  dsimp only
  rw [Program.run_bind]
  split
  · rw [Program.run_bind]
    rfl
  · rfl

theorem results_ok_of_no_faults {hashSlot : String → ℤ} {tasks : List SlotTask}
    (hslots : (tasks.map SlotTask.slot).Nodup) {st : ℤ → SlotState} {n : ℕ}
    {z : List (Crew SlotTask SlotCmd SlotCmd.Reply (Except String Unit)) × (ℤ → SlotState)}
    (hrun : MigrationRun hashSlot (fun _ => slotHandler {}) tasks st n z)
    (hidle : Crew.Idle z.1) : ∀ x ∈ Crew.results z.1, x.2 = .ok () := by
  intro x hx
  obtain ⟨t, -, rfl⟩ := List.mem_map.mp ((finished_alone (f := fun _ => {}) hslots hrun
    hidle).1.subset hx)
  exact ok_of_no_faults

/-- The slots of two masters, without keys. -/
def halves : ℤ → SlotState := fun i =>
  { source := [], owner := fun _ => if i ≤ 8191 then "a" else "b" }

theorem halves_ownedIn : (twoMasters [⟨0, 8191⟩] [⟨8192, 16383⟩]).OwnedIn halves := by
  have hslots : ∀ id, ∀ i ∈ (twoMasters [⟨0, 8191⟩] [⟨8192, 16383⟩]).slotsOf id,
      id = "a" ∧ 0 ≤ i ∧ i ≤ 8191 ∨ id = "b" ∧ 8192 ≤ i ∧ i ≤ 16383 := by
    intro id i hi
    obtain ⟨n, hn, r, hr, hlow, hhigh⟩ := Topology.mem_slotsOf.mp hi
    simp only [twoMasters] at hn
    split_ifs at hn with ha hb
    all_goals cases hn
    · obtain rfl := List.mem_singleton.mp hr
      exact Or.inl ⟨ha, hlow, hhigh⟩
    · obtain rfl := List.mem_singleton.mp hr
      exact Or.inr ⟨hb, hlow, hhigh⟩
    · cases hr
  constructor
  · intro id _ i hi side
    rcases hslots id i hi with ⟨rfl, -, hhigh⟩ | ⟨rfl, hlow, -⟩
    · exact if_pos hhigh
    · exact if_neg (by omega)
  · intro id _ i hi
    have htotal : (totalSlots : ℤ) = 16384 := rfl
    rcases hslots id i hi with ⟨-, hlow, hhigh⟩ | ⟨-, hlow, hhigh⟩ <;> omega

/-- Two masters share their slots with a third one. -/
theorem rebalanced_third_master :
    ∃ n z, MigrationRun (fun _ => 0) (fun _ => slotHandler {})
        (collectSlotTasks {} (twoMasters [⟨0, 8191⟩] [⟨8192, 16383⟩]) "m").tasks halves n z ∧
      Crew.Idle z.1 ∧
      (List.range totalSlots).countP (fun i : ℕ => (z.2 i).owner .source = "c") = 5461 := by
  have hslots := twoMasters_rangesDisjoint.nodup.sublist (planAfter_shape {}
    (twoMasters [⟨0, 8191⟩] [⟨8192, 16383⟩]) "m" ["a", "b", "c"]).slots
  obtain ⟨n, z, hrun, hidle⟩ := exists_finished (fun _ => 0) (fun _ => {}) hslots halves
  obtain ⟨-, hshare, -⟩ := rebalanced_of_plan {} (twoMasters [⟨0, 8191⟩] [⟨8192, 16383⟩]) "m"
    twoMasters_rangesDisjoint twoMasters_oldCover
    (fun id hold => twoMasters_countsSlots _ _ id hold.1) (by decide) (by decide) (by decide)
    (by decide) (twoMasters_emptyMasters _ _) (fun _ => 0) (fun _ => {}) halves halves_ownedIn hrun
    hidle (results_ok_of_no_faults hslots hrun hidle)
  exact ⟨n, z, hrun, hidle, (hshare "c" (by decide)).trans rfl⟩

end ClusterManager
