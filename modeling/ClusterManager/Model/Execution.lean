import ClusterManager.Lib.Pool
import ClusterManager.Model.Manager

/-!
# Carrying out a scale-out

`migrateSlotsToEmptyNode` plans the moves (`ClusterManager.Model.Planning`), groups them by
the node they take slots from, and runs the groups side by side, sixteen workers each.
`Executes` says which results the workers can come to; whatever they are, each task has
been attempted once (`Executes.perm`).

The errors of the tasks go into a channel, from there into the log, and no further. So
the operation returns without an error whenever it comes to the end, and what it returns
says nothing about the tasks: `migrateSlotsToEmptyNode_reports_iff`.
-/

namespace ClusterManager

/-- The workers of each group. -/
def migrationWorkers : ℕ := 16

/-- Put a task into the group of its source, a new one if there is none. -/
def addToGroup (t : SlotTask) : List MigrationGroup → List MigrationGroup
  | [] => [{ tasks := [t], fromIP := t.fromIP, fromHostPort := t.fromHostPort }]
  | g :: gs => if g.fromIP = t.fromIP then { g with tasks := g.tasks ++ [t] } :: gs
    else g :: addToGroup t gs

def groupSlotTasks (tasks : List SlotTask) : List MigrationGroup :=
  tasks.foldl (fun gs t => addToGroup t gs) []

/-- The results the workers can come to, in any order. -/
def Executes (groups : List MigrationGroup) (results : List (SlotTask × Except String Unit)) :
    Prop :=
  ∃ ps, Pool.Run migrationWorkers (Pool.start (groups.map MigrationGroup.tasks)) ps ∧
    Pool.Idle ps ∧ results.Perm (Pool.results ps)

/-- Run the groups. The errors of the tasks are logged. -/
def executeSlotMigration (groups : List MigrationGroup) : ManagerM PUnit := do
  let _ ← ManagerM.redis (.migrateSlots groups)
  return ⟨⟩

/-- The slots of the tasks lie between these two. -/
def slotBounds (tasks : List SlotTask) : ℤ × ℤ :=
  match tasks with
  | [] => (0, 0)
  | t :: rest =>
    rest.foldl (fun (lo, hi) t =>
      (if t.slot < lo then t.slot else lo, if hi < t.slot then t.slot else hi)) (t.slot, t.slot)

def invalidateCacheAfterMigration (tasks : List SlotTask) : ManagerM PUnit := do
  let (minSlot, maxSlot) := slotBounds tasks
  let _ ← ManagerM.redis (.invalidateSlots minSlot maxSlot)
  return ⟨⟩

def migrateSlotsToEmptyNode (clusterName : String) : ManagerM PUnit := do
  let c ← get
  if c.topo.empty = [] then Session.fail "no Empty master"
  if c.topo.masterIDs = [] then Session.fail "no master nodes for slot migration"
  let plan := collectSlotTasks c.nodeManager c.topo clusterName
  set { c with topo := plan.topo }
  if plan.tasks = [] then return ⟨⟩
  executeSlotMigration (groupSlotTasks plan.tasks)
  if c.cacheInvalidator then invalidateCacheAfterMigration plan.tasks
  printClusterNodesInfo

/-! ### Each task is attempted once -/

theorem addToGroup_tasks_perm (t : SlotTask) (gs : List MigrationGroup) :
    ((addToGroup t gs).flatMap MigrationGroup.tasks).Perm
      (gs.flatMap MigrationGroup.tasks ++ [t]) := by
  induction gs with
  | nil => exact List.Perm.refl _
  | cons g gs ih =>
    rw [addToGroup]
    split
    · rw [List.flatMap_cons, List.flatMap_cons, List.append_assoc, List.append_assoc]
      exact (List.perm_append_comm).append_left _
    · rw [List.flatMap_cons, List.flatMap_cons, List.append_assoc]
      exact ih.append_left _

/-- Grouping keeps the tasks. -/
theorem groupSlotTasks_perm (tasks : List SlotTask) :
    ((groupSlotTasks tasks).flatMap MigrationGroup.tasks).Perm tasks := by
  have key : ∀ gs, ((tasks.foldl (fun gs t => addToGroup t gs) gs).flatMap
      MigrationGroup.tasks).Perm (gs.flatMap MigrationGroup.tasks ++ tasks) := by
    induction tasks with
    | nil => exact fun gs => by simp
    | cons t tasks ih =>
      intro gs
      refine (ih (addToGroup t gs)).trans ?_
      refine ((addToGroup_tasks_perm t gs).append_right tasks).trans ?_
      rw [List.append_assoc, List.singleton_append]
  exact key []

/-- **Each planned task is attempted once.** -/
theorem Executes.perm {tasks : List SlotTask} {results : List (SlotTask × Except String Unit)}
    (h : Executes (groupSlotTasks tasks) results) : (results.map Prod.fst).Perm tasks := by
  obtain ⟨ps, hrun, hidle, hperm⟩ := h
  refine (hperm.map _).trans ((Pool.results_perm hrun hidle).trans ?_)
  rw [← List.flatMap_def]
  exact groupSlotTasks_perm tasks

/-- The workers can come to any pattern of results. -/
theorem executes_of_pattern (groups : List MigrationGroup)
    (f : SlotTask → Except String Unit) :
    Executes groups ((groups.flatMap MigrationGroup.tasks).map fun t => (t, f t)) := by
  obtain ⟨ps, hrun, hidle, hres⟩ :=
    Pool.exists_complete (show 0 < migrationWorkers by decide) f (groups.map MigrationGroup.tasks)
  refine ⟨ps, hrun, hidle, ?_⟩
  rw [hres, ← List.flatMap_def]

/-! ### What the operation reports -/

section Report

variable {σ : Type} (h : Handler RedisCmd RedisCmd.Reply σ) (clusterName : String) (c : Manager)
  (s : σ)

/-- The results of the migrations that the operation has run. -/
def migrationResults : List (SlotTask × Except String Unit) :=
  (Session.sent h (migrateSlotsToEmptyNode clusterName) c s).flatMap fun x =>
    match x with
    | (.migrateSlots groups, s) => (h s (.migrateSlots groups)).1
    | _ => []

/-- The operation returns without an error only if each planned task has been run and
every run of it has succeeded. -/
def ReportsFailures : Prop :=
  (Session.exec h (migrateSlotsToEmptyNode clusterName) c s).1.1 = .ok ⟨⟩ →
    ∀ t ∈ (collectSlotTasks c.nodeManager c.topo clusterName).tasks,
      (t, .ok ()) ∈ migrationResults h clusterName c s ∧
        ∀ r, (t, r) ∈ migrationResults h clusterName c s → r = .ok ()

/-- What the workers come to on the planned tasks. -/
def plannedResults : List (SlotTask × Except String Unit) :=
  (h s (.migrateSlots (groupSlotTasks
    (collectSlotTasks c.nodeManager c.topo clusterName).tasks))).1

/-- Where Redis is after the migration, the cache having been told. -/
def afterMigration : σ :=
  let tasks := (collectSlotTasks c.nodeManager c.topo clusterName).tasks
  let s := (h s (.migrateSlots (groupSlotTasks tasks))).2
  if c.cacheInvalidator then
    (h s (.invalidateSlots (slotBounds tasks).1 (slotBounds tasks).2)).2
  else s

/-- The first node answers the closing `CLUSTER NODES`. -/
def ClosingAnswered : Prop :=
  ∃ node text, c.nodeManager.nodes.head? = some node ∧
    (h (afterMigration h clusterName c s) (.clusterNodes node.clientConnAddr)).1 = .ok text

variable {h clusterName c s}

theorem exec_printClusterNodesInfo :
    (Session.exec h printClusterNodesInfo c s).1.1 = .ok ⟨⟩ ↔
      ∃ node text, c.nodeManager.nodes.head? = some node ∧
        (h s (.clusterNodes node.clientConnAddr)).1 = .ok text := by
  rw [printClusterNodesInfo, Session.exec_bind, Session.exec_get]
  cases hnodes : c.nodeManager.nodes with
  | nil => simp only [hnodes, Session.exec_fail]; simp
  | cons node nodes =>
    simp only [hnodes]
    rw [Session.exec_bind, ManagerM.exec_redis]
    cases hr : (h s (.clusterNodes node.clientConnAddr)).1 with
    | error err => simp [hr, Except.map]
    | ok text => simp [hr, Except.map]

theorem sent_printClusterNodesInfo :
    ∀ x ∈ Session.sent h printClusterNodesInfo c s, ∃ addr, x.1 = .clusterNodes addr := by
  rw [printClusterNodesInfo, Session.sent_bind, Session.exec_get]
  cases hnodes : c.nodeManager.nodes with
  | nil => simp only [hnodes, Session.sent_fail]; simp
  | cons node nodes =>
    simp only [hnodes]
    rw [Session.sent_bind, ManagerM.sent_redis, ManagerM.exec_redis]
    cases hr : (h s (.clusterNodes node.clientConnAddr)).1 with
    | error err => simp
    | ok text => simp

@[simp] theorem exec_executeSlotMigration (groups : List MigrationGroup) :
    Session.exec h (executeSlotMigration groups) c s =
      ((.ok ⟨⟩, c), (h s (.migrateSlots groups)).2) := rfl

@[simp] theorem sent_executeSlotMigration (groups : List MigrationGroup) :
    Session.sent h (executeSlotMigration groups) c s = [(.migrateSlots groups, s)] := rfl

@[simp] theorem exec_invalidateCacheAfterMigration (tasks : List SlotTask) :
    Session.exec h (invalidateCacheAfterMigration tasks) c s =
      ((.ok ⟨⟩, c), (h s (.invalidateSlots (slotBounds tasks).1 (slotBounds tasks).2)).2) := rfl

@[simp] theorem sent_invalidateCacheAfterMigration (tasks : List SlotTask) :
    Session.sent h (invalidateCacheAfterMigration tasks) c s =
      [(.invalidateSlots (slotBounds tasks).1 (slotBounds tasks).2, s)] := rfl

section Planned

variable (hempty : c.topo.empty ≠ []) (hmasters : c.topo.masterIDs ≠ [])
  (htasks : (collectSlotTasks c.nodeManager c.topo clusterName).tasks ≠ [])

include hempty hmasters htasks

/-- With something to do, how the operation ends is decided by its last command. -/
theorem exec_migrateSlotsToEmptyNode :
    Session.exec h (migrateSlotsToEmptyNode clusterName) c s =
      Session.exec h printClusterNodesInfo
        { c with topo := (collectSlotTasks c.nodeManager c.topo clusterName).topo }
        (afterMigration h clusterName c s) := by
  rw [migrateSlotsToEmptyNode, Session.exec_bind, Session.exec_get]
  simp only [if_neg hempty, if_neg hmasters, if_neg htasks]
  rw [Session.exec_bind, Session.exec_set]
  simp only [Session.exec_bind, exec_executeSlotMigration]
  rw [afterMigration]
  split <;> simp [Session.exec_bind]

/-- The only results are those of the planned tasks. -/
theorem migrationResults_eq :
    migrationResults h clusterName c s = plannedResults h clusterName c s := by
  -- what is sent after the migration tells no result
  have hrest : ∀ (m : Manager) (s' : σ),
      ((Session.sent h printClusterNodesInfo m s').flatMap fun x => match x with
        | (.migrateSlots groups, s) => (h s (.migrateSlots groups)).1
        | _ => []) = [] := by
    intro m s'
    refine List.flatMap_eq_nil_iff.mpr ?_
    rintro ⟨cmd, s''⟩ hx
    obtain ⟨addr, rfl : cmd = _⟩ := sent_printClusterNodesInfo _ hx
    rfl
  rw [migrationResults, migrateSlotsToEmptyNode, Session.sent_bind, Session.exec_get]
  simp only [if_neg hempty, if_neg hmasters, if_neg htasks]
  rw [Session.sent_bind, Session.exec_set]
  simp only [Session.sent_bind, exec_executeSlotMigration, sent_executeSlotMigration]
  split
  · simp [Session.sent_bind, hrest, plannedResults]
  · simp [hrest, plannedResults]

end Planned

variable (h clusterName c s) in
/-- **When a failed migration is reported.** The operation returns an error before it has
planned anything when there is no empty master or no master, and it returns one at its
end when the closing `CLUSTER NODES` is not answered. In every other case it returns
without an error, so then the failures are reported when there are none. -/
theorem migrateSlotsToEmptyNode_reports_iff
    (hexec : ∀ s groups, Executes groups (h s (.migrateSlots groups)).1) :
    ReportsFailures h clusterName c s ↔
      c.topo.empty = [] ∨ c.topo.masterIDs = [] ∨
        (∀ x ∈ plannedResults h clusterName c s, x.2 = .ok ()) ∨
          ¬ ClosingAnswered h clusterName c s := by
  by_cases hempty : c.topo.empty = []
  · simp [ReportsFailures, migrateSlotsToEmptyNode, hempty, Session.exec_bind]
  by_cases hmasters : c.topo.masterIDs = []
  · simp [ReportsFailures, migrateSlotsToEmptyNode, hempty, hmasters, Session.exec_bind]
  have hperm : ((plannedResults h clusterName c s).map Prod.fst).Perm
      (collectSlotTasks c.nodeManager c.topo clusterName).tasks := (hexec _ _).perm
  simp only [hempty, hmasters, false_or]
  by_cases htasks : (collectSlotTasks c.nodeManager c.topo clusterName).tasks = []
  · rw [htasks, List.perm_nil, List.map_eq_nil_iff] at hperm
    simp [ReportsFailures, htasks, hperm]
  have hmem : ∀ x ∈ plannedResults h clusterName c s,
      x.1 ∈ (collectSlotTasks c.nodeManager c.topo clusterName).tasks := fun x hx =>
    hperm.subset (List.mem_map_of_mem hx)
  have hdone : (Session.exec h (migrateSlotsToEmptyNode clusterName) c s).1.1 = .ok ⟨⟩ ↔
      ClosingAnswered h clusterName c s := by
    rw [exec_migrateSlotsToEmptyNode hempty hmasters htasks]
    exact exec_printClusterNodesInfo
  rw [ReportsFailures, hdone, migrationResults_eq hempty hmasters htasks]
  constructor
  · intro hrep
    by_cases hclose : ClosingAnswered h clusterName c s
    · exact Or.inl fun x hx => (hrep hclose x.1 (hmem x hx)).2 x.2 hx
    · exact Or.inr hclose
  · rintro (hall | hclose) hok t ht
    · obtain ⟨⟨t', r⟩, hx, rfl⟩ := List.mem_map.mp (hperm.symm.subset ht)
      obtain rfl : r = .ok () := hall _ hx
      exact ⟨hx, fun r hr => hall _ hr⟩
    · exact absurd hok hclose

end Report

/-! ### Redis with a pattern of failures -/

/-- Redis that answers everything, the migration of each task with what `f` says. -/
def patternRedis (f : SlotTask → Except String Unit) :
    Handler RedisCmd RedisCmd.Reply Unit := fun s c =>
  match c with
  | .clusterNodes _ => (.ok "", s)
  | .clusterMeet _ _ _ | .clusterReplicate _ _ | .clusterForget _ _ | .clusterAddSlots _ _ =>
    (.ok (), s)
  | .migrateSlots groups => ((groups.flatMap MigrationGroup.tasks).map fun t => (t, f t), s)
  | .invalidateSlots _ _ => ((), s)

theorem patternRedis_executes (f : SlotTask → Except String Unit) (s : Unit)
    (groups : List MigrationGroup) : Executes groups (patternRedis f s (.migrateSlots groups)).1 :=
  executes_of_pattern groups f

theorem plannedResults_patternRedis {f : SlotTask → Except String Unit} {clusterName : String}
    {c : Manager} {s : Unit} {x : SlotTask × Except String Unit}
    (hx : x ∈ plannedResults (patternRedis f) clusterName c s) : x.2 = f x.1 := by
  obtain ⟨t, -, rfl⟩ := List.mem_map.mp hx
  rfl

/-- A manager that is about to scale out two masters by a third one. -/
def scalingManager : Manager where
  topo := twoMasters [⟨0, 8191⟩] [⟨8192, 16383⟩]
  nodeManager := BaseNodeManager.addNode {}
    { name := "m-redis-1", id := "1", hostIP := "127.0.0.1", hostPort := 40001
      conIp := "a", conPort := 6379, clusterName := "m" }
  nodesPerShard := 1

theorem scalingManager_tasks_ne_nil :
    (collectSlotTasks scalingManager.nodeManager scalingManager.topo "m").tasks ≠ [] :=
  collectSlotTasks_ne_nil _ (twoMasters_countsSlots _ _) (twoMasters_emptyMasters _ _)
    (by decide) (show "a" ∈ ["a", "b", "c"] by decide) (by decide)

/-- With no failure there is nothing to report. -/
theorem reportsFailures_of_no_failure :
    ReportsFailures (patternRedis fun _ => .ok ()) "m" scalingManager () := by
  refine (migrateSlotsToEmptyNode_reports_iff _ _ _ _ (patternRedis_executes _)).mpr
    (Or.inr (Or.inr (Or.inl ?_)))
  exact fun x hx => plannedResults_patternRedis hx

/-- Every slot fails to move, and the operation returns without an error. -/
theorem not_reportsFailures_of_all_failed :
    ¬ ReportsFailures (patternRedis fun _ => .error "CLUSTERDOWN") "m" scalingManager () := by
  intro hrep
  have htasks := scalingManager_tasks_ne_nil
  have hok : (Session.exec (patternRedis fun _ => .error "CLUSTERDOWN")
      (migrateSlotsToEmptyNode "m") scalingManager ()).1.1 = .ok ⟨⟩ := by
    rw [exec_migrateSlotsToEmptyNode (by simp [scalingManager, twoMasters])
      (by simp [scalingManager, twoMasters]) htasks]
    exact exec_printClusterNodesInfo.mpr ⟨_, "", rfl, rfl⟩
  obtain ⟨t, ht⟩ := List.exists_mem_of_ne_nil _ htasks
  have hres := (hrep hok t ht).1
  rw [migrationResults_eq (by simp [scalingManager, twoMasters])
    (by simp [scalingManager, twoMasters]) htasks] at hres
  cases plannedResults_patternRedis hres

end ClusterManager
