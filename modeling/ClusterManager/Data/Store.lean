import Mathlib.Data.Int.Notation
import ClusterManager.Lib.Program
import ClusterManager.Lib.Table

/-!
# The store

The SQLite database, as its tables. Each statement the program executes is one request
(`StoreCmd`), so a process can die between two of them. A statement that fails has changed
nothing.

The times at which rows are written are left out; nothing reads them.
-/

namespace ClusterManager

/-- A row of `clusters`. -/
structure ClusterRecord where
  name : String
  backend : String
  shards : ℤ
  nodesPerShard : ℤ
  redisPort : ℤ
  image : String
  status : String
  deriving DecidableEq, Repr

/-- A row of `containers`. -/
structure ContainerRecord where
  clusterName : String
  name : String
  containerID : String
  hostIP : String
  hostPort : ℤ
  containerIP : String
  containerPort : ℤ
  nodeIndex : ℤ
  role : String := ""
  status : String
  hostname : String
  deriving DecidableEq, Repr

/-- A row of `operations`. -/
structure OperationRecord where
  clusterName : String
  operation : String
  detail : String
  success : Bool
  deriving DecidableEq, Repr

inductive RunStatus where
  | running
  | completed
  | failed
  deriving DecidableEq, Repr

/-- A row of `pipeline_runs`. -/
structure PipelineRun where
  pipelineName : String
  stepName : String
  status : RunStatus
  deriving DecidableEq, Repr

def ContainerRecord.key (r : ContainerRecord) : String × String := (r.clusterName, r.name)

def PipelineRun.key (r : PipelineRun) : String × String := (r.pipelineName, r.stepName)

theorem nodup_clusters_nil : (([] : List ClusterRecord).map ClusterRecord.name).Nodup :=
  List.nodup_nil

theorem nodup_containers_nil : (([] : List ContainerRecord).map ContainerRecord.key).Nodup :=
  List.nodup_nil

theorem nodup_pipelineRuns_nil : (([] : List PipelineRun).map PipelineRun.key).Nodup :=
  List.nodup_nil

structure Store where
  clusters : Table ClusterRecord.name := { nodup := nodup_clusters_nil }
  containers : Table ContainerRecord.key := { nodup := nodup_containers_nil }
  operations : List OperationRecord := []
  pipelineRuns : Table PipelineRun.key := { nodup := nodup_pipelineRuns_nil }

namespace Store

variable (s : Store)

def getCluster (name : String) : Option ClusterRecord := s.clusters.find name

/-- The backend of a row stays what it was. -/
def upsertCluster (c : ClusterRecord) : Store :=
  { s with
    clusters := s.clusters.upsert c
      (fun old => { c with name := old.name, backend := old.backend }) fun _ => rfl }

def deleteContainers (name : String) : Store :=
  { s with containers := s.containers.delete fun r => r.clusterName = name }

def deleteClusterRow (name : String) : Store :=
  { s with clusters := s.clusters.delete fun r => r.name = name }

def upsertContainer (c : ContainerRecord) : Store :=
  { s with
    containers := s.containers.upsert c
      (fun old => { c with clusterName := old.clusterName, name := old.name }) fun _ => rfl }

def listContainersByCluster (clusterName : String) : List ContainerRecord :=
  s.containers.rows.filter (·.clusterName = clusterName)

def logOperation (r : OperationRecord) : Store := { s with operations := s.operations ++ [r] }

/-- Set the status of a step, whether it has a row or not. -/
def setStatus (status : RunStatus) (pipelineName stepName : String) : Store :=
  { s with
    pipelineRuns := s.pipelineRuns.upsert ⟨pipelineName, stepName, status⟩
      (fun old => { old with status := status }) fun _ => rfl }

def savePipelineStep (pipelineName stepName : String) : Store :=
  s.setStatus .completed pipelineName stepName

/-- A step that has a row keeps it as it is. -/
def startPipelineStep (pipelineName stepName : String) : Store :=
  { s with pipelineRuns := s.pipelineRuns.insertOrIgnore ⟨pipelineName, stepName, .running⟩ }

def failPipelineStep (pipelineName stepName : String) : Store :=
  s.setStatus .failed pipelineName stepName

def loadPipelineSteps (pipelineName : String) : List String :=
  (s.pipelineRuns.rows.filter fun r => r.pipelineName = pipelineName ∧ r.status = .completed).map
    PipelineRun.stepName

def deletePipeline (pipelineName : String) : Store :=
  { s with pipelineRuns := s.pipelineRuns.delete fun r => r.pipelineName = pipelineName }

end Store

/-! ### The statements -/

inductive StoreCmd where
  | openStore (dbPath : String)
  | upsertCluster (c : ClusterRecord)
  | deleteContainers (name : String)
  | deleteClusterRow (name : String)
  | upsertContainer (c : ContainerRecord)
  | logOperation (r : OperationRecord)
  | savePipelineStep (pipelineName stepName : String)
  | startPipelineStep (pipelineName stepName : String)
  | failPipelineStep (pipelineName stepName : String)
  | loadPipelineSteps (pipelineName : String)
  | deletePipeline (pipelineName : String)
  deriving DecidableEq, Repr

abbrev StoreCmd.Reply : StoreCmd → Type
  | .loadPipelineSteps _ => Except String (List String)
  | .openStore _ | .upsertCluster _ | .deleteContainers _ | .deleteClusterRow _
  | .upsertContainer _ | .logOperation _ | .savePipelineStep _ _ | .startPipelineStep _ _
  | .failPipelineStep _ _ | .deletePipeline _ => Except String Unit

namespace Store

/-- What a statement does to the tables. -/
def effect (s : Store) : StoreCmd → Store
  | .openStore _ | .loadPipelineSteps _ => s
  | .upsertCluster c => s.upsertCluster c
  | .deleteContainers name => s.deleteContainers name
  | .deleteClusterRow name => s.deleteClusterRow name
  | .upsertContainer c => s.upsertContainer c
  | .logOperation r => s.logOperation r
  | .savePipelineStep p n => s.savePipelineStep p n
  | .startPipelineStep p n => s.startPipelineStep p n
  | .failPipelineStep p n => s.failPipelineStep p n
  | .deletePipeline p => s.deletePipeline p

/-- What a statement is answered with. -/
def reply (s : Store) : (c : StoreCmd) → c.Reply
  | .loadPipelineSteps p => .ok (s.loadPipelineSteps p)
  | .openStore _ | .upsertCluster _ | .deleteContainers _ | .deleteClusterRow _
  | .upsertContainer _ | .logOperation _ | .savePipelineStep _ _ | .startPipelineStep _ _
  | .failPipelineStep _ _ | .deletePipeline _ => .ok ()

/-- What a statement that fails is answered with. -/
def failure (err : String) : (c : StoreCmd) → c.Reply
  | .loadPipelineSteps _ => .error err
  | .openStore _ | .upsertCluster _ | .deleteContainers _ | .deleteClusterRow _
  | .upsertContainer _ | .logOperation _ | .savePipelineStep _ _ | .startPipelineStep _ _
  | .failPipelineStep _ _ | .deletePipeline _ => .error err

/-! ### Reading the records of a pipeline back -/

variable {s : Store}

/-- A step is recorded as completed. -/
def Recorded (s : Store) (pipelineName stepName : String) : Prop :=
  (⟨pipelineName, stepName, .completed⟩ : PipelineRun) ∈ s.pipelineRuns.rows

theorem mem_loadPipelineSteps {p n : String} :
    n ∈ s.loadPipelineSteps p ↔ s.Recorded p n := by
  rw [loadPipelineSteps, List.mem_map]
  constructor
  · rintro ⟨⟨p', n', st⟩, hr, rfl⟩
    obtain ⟨hmem, hcond⟩ := List.mem_filter.mp hr
    obtain ⟨rfl, rfl⟩ := of_decide_eq_true hcond
    exact hmem
  · intro h
    exact ⟨_, List.mem_filter.mpr ⟨h, by simp⟩, rfl⟩

theorem mem_setStatus {status : RunStatus} {p n : String} {r : PipelineRun} :
    r ∈ (s.setStatus status p n).pipelineRuns.rows ↔
      (r ∈ s.pipelineRuns.rows ∧ r.key ≠ (p, n)) ∨
        (∃ old ∈ s.pipelineRuns.rows, old.key = (p, n) ∧ r = { old with status := status }) ∨
          ((p, n) ∉ s.pipelineRuns.keys ∧ r = ⟨p, n, status⟩) :=
  Table.mem_upsert fun r => (rfl : PipelineRun.key { r with status := status } = r.key)

theorem recorded_savePipelineStep {p n p' n' : String} :
    (s.savePipelineStep p n).Recorded p' n' ↔ s.Recorded p' n' ∨ (p' = p ∧ n' = n) := by
  rw [Recorded, savePipelineStep, mem_setStatus]
  constructor
  · rintro (⟨h, -⟩ | ⟨old, hold, hkey, heq⟩ | ⟨-, heq⟩)
    · exact Or.inl h
    · cases heq
      exact Or.inr (Prod.mk.inj hkey)
    · cases heq
      exact Or.inr ⟨rfl, rfl⟩
  · rintro (h | ⟨rfl, rfl⟩)
    · by_cases hkey : (p', n') = (p, n)
      · obtain ⟨rfl, rfl⟩ := Prod.mk.inj hkey
        exact Or.inr (Or.inl ⟨_, h, rfl, rfl⟩)
      · exact Or.inl ⟨h, hkey⟩
    · by_cases hkey : ((p', n') : String × String) ∈ s.pipelineRuns.keys
      · obtain ⟨old, hold, hold'⟩ := List.mem_map.mp hkey
        refine Or.inr (Or.inl ⟨old, hold, hold', ?_⟩)
        obtain ⟨rfl, rfl⟩ := Prod.mk.inj hold'
        rfl
      · exact Or.inr (Or.inr ⟨hkey, rfl⟩)

theorem startPipelineStep_startPipelineStep {p n : String} :
    (s.startPipelineStep p n).startPipelineStep p n = s.startPipelineStep p n :=
  congrArg (fun t => { s with pipelineRuns := t }) Table.insertOrIgnore_insertOrIgnore

theorem recorded_startPipelineStep {p n p' n' : String} :
    (s.startPipelineStep p n).Recorded p' n' ↔ s.Recorded p' n' := by
  refine (Table.mem_upsert fun _ => rfl).trans ?_
  constructor
  · rintro (⟨h, -⟩ | ⟨old, hold, -, rfl⟩ | ⟨-, heq⟩)
    · exact h
    · exact hold
    · cases heq
  · intro h
    by_cases hkey : (p', n') = (p, n)
    · exact Or.inr (Or.inl ⟨_, h, hkey, rfl⟩)
    · exact Or.inl ⟨h, hkey⟩

theorem recorded_failPipelineStep {p n p' n' : String} :
    (s.failPipelineStep p n).Recorded p' n' ↔ s.Recorded p' n' ∧ ¬ (p' = p ∧ n' = n) := by
  rw [Recorded, failPipelineStep, mem_setStatus]
  constructor
  · rintro (⟨h, hkey⟩ | ⟨old, hold, hkey, heq⟩ | ⟨-, heq⟩)
    · exact ⟨h, fun hpn => hkey (Prod.ext hpn.1 hpn.2)⟩
    · cases heq
    · cases heq
  · rintro ⟨h, hne⟩
    exact Or.inl ⟨h, fun hkey => hne (Prod.mk.inj hkey)⟩

theorem recorded_deletePipeline {p p' n' : String} :
    (s.deletePipeline p).Recorded p' n' ↔ s.Recorded p' n' ∧ p' ≠ p := by
  rw [Recorded, deletePipeline, Table.mem_delete]
  simp [Recorded]

/-! ### Reading the rows of a cluster back -/

/-- The names of the containers that have rows for a cluster. -/
def containerNames (s : Store) (clusterName : String) : List String :=
  (s.listContainersByCluster clusterName).map ContainerRecord.name

theorem mem_containerNames {clusterName name : String} :
    name ∈ s.containerNames clusterName ↔ (clusterName, name) ∈ s.containers.keys := by
  simp only [containerNames, listContainersByCluster, Table.keys, List.mem_map, List.mem_filter,
    decide_eq_true_eq]
  constructor
  · rintro ⟨r, ⟨hr, rfl⟩, rfl⟩
    exact ⟨r, hr, rfl⟩
  · rintro ⟨r, hr, hkey⟩
    obtain ⟨rfl, rfl⟩ := Prod.mk.inj hkey
    exact ⟨r, ⟨hr, rfl⟩, rfl⟩

/-- There is one row for a container. -/
theorem nodup_containerNames (clusterName : String) : (s.containerNames clusterName).Nodup := by
  refine List.Nodup.of_map (fun name => (clusterName, name)) ?_
  have hkey : (s.listContainersByCluster clusterName).map
      ((fun name => (clusterName, name)) ∘ ContainerRecord.name) =
      (s.listContainersByCluster clusterName).map ContainerRecord.key := by
    refine List.map_congr_left fun r hr => ?_
    rw [← of_decide_eq_true (List.mem_filter.mp hr).2]
    rfl
  rw [containerNames, List.map_map, hkey]
  exact s.containers.nodup.sublist (List.filter_sublist.map _)

theorem getCluster_upsertCluster (c : ClusterRecord) (name : String) :
    (s.upsertCluster c).getCluster name = if name = c.name then
      some (((s.getCluster name).map fun old =>
        { c with name := old.name, backend := old.backend }).getD c)
      else s.getCluster name := by
  refine Table.find_upsert ?_
  exact fun _ => rfl

theorem getCluster_deleteClusterRow (name : String) :
    (s.deleteClusterRow name).getCluster name = none := by
  refine Table.find_eq_none.mpr fun h => ?_
  obtain ⟨r, hr, hname⟩ := List.mem_map.mp h
  exact (Table.mem_delete.mp hr).2 (by simpa using hname)

theorem getCluster_deleteClusterRow_of_ne {name other : String} (h : other ≠ name) :
    (s.deleteClusterRow name).getCluster other = s.getCluster other := by
  refine Option.ext fun r => ?_
  rw [getCluster, getCluster, Table.find_eq_some, Table.find_eq_some, deleteClusterRow,
    Table.mem_delete]
  constructor
  · rintro ⟨⟨hr, -⟩, hname⟩
    exact ⟨hr, hname⟩
  · rintro ⟨hr, hname⟩
    exact ⟨⟨hr, by simpa using fun heq => h (hname.symm.trans heq)⟩, hname⟩

theorem mem_containerNames_upsertContainer {c : ContainerRecord} {clusterName name : String} :
    name ∈ (s.upsertContainer c).containerNames clusterName ↔
      name ∈ s.containerNames clusterName ∨ (clusterName = c.clusterName ∧ name = c.name) := by
  rw [mem_containerNames, mem_containerNames]
  refine (Table.mem_keys_upsert ?_).trans (or_congr_right Prod.ext_iff)
  exact fun _ => rfl

theorem listContainersByCluster_upsertContainer {c : ContainerRecord} {clusterName : String}
    (h : c.clusterName ≠ clusterName) :
    (s.upsertContainer c).listContainersByCluster clusterName =
      s.listContainersByCluster clusterName := by
  refine Table.filter_upsert (t := s.containers) (p := fun k => k.1 = clusterName) ?_ ?_
  · exact fun _ => rfl
  · exact fun heq => h (of_decide_eq_true heq)

theorem listContainersByCluster_deleteContainers (clusterName : String) :
    (s.deleteContainers clusterName).listContainersByCluster clusterName = [] := by
  simp [listContainersByCluster, deleteContainers, Table.delete]

theorem listContainersByCluster_deleteContainers_of_ne {clusterName other : String}
    (h : other ≠ clusterName) :
    (s.deleteContainers clusterName).listContainersByCluster other =
      s.listContainersByCluster other := by
  rw [listContainersByCluster, deleteContainers, Table.delete, List.filter_filter]
  refine List.filter_congr fun r _ => ?_
  by_cases hr : r.clusterName = other
  · simp [hr, h]
  · simp [hr]

/-- Write the row of a cluster and the rows of its containers. -/
def recordCluster (s : Store) (c : ClusterRecord) (rows : List ContainerRecord) : Store :=
  rows.foldl upsertContainer (s.upsertCluster c)

theorem foldl_upsertContainer_clusters (rows : List ContainerRecord) (s : Store) :
    (rows.foldl upsertContainer s).clusters = s.clusters := by
  induction rows generalizing s with
  | nil => rfl
  | cons row rows ih => exact ih _

theorem getCluster_recordCluster (c : ClusterRecord) (rows : List ContainerRecord) (name : String) :
    (s.recordCluster c rows).getCluster name = (s.upsertCluster c).getCluster name := by
  rw [getCluster, recordCluster, foldl_upsertContainer_clusters]
  rfl

/-- The row of a cluster that has just been recorded. -/
theorem exists_getCluster_recordCluster (c : ClusterRecord) (rows : List ContainerRecord) :
    ∃ r, (s.recordCluster c rows).getCluster c.name = some r ∧ r.shards = c.shards ∧
      r.nodesPerShard = c.nodesPerShard := by
  rw [getCluster_recordCluster, getCluster_upsertCluster, if_pos rfl]
  cases s.getCluster c.name with
  | none => exact ⟨c, rfl, rfl, rfl⟩
  | some old => exact ⟨_, rfl, rfl, rfl⟩

theorem mem_containerNames_recordCluster {c : ClusterRecord} {rows : List ContainerRecord}
    {clusterName name : String} (hrows : ∀ r ∈ rows, r.clusterName = clusterName) :
    name ∈ (s.recordCluster c rows).containerNames clusterName ↔
      name ∈ s.containerNames clusterName ∨ name ∈ rows.map ContainerRecord.name := by
  have key : ∀ s : Store, name ∈ (rows.foldl upsertContainer s).containerNames clusterName ↔
      name ∈ s.containerNames clusterName ∨ name ∈ rows.map ContainerRecord.name := by
    induction rows with
    | nil => simp
    | cons row rows ih =>
      intro s
      rw [List.foldl_cons, ih fun r hr => hrows r (List.mem_cons_of_mem _ hr),
        mem_containerNames_upsertContainer, List.map_cons, List.mem_cons]
      have hrow := hrows row List.mem_cons_self
      constructor
      · rintro ((h | ⟨-, h⟩) | h)
        · exact Or.inl h
        · exact Or.inr (Or.inl h)
        · exact Or.inr (Or.inr h)
      · rintro (h | h | h)
        · exact Or.inl (Or.inl h)
        · exact Or.inl (Or.inr ⟨hrow.symm, h⟩)
        · exact Or.inr h
  exact key _

theorem listContainersByCluster_recordCluster {c : ClusterRecord} {rows : List ContainerRecord}
    {clusterName : String} (hrows : ∀ r ∈ rows, r.clusterName ≠ clusterName) :
    (s.recordCluster c rows).listContainersByCluster clusterName =
      s.listContainersByCluster clusterName := by
  have key : ∀ s : Store, (rows.foldl upsertContainer s).listContainersByCluster clusterName =
      s.listContainersByCluster clusterName := by
    induction rows with
    | nil => exact fun s => rfl
    | cons row rows ih =>
      intro s
      rw [List.foldl_cons, ih fun r hr => hrows r (List.mem_cons_of_mem _ hr),
        listContainersByCluster_upsertContainer (hrows row List.mem_cons_self)]
  exact key _

/-- Between `s` and `s'` a cluster has been recorded with containers of these names. -/
structure Writes (c : ClusterRecord) (names : List String) (s s' : Store) : Prop where
  cluster : ∃ r, s'.getCluster c.name = some r ∧ r.shards = c.shards ∧
    r.nodesPerShard = c.nodesPerShard
  containers : ∀ name, name ∈ s'.containerNames c.name ↔
    name ∈ s.containerNames c.name ∨ name ∈ names
  others : ∀ other, other ≠ c.name → s'.getCluster other = s.getCluster other ∧
    s'.listContainersByCluster other = s.listContainersByCluster other

theorem writes_recordCluster (s : Store) {c : ClusterRecord} {rows : List ContainerRecord}
    (hrows : ∀ r ∈ rows, r.clusterName = c.name) :
    Writes c (rows.map ContainerRecord.name) s (s.recordCluster c rows) where
  cluster := exists_getCluster_recordCluster c rows
  containers name := mem_containerNames_recordCluster hrows
  others other hne := by
    refine ⟨?_, listContainersByCluster_recordCluster fun r hr => ?_⟩
    · rw [getCluster_recordCluster, getCluster_upsertCluster, if_neg hne]
    · rw [hrows r hr]
      exact hne.symm

/-- Only the rows matter. -/
theorem Writes.congr {c : ClusterRecord} {names : List String} {s s' t t' : Store}
    (h : Writes c names s s') (hclusters : t.clusters = s.clusters)
    (hcontainers : t.containers = s.containers) (hclusters' : t'.clusters = s'.clusters)
    (hcontainers' : t'.containers = s'.containers) : Writes c names t t' := by
  have hget : ∀ name, t.getCluster name = s.getCluster name := fun name => by
    rw [getCluster, hclusters, getCluster]
  have hget' : ∀ name, t'.getCluster name = s'.getCluster name := fun name => by
    rw [getCluster, hclusters', getCluster]
  have hlist : ∀ name, t.listContainersByCluster name = s.listContainersByCluster name :=
    fun name => by rw [listContainersByCluster, hcontainers, listContainersByCluster]
  have hlist' : ∀ name, t'.listContainersByCluster name = s'.listContainersByCluster name :=
    fun name => by rw [listContainersByCluster, hcontainers', listContainersByCluster]
  refine ⟨?_, fun name => ?_, fun other hne => ?_⟩
  · rw [hget']
    exact h.cluster
  · rw [containerNames, containerNames, hlist, hlist']
    exact h.containers name
  · rw [hget, hget', hlist, hlist']
    exact h.others other hne

end Store

end ClusterManager
