import ClusterManager.Ops.Base

/-!
# Deleting a cluster

The four steps of `DeleteAllContainers`. There is no cluster manager in it; the memory of
the session is not used.
-/

namespace ClusterManager

namespace Delete

variable (cfg : RuntimeConfig) (clusterName : String)

def pipelineName : String := "delete-cluster-" ++ clusterName

def deleteConfig : Step OpsCmd OpsCmd.Reply Manager where
  name := "delete-config"
  action := do
    let path := cfg.clusterRuntimeConfigPath clusterName
    let found : Bool ← OpsM.file (.fileExists path)
    if found then
      let r : Except String Unit ← OpsM.file (.remove path)
      let _ ← Session.orFail r ""
    return ⟨⟩

def deleteResourcesStep : Step OpsCmd OpsCmd.Reply Manager where
  name := "delete-resources"
  retry := 2
  action := deletePods clusterName

def persistDb (persister : Option (Persister OpsCmd OpsCmd.Reply)) :
    Step OpsCmd OpsCmd.Reply Manager where
  name := "persist-db"
  action := do
    if cfg.dbPath = "" then return ⟨⟩
    let r : Except String Unit ← OpsM.store (.openStore cfg.dbPath)
    let _ ← Session.orFail r ""
    deleteClusterRows clusterName
    finishPipeline
      { clusterName := clusterName, operation := "delete"
        detail := "removed all containers", success := true }
      (pipelineName clusterName) persister

def cleanupState : Step OpsCmd OpsCmd.Reply Manager where
  name := "cleanup-state"
  action := do
    let dir := cfg.clusterStateDir clusterName
    let r : Except String (List String) ← OpsM.file (.readDir dir)
    match r with
    | .error _ => return ⟨⟩
    | .ok [] =>
      let r : Except String Unit ← OpsM.file (.remove dir)
      let _ ← Session.orFail r ""
      return ⟨⟩
    | .ok _ => return ⟨⟩

def steps (persister : Option (Persister OpsCmd OpsCmd.Reply)) :
    List (Step OpsCmd OpsCmd.Reply Manager) :=
  [deleteConfig cfg clusterName, deleteResourcesStep clusterName,
    persistDb cfg clusterName persister, cleanupState cfg clusterName]

theorem steps_retry {persister : Option (Persister OpsCmd OpsCmd.Reply)}
    {step : Step OpsCmd OpsCmd.Reply Manager} (h : step ∈ steps cfg clusterName persister) :
    0 ≤ step.retry := by
  simp only [steps, List.mem_cons, List.not_mem_nil, or_false] at h
  rcases h with rfl | rfl | rfl | rfl <;>
    simp [deleteConfig, deleteResourcesStep, persistDb, cleanupState]

/-- What is done before the first step. -/
def prepare : OpsM (Pipeline OpsCmd OpsCmd.Reply Manager) := do
  let _ ← Session.orFail (newNodeManager cfg) "create node manager fail: "
  makePipeline cfg (pipelineName clusterName) (steps cfg clusterName)

end Delete

def deleteAllContainers (cfg : RuntimeConfig) (clusterName : String) : OpsM PUnit := do
  let p ← Delete.prepare cfg clusterName
  runPipeline p s!"delete cluster {clusterName}: "

end ClusterManager
