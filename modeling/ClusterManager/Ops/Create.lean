import ClusterManager.Ops.Base

/-!
# Creating a cluster

The nine steps of `CreateClusterAction`.
-/

namespace ClusterManager

namespace Create

variable (cfg : RuntimeConfig) (shardCount nodesPerShard : ℤ) (clusterName : String)

def pipelineName : String := "create-cluster-" ++ clusterName

def validate : Step OpsCmd OpsCmd.Reply Manager where
  name := "validate"
  action := do
    if shardCount ≤ 0 then Session.fail "shard count must be greater than 0"
    if nodesPerShard < 2 then Session.fail "nodes per shard must be at least 2"
    if clusterName = "" then Session.fail "cluster name must not be empty"
    let r ← listPods cfg clusterName
    let _ ← Session.orFail r "list cluster pods fail: "
    let c ← get
    if c.nodeManager.hasCluster clusterName then
      let count := c.nodeManager.countByCluster clusterName
      Session.fail
        s!"cluster {clusterName} already exists with {count} pod(s): cluster already exists"
    return ⟨⟩

def createContainers : Step OpsCmd OpsCmd.Reply Manager where
  name := "create-containers"
  retry := 1
  action := createPodsForCluster cfg clusterName (shardCount * nodesPerShard)
  undo := some (deletePods clusterName)

def meetNodesStep : Step OpsCmd OpsCmd.Reply Manager where
  name := "meet-nodes"
  action := do
    let c ← get
    match findClusterNode c clusterName with
    | none => Session.fail s!"no node found for cluster {clusterName}"
    | some node => OpsM.manager (meetNodes node.clientConnAddr clusterName)

def updateTopology : Step OpsCmd OpsCmd.Reply Manager where
  name := "update-topology"
  action := do
    let c ← get
    match findClusterNode c clusterName with
    | none => Session.fail s!"no node found for cluster {clusterName}"
    | some node => OpsM.manager (updateAfterMeet node clusterName)

def setRoles : Step OpsCmd OpsCmd.Reply Manager where
  name := "set-roles"
  action := OpsM.manager (setAllNodeRole clusterName)

def allocSlots : Step OpsCmd OpsCmd.Reply Manager where
  name := "alloc-slots"
  action := OpsM.manager (allocateSlots clusterName)

def persistConfig : Step OpsCmd OpsCmd.Reply Manager where
  name := "persist-config"
  action := do
    let r : Except String Unit ← OpsM.file (.mkdirAll (cfg.clusterStateDir clusterName))
    let _ ← Session.orFail r ""
    let path := cfg.clusterRuntimeConfigPath clusterName
    let found : Bool ← OpsM.file (.fileExists path)
    if found then
      -- an error is ignored
      let _ ← OpsM.file (.remove path)
    let c ← get
    let r : Except String Unit ← OpsM.file (.writeToYAMLFile path
      { nodesPerShard := c.nodesPerShard, port := cfg.redisContainerPort })
    let _ ← Session.orFail r ""
    return ⟨⟩
  undo := some do
    let _ ← OpsM.file (.remove (cfg.clusterRuntimeConfigPath clusterName))
    return ⟨⟩

def persistDb (persister : Option (Persister OpsCmd OpsCmd.Reply)) :
    Step OpsCmd OpsCmd.Reply Manager where
  name := "persist-db"
  action := do
    if cfg.dbPath = "" then return ⟨⟩
    let r : Except String Unit ← OpsM.store (.openStore cfg.dbPath)
    let _ ← Session.orFail r ""
    let _ ← OpsM.store (.upsertCluster (clusterRecord cfg clusterName shardCount nodesPerShard))
    upsertContainers clusterName
    finishPipeline
      { clusterName := clusterName, operation := "create"
        detail := s!"shards={shardCount} nodes_per_shard={nodesPerShard}", success := true }
      (pipelineName clusterName) persister
  undo := some do
    if cfg.dbPath = "" then return ⟨⟩
    let r : Except String Unit ← OpsM.store (.openStore cfg.dbPath)
    let _ ← Session.orFail r ""
    deleteClusterRows clusterName

def printInfo : Step OpsCmd OpsCmd.Reply Manager where
  name := "print-info"
  action := OpsM.manager printClusterNodesInfo

def steps (persister : Option (Persister OpsCmd OpsCmd.Reply)) :
    List (Step OpsCmd OpsCmd.Reply Manager) :=
  [validate cfg shardCount nodesPerShard clusterName,
    createContainers cfg shardCount nodesPerShard clusterName, meetNodesStep clusterName,
    updateTopology clusterName, setRoles clusterName, allocSlots clusterName,
    persistConfig cfg clusterName, persistDb cfg shardCount nodesPerShard clusterName persister,
    printInfo]

theorem steps_retry {persister : Option (Persister OpsCmd OpsCmd.Reply)}
    {step : Step OpsCmd OpsCmd.Reply Manager}
    (h : step ∈ steps cfg shardCount nodesPerShard clusterName persister) : 0 ≤ step.retry := by
  simp only [steps, List.mem_cons, List.not_mem_nil, or_false] at h
  rcases h with rfl | rfl | rfl | rfl | rfl | rfl | rfl | rfl | rfl <;>
    simp [validate, createContainers, meetNodesStep, updateTopology, setRoles, allocSlots,
      persistConfig, persistDb, printInfo]

/-- What is done before the first step. -/
def prepare : OpsM (Pipeline OpsCmd OpsCmd.Reply Manager) := do
  let _ ← Session.orFail (newNodeManager cfg) "create node manager fail: "
  set (newClusterManager cfg nodesPerShard)
  makePipeline cfg (pipelineName clusterName) (steps cfg shardCount nodesPerShard clusterName)

end Create

def createClusterAction (cfg : RuntimeConfig) (shardCount nodesPerShard : ℤ)
    (clusterName : String) : OpsM PUnit := do
  let p ← Create.prepare cfg shardCount nodesPerShard clusterName
  runPipeline p s!"create cluster {clusterName}: "

end ClusterManager
