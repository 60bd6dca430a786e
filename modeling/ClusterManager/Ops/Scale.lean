import ClusterManager.Ops.Base

/-!
# Scaling a cluster out

The eight steps of `ScaleClusterAction`. They work with the port that was saved for the
cluster, not with the configured one. What the roles of the new nodes are is kept in two
maps (`NewRoles`), which are walked in an order nobody decides.
-/

namespace ClusterManager

namespace Scale

variable (cfg : RuntimeConfig) (additionalShards nodesPerShard : ℤ) (clusterName : String)

def pipelineName : String := "scale-cluster-" ++ clusterName

def validate : Step OpsCmd OpsCmd.Reply Manager where
  name := "validate"
  action := do
    if additionalShards ≤ 0 then
      Session.fail s!"additional shards must be > 0, got {additionalShards}"
    let r ← listPods cfg clusterName
    let _ ← Session.orFail r ""
    let c ← get
    if c.nodeManager.num = 0 then Session.fail "no pods: cluster not found"
    return ⟨⟩

def syncState : Step OpsCmd OpsCmd.Reply Manager where
  name := "sync-state"
  action := do
    let c ← get
    match findClusterNode c clusterName with
    | none => Session.fail s!"cluster {clusterName} not found: cluster not found"
    | some loginNode =>
      Session.wrap "meet info: " (OpsM.manager (updateAfterMeet loginNode clusterName))
      Session.wrap "node role: " (OpsM.manager (updateAfterSetNodeRole loginNode clusterName))
      Session.wrap "slots info: " (OpsM.manager (updateSlots loginNode clusterName))

/-- The undo deletes what is listed for the cluster, the new containers and the old
ones. -/
def createContainers : Step OpsCmd OpsCmd.Reply Manager where
  name := "create-containers"
  retry := 1
  action := createPodsForCluster cfg clusterName (additionalShards * nodesPerShard)
  undo := some (deletePods clusterName)

def meetNodesStep : Step OpsCmd OpsCmd.Reply Manager where
  name := "meet-nodes"
  action := do
    let c ← get
    match findClusterNode c clusterName with
    | none => Session.fail "no login node for meet"
    | some node => OpsM.manager (meetNodes node.clientConnAddr clusterName)

def updateTopology : Step OpsCmd OpsCmd.Reply Manager where
  name := "update-topology"
  action := do
    let c ← get
    match findClusterNode c clusterName with
    | none => Session.fail "no login node"
    | some node => OpsM.manager (updateAfterMeet node clusterName)

/-- The roles that are given to the new nodes. -/
structure NewRoles where
  masterToSlave : List (String × List String) := []
  idToIP : List (String × String) := []
  /-- How many nodes the current shard has. -/
  count : ℤ := 0
  masterID : String := ""

/-- Give a role to each of the new nodes: the first of a shard is its master. -/
def assignNewRoles (nodesPerShard : ℤ) : List RuntimeNode → NewRoles → ManagerM NewRoles
  | [], r => return r
  | node :: rest, r => do
    let c ← get
    let id := (c.topo.ipToID node.conIp).getD ""
    let r := { r with idToIP := setEntry r.idToIP id node.conIp }
    let count : ℤ := if r.count = nodesPerShard then 0 else r.count
    if count = 0 then
      modifyTopo fun t => t.addNewMaster id
      assignNewRoles nodesPerShard rest
        { r with masterToSlave := setEntry r.masterToSlave id [], masterID := id, count := 1 }
    else
      assignNewRoles nodesPerShard rest
        { r with
          masterToSlave := setEntry r.masterToSlave r.masterID
            ((r.masterToSlave.lookup r.masterID).getD [] ++ [id])
          count := count + 1 }

def setRoles : Step OpsCmd OpsCmd.Reply Manager where
  name := "set-roles"
  action := do
    OpsM.manager (modifyTopo Topology.resetEmptyMasters)
    let c ← get
    let sum := additionalShards * nodesPerShard
    -- with fewer than `sum` nodes the first index is negative
    if c.nodeManager.num < sum then throw (.panic "index out of range")
    let new := if sum < 0 then [] else c.nodeManager.nodes.drop (c.nodeManager.num - sum.toNat)
    let r ← OpsM.manager (assignNewRoles nodesPerShard new {})
    let order ← OpsM.mapOrder r.masterToSlave
    forM order fun (k, v) =>
      forM v fun slaveID =>
        OpsM.manager (setNodeAsSlave ((r.idToIP.lookup k).getD "")
          ((r.idToIP.lookup slaveID).getD "") clusterName)

def migrateSlots : Step OpsCmd OpsCmd.Reply Manager where
  name := "migrate-slots"
  retry := 1
  action := OpsM.manager (migrateSlotsToEmptyNode clusterName)

def persistDb (persister : Option (Persister OpsCmd OpsCmd.Reply)) :
    Step OpsCmd OpsCmd.Reply Manager where
  name := "persist-db"
  action := do
    if cfg.dbPath = "" then return ⟨⟩
    let r : Except String Unit ← OpsM.store (.openStore cfg.dbPath)
    let _ ← Session.orFail r ""
    let c ← get
    let totalShards := c.topo.masterIDs.length
    let _ ← OpsM.store (.upsertCluster (clusterRecord cfg clusterName totalShards nodesPerShard))
    upsertContainers clusterName
    finishPipeline
      { clusterName := clusterName, operation := "scale"
        detail := s!"added {additionalShards} shards total={totalShards}", success := true }
      (pipelineName clusterName) persister

def steps (persister : Option (Persister OpsCmd OpsCmd.Reply)) :
    List (Step OpsCmd OpsCmd.Reply Manager) :=
  [validate cfg additionalShards clusterName, syncState clusterName,
    createContainers cfg additionalShards nodesPerShard clusterName, meetNodesStep clusterName,
    updateTopology clusterName, setRoles additionalShards nodesPerShard clusterName,
    migrateSlots clusterName, persistDb cfg additionalShards nodesPerShard clusterName persister]

theorem steps_retry {persister : Option (Persister OpsCmd OpsCmd.Reply)}
    {step : Step OpsCmd OpsCmd.Reply Manager}
    (h : step ∈ steps cfg additionalShards nodesPerShard clusterName persister) :
    0 ≤ step.retry := by
  simp only [steps, List.mem_cons, List.not_mem_nil, or_false] at h
  rcases h with rfl | rfl | rfl | rfl | rfl | rfl | rfl | rfl <;>
    simp [validate, syncState, createContainers, meetNodesStep, updateTopology, setRoles,
      migrateSlots, persistDb]

/-- What is done before the first step. -/
def prepare : OpsM (Pipeline OpsCmd OpsCmd.Reply Manager) := do
  let _ ← Session.orFail (newNodeManager cfg) "create node manager fail: "
  let r : Except String RedisClusterConfig ←
    OpsM.file (.readFromYAMLFile (cfg.clusterRuntimeConfigPath clusterName))
  let configFromFile ← Session.orFail r "read YAML: "
  let nodesPerShard := configFromFile.effectiveNodesPerShard
  let cfg := { cfg with redisContainerPort := configFromFile.port }
  set (newClusterManager cfg nodesPerShard)
  makePipeline cfg (pipelineName clusterName)
    (steps cfg additionalShards nodesPerShard clusterName)

/-- The configuration with the saved port. -/
def savedConfig (cfg : RuntimeConfig) (saved : RedisClusterConfig) : RuntimeConfig :=
  { cfg with redisContainerPort := saved.port }

end Scale

def scaleClusterAction (cfg : RuntimeConfig) (additionalShards : ℤ) (clusterName : String) :
    OpsM PUnit := do
  let p ← Scale.prepare cfg additionalShards clusterName
  runPipeline p s!"scale cluster {clusterName}: "

end ClusterManager
