import ClusterManager.Data.Parse
import ClusterManager.Lib.Session
import ClusterManager.Model.Planning
import ClusterManager.Model.Redis

/-!
# The cluster manager

`Manager` is the memory of a `ClusterManager` and `ManagerM` its operations: programs
that send Redis commands, change the memory, and may fail. What has been changed before
a failure stays changed. A `Failure` is an error that the operation returns, or a panic,
which ends the process.

The operations here are those that `create` and `scale` are made of: meeting the nodes,
reading the topology back, giving out the roles and the slots. Waits between two tries
are left out; the number of tries is the code's.
-/

namespace ClusterManager

/-- The memory of a cluster manager. -/
structure Manager where
  topo : Topology := {}
  /-- The replicas of each master, by name. -/
  masterToSlave : List (String × List String) := []
  roleSet : String → Bool := fun _ => false
  met : String → Bool := fun _ => false
  nodeManager : BaseNodeManager := {}
  nodesPerShard : ℤ
  /-- Whether there is a cache to be told of moved slots. -/
  cacheInvalidator : Bool := false

abbrev ManagerM := Session RedisCmd RedisCmd.Reply Manager Failure

namespace ManagerM

/-- Send one command. -/
def redis (c : RedisCmd) : ManagerM c.Reply := liftM (sendRedis c)

section Rules

variable {σ : Type} (h : Handler RedisCmd RedisCmd.Reply σ) (m : Manager) (s : σ)

@[simp] theorem exec_redis (c : RedisCmd) :
    Session.exec h (redis c) m s = ((.ok (h s c).1, m), (h s c).2) := rfl

@[simp] theorem sent_redis (c : RedisCmd) : Session.sent h (redis c) m s = [(c, s)] := rfl

end Rules

end ManagerM

/-- Change the topology. -/
def modifyTopo (f : Topology → Topology) : ManagerM PUnit := do
  modify fun c => { c with topo := f c.topo }

/-- Set an entry of a map that is kept as a list. -/
def setEntry {α : Type} (l : List (String × α)) (k : String) (v : α) : List (String × α) :=
  if l.any (·.1 = k) then l.map fun x => if x.1 = k then (k, v) else x else l ++ [(k, v)]

/-! ### Reading the nodes -/

def forgetFailedClusterNodes (clusterName : String) (failedIDs : List String) :
    ManagerM PUnit := do
  let c ← get
  match c.nodeManager.nodes.find? (·.clusterName = clusterName) with
  | none => return ⟨⟩
  | some node =>
    forM failedIDs fun id => do
      -- an error is only logged
      let _ ← ManagerM.redis (.clusterForget node.clientConnAddr id)
      return ⟨⟩

/-- The nodes of the cluster in a reply; the failing ones are forgotten. -/
def parseRedisClusterNodes (nodeData clusterName : String) : ManagerM (List ClusterNode) := do
  let c ← get
  let clusterFilter := fun ip =>
    ((c.nodeManager.getNodeByHost ip).map fun node => decide (node.clusterName = clusterName)).getD
      false
  let (parsed, failedIDs) := parseClusterNodeLines (Text.split '\n' nodeData) clusterFilter
  if failedIDs ≠ [] then forgetFailedClusterNodes clusterName failedIDs
  return parsed.map fun n => { n with clusterName := clusterName }

def getClusterNodes (loginNode : RuntimeNode) (clusterName : String) :
    ManagerM (List ClusterNode) := do
  let c ← get
  if c.nodeManager.nodes = [] then Session.fail "no pods found: cluster not found"
  let r : Except String String ← ManagerM.redis (.clusterNodes loginNode.clientConnAddr)
  let nodesInfo ← Session.orFail r "failed to get cluster nodes: "
  parseRedisClusterNodes nodesInfo clusterName

/-- File the nodes that are not known yet. -/
def updateAfterMeet (loginNode : RuntimeNode) (clusterName : String) : ManagerM PUnit := do
  let c ← get
  if c.nodeManager.num = 0 then return ⟨⟩
  let nodes ← getClusterNodes loginNode clusterName
  forM nodes fun node => do
    let c ← get
    if (c.topo.nodes node.id).isNone then
      modify fun c =>
        { c with met := Function.update c.met node.ip true, topo := c.topo.addMetNode node }
  modifyTopo Topology.sortInfo

/-- Note the roles that a reply tells. -/
def buildMasterSlaveTopology (masters slaves : List ClusterNode) : ManagerM PUnit := do
  forM masters fun master =>
    modify fun c =>
      { c with
        topo := c.topo.addMaster master.id
        masterToSlave := setEntry c.masterToSlave master.id [] }
  forM slaves fun slave => do
    let c ← get
    if !c.topo.masterSet slave.masterID then
      Session.fail s!"master node {slave.masterID} not found for slave {slave.id}"
    modify fun c =>
      { c with
        masterToSlave := setEntry c.masterToSlave slave.masterID
          ((c.masterToSlave.lookup slave.masterID).getD [] ++ [slave.id]) }
  modify fun c =>
    { c with
      masterToSlave := c.masterToSlave.map fun x => (x.1, x.2.insertionSort (· ≤ ·))
      topo := c.topo.sortMasters }

def updateAfterSetNodeRole (loginNode : RuntimeNode) (clusterName : String) :
    ManagerM PUnit := do
  modify fun c => { c with masterToSlave := [], topo := c.topo.resetMasters }
  let c ← get
  if c.nodeManager.num = 0 then return ⟨⟩
  let nodes ← getClusterNodes loginNode clusterName
  if nodes = [] then return ⟨⟩
  buildMasterSlaveTopology (nodes.filter (·.nodeType = .master))
    (nodes.filter (·.nodeType = .slave))

/-- The total of the slots in ranges. -/
def calculateSlots (slots : List SlotRange) : ℤ :=
  (slots.map fun r => r.stop - r.start + 1).sum

/-- Note how many slots each known master has. -/
def updateSlots (loginNode : RuntimeNode) (clusterName : String) : ManagerM PUnit := do
  let c ← get
  if c.nodeManager.num = 0 then return ⟨⟩
  modifyTopo Topology.resetEmptyMasters
  let nodes ← getClusterNodes loginNode clusterName
  forM nodes fun node => do
    let c ← get
    if node.nodeType = .master ∧ (c.topo.nodes node.id).isSome then
      modifyTopo fun t => t.refreshSlots node (calculateSlots node.slots)

/-! ### Meeting the nodes -/

/-- The lines of a reply that count as active. -/
def countActiveNodes (nodesInfo : String) : ℕ :=
  ((Text.split '\n' nodesInfo).filter fun line =>
    let fields := Text.split ' ' line
    8 ≤ fields.length ∧ !Text.contains (fields.getD 2 "") "fail" ∧
      Text.contains line "connected").length

/-- Look `n` times whether a node sees the expected number of nodes. -/
def waitForMeetSync (addr : String) (expectedNodes : ℕ) : ℕ → ManagerM PUnit
  | 0 => Session.fail "cluster did not synchronize within the expected time"
  | n + 1 => do
    let r : Except String String ← ManagerM.redis (.clusterNodes addr)
    let nodesInfo ← Session.orFail r "failed to get cluster nodes info: "
    if countActiveNodes nodesInfo = expectedNodes then return ⟨⟩
    waitForMeetSync addr expectedNodes n

def sendMeetCommands (clientAddr clusterName : String) : ManagerM PUnit := do
  let c ← get
  forM c.nodeManager.nodes fun node => do
    if node.clusterName ≠ clusterName ∨ c.met node.conIp then return ⟨⟩
    let (host, portStr) := parseIPPort node.clusterMeetAddr
    if host = "" then return ⟨⟩
    match stringToUint16 portStr with
    | none => return ⟨⟩
    | some port =>
      let r : Except String Unit ← ManagerM.redis (.clusterMeet clientAddr host port.toNat)
      Session.orFail r s!"could not meet node {node.conIp}: "

def waitForAllMeetSync (clusterName : String) : ManagerM PUnit := do
  let c ← get
  let nodes := c.nodeManager.nodes.filter (·.clusterName = clusterName)
  forM nodes fun node =>
    Session.wrap "failed to wait for cluster sync: "
      (waitForMeetSync node.clientConnAddr nodes.length 10)

def meetNodes (clientAddr clusterName : String) : ManagerM PUnit := do
  sendMeetCommands clientAddr clusterName
  waitForAllMeetSync clusterName

/-! ### Roles -/

def setNodeAsSlave (masterIP slaveIP clusterName : String) : ManagerM PUnit := do
  let c ← get
  match c.nodeManager.getNodeByHost slaveIP with
  | none => Session.fail s!"slave node not found for IP {slaveIP}"
  | some slaveNode =>
    let masterID := (c.topo.ipToID masterIP).getD ""
    let r : Except String Unit ←
      ManagerM.redis (.clusterReplicate slaveNode.clientConnAddr masterID)
    let _ ← Session.orFail r s!"failed to set node {slaveIP} as replica of master {masterIP}: "
    match c.nodeManager.nodes with
    | [] => Session.fail "no nodes available: no nodes available"
    | node :: _ => updateAfterSetNodeRole node clusterName

/-- The replicas `j` of one master, from `slaveStart` on; the result is the map of roles
that is being built. -/
def assignSlaves (masterID masterIP clusterName : String) :
    List String → List (String × List String) → ManagerM (List (String × List String))
  | [], masterToSlave => return masterToSlave
  | id :: rest, masterToSlave => do
    let c ← get
    let node := c.topo.nodes id
    let slaveIP := (node.map (·.ip)).getD ""
    let slaveID := (c.topo.ipToID slaveIP).getD ""
    if (node.map (·.clusterName)).getD "" ≠ clusterName ∨
        (c.roleSet masterID ∧ c.roleSet slaveID) then
      assignSlaves masterID masterIP clusterName rest masterToSlave
    else
      setNodeAsSlave masterIP slaveIP clusterName
      modify fun c =>
        { c with
          roleSet := Function.update (Function.update c.roleSet masterID true) slaveID true }
      assignSlaves masterID masterIP clusterName rest
        (setEntry masterToSlave masterID
          ((masterToSlave.lookup masterID).getD [] ++ [slaveID]))

/-- The masters `i` to `n - 1` of the sorted list of nodes. -/
def assignMasters (clusterName : String) (n k : ℕ) :
    List ℕ → List (String × List String) → ManagerM (List (String × List String))
  | [], masterToSlave => return masterToSlave
  | i :: rest, masterToSlave => do
    let c ← get
    let node := (c.topo.list[i]?).bind c.topo.nodes
    if (node.map (·.clusterName)).getD "" ≠ clusterName then
      assignMasters clusterName n k rest masterToSlave
    else
      let masterIP := (node.map (·.ip)).getD ""
      let masterID := (c.topo.ipToID masterIP).getD ""
      modifyTopo fun t => { t with masterIDs := t.masterIDs ++ [masterID] }
      let slaves := (c.topo.list.drop (n + i * (k - 1))).take (k - 1)
      let masterToSlave ← assignSlaves masterID masterIP clusterName slaves
        (setEntry masterToSlave masterID [])
      assignMasters clusterName n k rest masterToSlave

def assignMastersAndSlaves (clusterName : String) : ManagerM (List (String × List String)) := do
  let c ← get
  if c.nodesPerShard = 0 then throw (.panic "integer divide by zero")
  let n := (c.topo.list.length : ℤ).tdiv c.nodesPerShard
  assignMasters clusterName n.toNat c.nodesPerShard.toNat (List.range n.toNat) []

/-- The same masters, each with as many replicas. -/
def equalClusterNodeType (m1 m2 : List (String × List String)) : Bool :=
  m1.length = m2.length && m1.all fun x =>
    match m2.lookup x.1 with
    | none => false
    | some v => v.length = x.2.length

/-- Look `n` times whether a node tells the roles that have been given out. -/
def checkNodeTypeWithRetry (node : RuntimeNode) (masterToSlave : List (String × List String))
    (clusterName : String) : ℕ → ManagerM PUnit
  | 0 => Session.fail "failed to verify node type set"
  | n + 1 => do
    let ok ← tryCatch (do updateAfterSetNodeRole node clusterName; return true) fun
      | .error _ => return false
      | .panic err => throw (.panic err)
    let c ← get
    if ok ∧ equalClusterNodeType masterToSlave c.masterToSlave then return ⟨⟩
    checkNodeTypeWithRetry node masterToSlave clusterName n

def setAllNodeRole (clusterName : String) : ManagerM PUnit := do
  let masterToSlave ← assignMastersAndSlaves clusterName
  let c ← get
  tryCatch
    (forM (c.nodeManager.nodes.filter (·.clusterName = clusterName)) fun node =>
      checkNodeTypeWithRetry node masterToSlave clusterName 10)
    fun
      | .error _ => Session.fail "sync failed"
      | .panic err => throw (.panic err)

/-! ### Slots -/

/-- The slots of the `i`-th of `n` masters. -/
def slotShare (n i : ℕ) : List ℕ :=
  let slotsPerMaster := totalSlots / n
  let startPoint := i * slotsPerMaster
  let stopPoint := if i = n - 1 then totalSlots else startPoint + slotsPerMaster
  (List.range (stopPoint - startPoint)).map (startPoint + ·)

def assignSlotsToMasters : ManagerM PUnit := do
  let c ← get
  let numMasters := c.topo.masterIDs.length
  if numMasters = 0 then
    Session.fail "no available master nodes for slot allocation: no nodes available"
  forM (c.topo.masterIDs.zipIdx) fun (masterID, i) =>
    match c.topo.nodes masterID with
    | none => Session.fail s!"master node not found for ID {masterID}"
    | some masterNode =>
      match c.nodeManager.getNodeByHost masterNode.ip with
      | none => Session.fail s!"runtime node not found for IP {masterNode.ip}"
      | some port => do
        let r : Except String Unit ←
          ManagerM.redis (.clusterAddSlots port.clientConnAddr (slotShare numMasters i))
        Session.orFail r s!"failed to add slots to master {masterID}: "

/-- The number of slots the `i`-th of `n` masters is expected to have. -/
def expectedSlots (n i : ℕ) : ℕ :=
  if i = n - 1 ∧ totalSlots % n ≠ 0 then totalSlots / n + totalSlots % n else totalSlots / n

/-- Look `n` times whether a node tells the slots that have been given out. It is no
error if it never does. -/
def checkSlotCounts (container : RuntimeNode) (clusterName : String) : ℕ → ManagerM PUnit
  | 0 => return ⟨⟩
  | n + 1 => do
    updateSlots container clusterName
    let c ← get
    let masterIDs := c.topo.masterIDs
    if masterIDs = [] then return ⟨⟩
    let ok := masterIDs.zipIdx.all fun (id, i) =>
      match c.topo.nodes id with
      | none => false
      | some masterNode => masterNode.slotsNum = expectedSlots masterIDs.length i
    if ok then return ⟨⟩
    checkSlotCounts container clusterName n

def verifyAllocateSlots (clusterName : String) : ManagerM PUnit := do
  let c ← get
  forM c.nodeManager.nodes fun container => checkSlotCounts container clusterName 10

def allocateSlots (clusterName : String) : ManagerM PUnit := do
  let c ← get
  match c.nodeManager.nodes with
  | [] => Session.fail "no nodes available: no nodes available"
  | node :: _ =>
    updateSlots node clusterName
    assignSlotsToMasters
    verifyAllocateSlots clusterName

/-- Print what the first node says of the cluster. -/
def printClusterNodesInfo : ManagerM PUnit := do
  let c ← get
  match c.nodeManager.nodes with
  | [] => Session.fail "no nodes available: no nodes available"
  | node :: _ =>
    let r : Except String String ← ManagerM.redis (.clusterNodes node.clientConnAddr)
    let _ ← Session.orFail r "failed to get cluster nodes info: "
    return ⟨⟩

end ClusterManager
