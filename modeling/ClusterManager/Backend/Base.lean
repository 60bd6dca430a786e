import ClusterManager.Data.Types
import ClusterManager.Lib.Latest

/-!
# The nodes a backend tracks

`BaseNodeManager` is the bookkeeping both backends share: the list of the containers
they know, in the order they came to know them, and three indexes into it. The
indexes are written last-wins, so an address that two containers share resolves to
the one added last.
-/

namespace ClusterManager

/-- The node-tracking state shared by the backends. -/
structure BaseNodeManager where
  ipToNode : String → Option RuntimeNode := fun _ => none
  hostToNode : String → Option RuntimeNode := fun _ => none
  idToNode : String → Option RuntimeNode := fun _ => none
  nodes : List RuntimeNode := []
  num : ℕ := 0

namespace BaseNodeManager

/-- Track one more node. -/
def addNode (b : BaseNodeManager) (node : RuntimeNode) : BaseNodeManager where
  nodes := b.nodes ++ [node]
  num := b.num + 1
  ipToNode := Function.update b.ipToNode node.conIp (some node)
  idToNode := Function.update b.idToNode node.id (some node)
  hostToNode :=
    if node.hostname ≠ "" then Function.update b.hostToNode node.hostname (some node)
    else b.hostToNode

/-- Some tracked node belongs to the cluster. -/
def hasCluster (b : BaseNodeManager) (clusterName : String) : Bool :=
  b.nodes.any fun node => node.clusterName == clusterName

def getNodes (b : BaseNodeManager) : List RuntimeNode := b.nodes

def getNodeByIP (b : BaseNodeManager) (ip : String) : Option RuntimeNode := b.ipToNode ip

/-- A node by DNS name, else by container address. -/
def getNodeByHost (b : BaseNodeManager) (host : String) : Option RuntimeNode :=
  (b.hostToNode host).or (b.ipToNode host)

def getNodeCount (b : BaseNodeManager) : ℕ := b.num

/-- The number of tracked nodes of the cluster. -/
def countByCluster (b : BaseNodeManager) (name : String) : ℕ :=
  (b.nodes.filter fun node => node.clusterName == name).length

/-- Forget every node. -/
def resetMaps (_ : BaseNodeManager) : BaseNodeManager := {}

/-- The tracked nodes are counted, and filed under their addresses. -/
structure Filed (b : BaseNodeManager) : Prop where
  num : b.num = b.nodes.length
  ip : b.ipToNode = latest RuntimeNode.conIp b.nodes

theorem filed_empty : Filed {} := ⟨rfl, rfl⟩

theorem Filed.addNode {b : BaseNodeManager} (h : b.Filed) (node : RuntimeNode) :
    (b.addNode node).Filed where
  num := by simp [BaseNodeManager.addNode, h.num]
  ip := by
    rw [BaseNodeManager.addNode, h.ip]
    exact update_latest

end BaseNodeManager

end ClusterManager
