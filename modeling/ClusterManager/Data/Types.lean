import Mathlib.Algebra.Order.Ring.Int
import Mathlib.Data.List.Basic

/-!
# The data of the cluster side

The records the cluster manager passes around: a running container
(`RuntimeNode`), a node as `CLUSTER NODES` reports it (`ClusterNode`), a range of
hash slots (`SlotRange`) and one slot to be moved (`SlotTask`).

Slot numbers and slot counts are integers, as they are in the source: the planner
decrements the count of a master without looking whether it is positive, and a walk
over a range counts down past its lower end.
-/

namespace ClusterManager

/-- The number of hash slots of a Redis cluster. -/
def totalSlots : ℕ := 16384

/-- The two addresses a Redis node exposes. -/
structure NodeAddress where
  /-- The address for `CLUSTER MEET`. -/
  clusterAddr : String := ""
  /-- The address for management commands. -/
  clientAddr : String := ""
  deriving DecidableEq, Repr

/-- A running Redis container. -/
structure RuntimeNode where
  hostIP : String
  hostPort : UInt16
  conIp : String
  conPort : UInt16
  /-- The DNS name of the container, empty when DNS is disabled. -/
  hostname : String := ""
  name : String
  id : String
  clusterName : String
  address : NodeAddress := {}
  deriving DecidableEq, Repr

/-- The address for management commands: the recorded one, else host and port. -/
def RuntimeNode.clientConnAddr (n : RuntimeNode) : String :=
  if n.address.clientAddr ≠ "" then n.address.clientAddr
  else n.hostIP ++ ":" ++ toString n.hostPort.toNat

/-- The address for `CLUSTER MEET`: the DNS name when there is one. -/
def RuntimeNode.clusterMeetAddr (n : RuntimeNode) : String :=
  if n.hostname ≠ "" then n.hostname ++ ":" ++ toString n.conPort.toNat
  else n.conIp ++ ":" ++ toString n.conPort.toNat

/-- The role of a node. -/
inductive NodeType
  | master
  | slave
  deriving DecidableEq, Repr

/-- The slots from `start` to `stop`, both included. -/
structure SlotRange where
  start : ℤ
  stop : ℤ
  deriving DecidableEq, Repr

namespace SlotRange

/-- The number of slots of a range. -/
def size (r : SlotRange) : ℕ := (r.stop + 1 - r.start).toNat

/-- The slots of a range from the last one down, the order the planner walks them
in. -/
def slotsDown (r : SlotRange) : List ℤ := (List.range r.size).map fun i => r.stop - i

@[simp] theorem length_slotsDown (r : SlotRange) : r.slotsDown.length = r.size := by
  simp [slotsDown]

end SlotRange

/-- A node as `CLUSTER NODES` reports it. `slots` is read from the report, `slotsNum`
is kept by the manager. -/
structure ClusterNode where
  id : String
  ip : String
  port : UInt16
  nodeType : NodeType
  masterID : String
  linkState : String
  slots : List SlotRange := []
  slotsNum : ℤ := 0
  clusterName : String := ""
  deriving DecidableEq, Repr

/-- The number of slots in the ranges of a node. -/
def ClusterNode.owned (n : ClusterNode) : ℕ := (n.slots.map SlotRange.size).sum

/-- One slot to be moved from one node to another. -/
structure SlotTask where
  slot : ℤ
  fromID : String
  fromIP : String
  toID : String
  toIP : String
  destHostPort : UInt16
  fromHostPort : UInt16
  containerPort : UInt16
  deriving DecidableEq, Repr

end ClusterManager
