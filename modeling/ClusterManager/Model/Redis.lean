import ClusterManager.Data.Types
import ClusterManager.Lib.Program

/-!
# The commands of the cluster manager

What the cluster manager sends to the nodes of a Redis cluster, by the address it
connects to. The connection itself is opened without a round trip and cannot fail.

The moves of slots that a scale-out has planned run concurrently and are one request
here, `migrateSlots`, answered with the result of each of them in the order in which
they finish. `ClusterManager.Model.Execution` says which answers there can be.
-/

namespace ClusterManager

/-- The tasks that take slots from one node. -/
structure MigrationGroup where
  tasks : List SlotTask
  fromIP : String
  fromHostPort : UInt16
  deriving DecidableEq, Repr

inductive RedisCmd where
  | clusterNodes (addr : String)
  | clusterMeet (addr host : String) (port : ℕ)
  | clusterReplicate (addr masterID : String)
  | clusterForget (addr nodeID : String)
  | clusterAddSlots (addr : String) (slots : List ℕ)
  /-- Run the tasks of all groups. -/
  | migrateSlots (groups : List MigrationGroup)
  /-- Tell the cache that slots have moved. -/
  | invalidateSlots (start stop : ℤ)
  deriving DecidableEq, Repr

/-- What a command is answered with. -/
abbrev RedisCmd.Reply : RedisCmd → Type
  | .clusterNodes _ => Except String String
  | .clusterMeet _ _ _ | .clusterReplicate _ _ | .clusterForget _ _ | .clusterAddSlots _ _ =>
    Except String Unit
  | .migrateSlots _ => List (SlotTask × Except String Unit)
  | .invalidateSlots _ _ => Unit

abbrev RedisProgram := Program RedisCmd RedisCmd.Reply

/-- Send one command. -/
abbrev sendRedis (c : RedisCmd) : RedisProgram c.Reply := Program.send c

/-- Redis that takes every command and shows the same nodes for ever. -/
def frozenRedis (text : String) : Handler RedisCmd RedisCmd.Reply Unit := fun s c =>
  match c with
  | .clusterNodes _ => (.ok text, s)
  | .clusterMeet _ _ _ | .clusterReplicate _ _ | .clusterForget _ _ | .clusterAddSlots _ _ =>
    (.ok (), s)
  | .migrateSlots _ => ([], s)
  | .invalidateSlots _ _ => ((), s)

end ClusterManager
