import Mathlib.Data.List.Sort
import ClusterManager.Backend.Base

/-!
# The topology a cluster manager keeps

`Topology` is what a `ClusterManager` remembers of the Redis cluster between two
`CLUSTER NODES` replies. Its maps hold *pointers*: `list` and, after
`Topology.addNewMaster`, `empty` share the records of `nodes`, so that counting a
slot on an empty master is counting it on the node of that name. A refresh of the
slots puts copies into `empty` instead, which nothing else sees. `EmptyRef` keeps the
two apart; the records that `list` shares with `nodes` are written as their names.
-/

namespace ClusterManager

/-- An entry of the list of empty masters. -/
inductive EmptyRef
  /-- The record `nodes` holds under this name. -/
  | shared (id : String)
  /-- A record of its own. -/
  | copy (node : ClusterNode)
  deriving DecidableEq, Repr

theorem nodes_id_none : ∀ (id : String) (n : ClusterNode), none = some n → n.id = id := by simp

theorem empty_mem_nil : ∀ id, EmptyRef.shared id ∈ [] → (none : Option ClusterNode).isSome := by
  simp

/-- The Redis cluster as the manager knows it. -/
structure Topology where
  nodes : String → Option ClusterNode := fun _ => none
  ipToID : String → Option String := fun _ => none
  list : List String := []
  masterIDs : List String := []
  masterSet : String → Bool := fun _ => false
  empty : List EmptyRef := []
  /-- A node is filed under its own name. -/
  nodes_id : ∀ id n, nodes id = some n → n.id = id := by first | exact nodes_id_none | simp
  /-- A shared entry shares a record there is. -/
  empty_mem : ∀ id, EmptyRef.shared id ∈ empty → (nodes id).isSome := by
    first | exact empty_mem_nil | simp

namespace Topology

/-- The record an entry of `empty` stands for. -/
def deref (t : Topology) : EmptyRef → Option ClusterNode
  | .shared id => t.nodes id
  | .copy n => some n

/-- The `i`-th empty master. -/
def emptyNode (t : Topology) (i : ℕ) : Option ClusterNode := t.empty[i]?.bind t.deref

/-- The slot count of the node of that name, 0 when there is none. -/
def slotsNum (t : Topology) (id : String) : ℤ := ((t.nodes id).map (·.slotsNum)).getD 0

/-- Forget the empty masters. -/
def resetEmptyMasters (t : Topology) : Topology := { t with empty := [], empty_mem := by simp }

/-- Count one more master, and one more empty one if the node is known. -/
def addNewMaster (t : Topology) (masterID : String) : Topology :=
  if h : (t.nodes masterID).isSome then
    { t with
      masterIDs := t.masterIDs ++ [masterID]
      empty := t.empty ++ [.shared masterID]
      empty_mem := by
        intro id hid
        rcases List.mem_append.mp hid with hid | hid
        · exact t.empty_mem id hid
        · obtain rfl : id = masterID := by simpa using hid
          exact h }
  else { t with masterIDs := t.masterIDs ++ [masterID] }

/-- File a node that has been met. -/
def addMetNode (t : Topology) (n : ClusterNode) : Topology :=
  { t with
    nodes := Function.update t.nodes n.id (some n)
    ipToID := Function.update t.ipToID n.ip (some n.id)
    list := t.list ++ [n.id]
    nodes_id := by
      intro id m hm
      rw [Function.update_apply] at hm
      split at hm
      · rename_i heq
        cases hm
        exact heq.symm
      · exact t.nodes_id id m hm
    empty_mem := by
      intro id hid
      rw [Function.update_apply]
      split
      · rfl
      · exact t.empty_mem id hid }

@[simp] theorem addMetNode_nodes (t : Topology) (n : ClusterNode) :
    (t.addMetNode n).nodes = Function.update t.nodes n.id (some n) := rfl

@[simp] theorem addMetNode_ipToID (t : Topology) (n : ClusterNode) :
    (t.addMetNode n).ipToID = Function.update t.ipToID n.ip (some n.id) := rfl

/-- The address of the node of a name. -/
def ipOf (t : Topology) (id : String) : String := ((t.nodes id).map (·.ip)).getD ""

/-- Sort the lists of nodes by address. -/
def sortInfo (t : Topology) : Topology :=
  { t with
    list := t.list.insertionSort fun a b => t.ipOf a ≤ t.ipOf b
    empty := t.empty.insertionSort fun a b =>
      ((t.deref a).map (·.ip)).getD "" ≤ ((t.deref b).map (·.ip)).getD ""
    empty_mem := by
      intro id hid
      exact t.empty_mem id ((List.mem_insertionSort _).mp hid) }

/-- Forget the masters. -/
def resetMasters (t : Topology) : Topology :=
  { t with masterIDs := [], masterSet := fun _ => false }

/-- Count one more master. -/
def addMaster (t : Topology) (id : String) : Topology :=
  { t with masterIDs := t.masterIDs ++ [id], masterSet := Function.update t.masterSet id true }

/-- Sort the masters by name. -/
def sortMasters (t : Topology) : Topology :=
  { t with masterIDs := t.masterIDs.insertionSort (· ≤ ·) }

/-- Note how many slots a node has, and that it is empty if it has no range. -/
def refreshSlots (t : Topology) (n : ClusterNode) (slotsNum : ℤ) : Topology :=
  { t with
    nodes := fun j =>
      (t.nodes j).map fun m => if j = n.id then { m with slotsNum := slotsNum } else m
    empty := if n.slots = [] then t.empty ++ [.copy n] else t.empty
    nodes_id := by
      intro j m hm
      obtain ⟨m', hm', rfl⟩ := Option.map_eq_some_iff.mp hm
      split <;> exact t.nodes_id j m' hm'
    empty_mem := by
      intro id hid
      rw [Option.isSome_map]
      split at hid
      · exact t.empty_mem id (by simpa using hid)
      · exact t.empty_mem id hid }

/-- Change the slot count of a node by `d`. -/
def addNodeSlots (t : Topology) (id : String) (d : ℤ) : Topology :=
  { t with
    nodes := fun j =>
      (t.nodes j).map fun n => if j = id then { n with slotsNum := n.slotsNum + d } else n
    nodes_id := by
      intro j n hn
      obtain ⟨n', hn', rfl⟩ := Option.map_eq_some_iff.mp hn
      split <;> exact t.nodes_id j n' hn'
    empty_mem := by
      intro j hj
      rw [Option.isSome_map]
      exact t.empty_mem j hj }

/-- Change the slot count of the `i`-th empty master by `d`, where its record is. -/
def addEmptySlots (t : Topology) (i : ℕ) (d : ℤ) : Topology :=
  match t.empty[i]? with
  | none => t
  | some (.shared id) => t.addNodeSlots id d
  | some (.copy n) =>
    { t with
      empty := t.empty.set i (.copy { n with slotsNum := n.slotsNum + d })
      empty_mem := by
        intro id hid
        rcases List.mem_or_eq_of_mem_set hid with h | h
        · exact t.empty_mem id h
        · cases h }

@[simp] theorem addNodeSlots_masterIDs (t : Topology) (id : String) (d : ℤ) :
    (t.addNodeSlots id d).masterIDs = t.masterIDs := rfl

@[simp] theorem addNodeSlots_empty (t : Topology) (id : String) (d : ℤ) :
    (t.addNodeSlots id d).empty = t.empty := rfl

theorem addNodeSlots_nodes (t : Topology) (id : String) (d : ℤ) (j : String) :
    (t.addNodeSlots id d).nodes j =
      (t.nodes j).map fun n => if j = id then { n with slotsNum := n.slotsNum + d } else n := rfl

theorem addNodeSlots_slotsNum {t : Topology} {id : String} {d : ℤ} {j : String}
    (h : j = id → (t.nodes id).isSome) :
    (t.addNodeSlots id d).slotsNum j = t.slotsNum j + if j = id then d else 0 := by
  rw [slotsNum, slotsNum, addNodeSlots_nodes]
  rcases eq_or_ne j id with rfl | hj
  · obtain ⟨n, hn⟩ := Option.isSome_iff_exists.mp (h rfl)
    simp [hn]
  · cases t.nodes j <;> simp [hj]

end Topology

end ClusterManager
