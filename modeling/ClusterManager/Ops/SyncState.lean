import Mathlib.Data.List.Perm.Basic
import ClusterManager.Model.Allocation
import ClusterManager.Model.RoleCheck
import ClusterManager.Ops.History

/-!
# Reading a cluster back

Scaling starts in a process of its own. What an earlier process has known of the cluster is gone,
and `sync-state` has to read it from one of the nodes: the nodes, then their roles, then their
slots. The three reads are three requests, and each of them writes to another part of the memory.

`StableCluster` is a cluster in which nothing is going on, and `StableCluster.Known` says that the
memory holds that cluster, no more and no less: no node is missing or made up, the counts are those
of the ranges, every replica is under its master, and the empty masters are those without a range.
Reading a stable cluster does that (`Scale.syncState_known`), and it leaves what the planner asks
for. The list of the empty masters is load-bearing there: it is built from copies of the reply, and
a master with a range that got on it would be planned for as if it had none.
-/

namespace ClusterManager

/-- A node as it is read. -/
def NodeReport.nodeIn (n : NodeReport) (clusterName : String) : ClusterNode :=
  { n.node with clusterName := clusterName }

/-- A cluster in which nothing is going on. -/
structure StableCluster where
  nodes : List NodeReport
  ids_nodup : (nodes.map (·.id)).Nodup
  /-- Every node knows its own address. -/
  host_ne : ∀ n ∈ nodes, n.host ≠ ""
  /-- A replica has a master. -/
  master_mem : ∀ n ∈ nodes, n.nodeType = .slave →
    ∃ k ∈ nodes, k.nodeType = .master ∧ k.id = n.masterID
  /-- No slot has two owners. -/
  ranges_disjoint : (nodes.flatMap (·.ranges)).Pairwise SlotRange.Disjoint

namespace StableCluster

variable (c : StableCluster) (clusterName : String)

def masterIDs : List String := (c.nodes.filter (·.nodeType = .master)).map (·.id)

def replicasOf (masterID : String) : List String :=
  (c.nodes.filter fun n => n.nodeType = .slave ∧ n.masterID = masterID).map (·.id)

def read : List ClusterNode := c.nodes.map (·.nodeIn clusterName)

/-- **The memory holds the cluster**, and nothing else. -/
structure Known (m : Manager) : Prop where
  nodes : ∀ id, m.topo.nodes id = (c.nodes.find? (·.id = id)).map fun n =>
    { n.nodeIn clusterName with slotsNum := ((n.ranges.map SlotRange.size).sum : ℕ) }
  masterIDs : m.topo.masterIDs = c.masterIDs.insertionSort (· ≤ ·)
  replicas : ∀ id, m.masterToSlave.lookup id =
    if id ∈ c.masterIDs then some ((c.replicasOf id).insertionSort (· ≤ ·)) else none
  empty : m.topo.empty = (c.nodes.filter fun n => n.nodeType = .master ∧ n.ranges = []).map
    fun n => .copy (n.nodeIn clusterName)

/-! ### The cluster as it is read -/

variable {c clusterName}

theorem find?_of_mem {n : NodeReport} (hn : n ∈ c.nodes) :
    c.nodes.find? (·.id = n.id) = some n := by
  rcases hfind : c.nodes.find? (·.id = n.id) with _ | k
  · simpa using List.find?_eq_none.mp hfind n hn
  · have hid : k.id = n.id := by simpa using List.find?_some hfind
    rw [hfind, List.inj_on_of_nodup_map c.ids_nodup (List.mem_of_find?_eq_some hfind) hn hid]

theorem find?_read (id : String) :
    (c.read clusterName).find? (·.id = id) =
      (c.nodes.find? (·.id = id)).map (·.nodeIn clusterName) :=
  List.find?_map

theorem shownMasterIDs_read : shownMasterIDs (c.read clusterName) = c.masterIDs := by
  rw [shownMasterIDs, read, List.filter_map, List.map_map]
  rfl

theorem shownReplicas_read (id : String) :
    shownReplicas (c.read clusterName) id = c.replicasOf id := by
  rw [shownReplicas, read, List.filter_map, List.map_map]
  rfl

theorem mastersShown_read : MastersShown (c.read clusterName) := by
  intro n hn hslave
  obtain ⟨r, hr, rfl⟩ := List.mem_map.mp hn
  obtain ⟨k, hk, hmaster, hid⟩ := c.master_mem r hr hslave
  rw [shownMasterIDs_read]
  exact List.mem_map.mpr ⟨k, List.mem_filter.mpr ⟨hk, decide_eq_true hmaster⟩, hid⟩

/-- The backend tracks the nodes, for the cluster of that name. -/
def TrackedBy (c : StableCluster) (clusterName : String) (base : BaseNodeManager) : Prop :=
  ∀ n ∈ c.nodes, ∃ node, base.getNodeByHost n.host = some node ∧ node.clusterName = clusterName

theorem TrackedBy.filter {base : BaseNodeManager} (h : c.TrackedBy clusterName base) :
    ∀ n ∈ c.nodes, ((base.getNodeByHost n.host).map fun node =>
      decide (node.clusterName = clusterName)).getD false = true := by
  intro n hn
  obtain ⟨node, hnode, hname⟩ := h n hn
  simp [hnode, hname]

theorem TrackedBy.shownNodes {base : BaseNodeManager} (h : c.TrackedBy clusterName base) :
    shownNodes base clusterName (renderNodes c.nodes) = c.read clusterName := by
  rw [ClusterManager.shownNodes,
    fst_parseClusterNodeLines_renderNodes c.nodes _ c.host_ne h.filter, List.map_map]
  rfl

/-- No node is failing, and so none is forgotten. -/
theorem TrackedBy.afterForget {base : BaseNodeManager} (h : c.TrackedBy clusterName base)
    {σ : Type} (H : Handler RedisCmd RedisCmd.Reply σ) (s : σ) :
    afterForget H base clusterName (renderNodes c.nodes) s = s := by
  have hnone : (parseClusterNodeLines (Text.split '\n' (renderNodes c.nodes)) fun ip =>
      ((base.getNodeByHost ip).map fun node =>
        decide (node.clusterName = clusterName)).getD false).2 = [] := by
    rw [parseClusterNodeLines_snd, split_renderNodes, List.filterMap_append, List.filterMap_map]
    refine (List.append_nil _).trans (List.filterMap_eq_nil_iff.mpr fun n hn => ?_)
    rw [Function.comp_apply, n.parseClusterNodeLine_line _ (c.host_ne n hn) (h.filter n hn)]
    rfl
  rw [ClusterManager.afterForget, hnone]
  split <;> rfl

end StableCluster

/-! ### What the reads write -/

namespace Topology

variable {t : Topology} {id : String}

theorem nodes_foldl_fileNew (nodes : List ClusterNode) (t : Topology) :
    (nodes.foldl fileNew t).nodes id = (t.nodes id).or (nodes.find? (·.id = id)) := by
  induction nodes generalizing t with
  | nil => simp
  | cons n nodes ih =>
    rw [List.foldl_cons, ih, fileNew]
    by_cases hid : n.id = id
    · subst hid
      rcases ht : t.nodes n.id with _ | k <;> simp [ht]
    · have hne : id ≠ n.id := fun h => hid h.symm
      split <;> simp [hid, hne]

/-- A node that the reply does not show as a master keeps its count. -/
theorem slotsNum_noteSlots_of_not {nodes : List ClusterNode}
    (hnot : ∀ n ∈ nodes, n.nodeType = .master → n.id ≠ id) :
    (t.noteSlots nodes).slotsNum id = t.slotsNum id := by
  refine List.foldlRecOn nodes _ (motive := fun t' : Topology => t'.slotsNum id = t.slotsNum id) rfl
    fun t' ht n hn => ?_
  rw [noteNode]
  split
  · rename_i hmaster
    rw [slotsNum_refreshSlots hmaster.2, if_neg (hnot n hn hmaster.1).symm]
    exact ht
  · exact ht

/-- Noting slots changes nothing in a record but the count. -/
theorem nodes_noteSlots {nodes : List ClusterNode} {k : ClusterNode} (hk : t.nodes id = some k) :
    (t.noteSlots nodes).nodes id = some { k with slotsNum := (t.noteSlots nodes).slotsNum id } := by
  have hshape : ∃ v, (t.noteSlots nodes).nodes id = some { k with slotsNum := v } := by
    refine noteSlots_keeps (I := fun t' => ∃ v, t'.nodes id = some { k with slotsNum := v })
      ⟨k.slotsNum, hk⟩ ?_
    rintro t' n v ⟨v', ht'⟩
    rw [refreshSlots]
    dsimp only
    rw [ht']
    by_cases hid : id = n.id
    · exact ⟨v, by simp [hid]⟩
    · exact ⟨v', by simp [hid]⟩
  obtain ⟨v, hv⟩ := hshape
  rw [slotsNum, hv]
  rfl

/-- The empty masters are those that the reply shows without a range. -/
theorem empty_noteSlots {nodes : List ClusterNode} (hknown : ∀ n ∈ nodes, (t.nodes n.id).isSome) :
    (t.noteSlots nodes).empty =
      (nodes.filter fun n => n.nodeType = .master ∧ n.slots = []).map EmptyRef.copy := by
  have key : ∀ (l : List ClusterNode) (t : Topology), (∀ n ∈ l, (t.nodes n.id).isSome) →
      (l.foldl noteNode t).empty = t.empty ++
        (l.filter fun n => n.nodeType = .master ∧ n.slots = []).map EmptyRef.copy := by
    intro l
    induction l with
    | nil => simp
    | cons n l ih =>
      intro t ht
      rw [List.foldl_cons, noteNode]
      have htail := fun k hk => ht k (List.mem_cons_of_mem _ hk)
      by_cases hmaster : n.nodeType = .master
      · rw [if_pos ⟨hmaster, ht n List.mem_cons_self⟩,
          ih _ fun k hk => (Option.isSome_map).trans (htail k hk), refreshSlots]
        by_cases hslots : n.slots = [] <;> simp [hmaster, hslots]
      · rw [if_neg fun h => hmaster h.1, ih t htail]
        simp [hmaster]
  exact key nodes t.resetEmptyMasters hknown

end Topology

/-- The count of a node is that of its ranges: a replica has none, and starts with none. -/
theorem StableCluster.slotsNum_noteSlots {c : StableCluster} {clusterName : String} {t : Topology}
    {n : NodeReport} (hn : n ∈ c.nodes) (ht : t.nodes n.id = some (n.nodeIn clusterName)) :
    (t.noteSlots (c.read clusterName)).slotsNum n.id =
      ((n.ranges.map SlotRange.size).sum : ℕ) := by
  -- no other node has the name
  have huniq : ∀ k ∈ c.read clusterName, k.id = n.id → k = n.nodeIn clusterName := by
    intro k hk hid
    obtain ⟨r, hr, rfl⟩ := List.mem_map.mp hk
    rw [List.inj_on_of_nodup_map c.ids_nodup hr hn hid]
  cases htype : n.nodeType with
  | master =>
    refine Topology.slotsNum_noteSlots (Option.isSome_of_eq_some ht) (fun k hk _ hid => ?_)
      ⟨_, List.mem_map_of_mem hn, htype, rfl⟩
    rw [huniq k hk hid]
    refine (calculateSlots_eq_iff n.ranges).mpr fun r hr => ?_
    have hle := (n.ranges_le r hr).2.1
    omega
  | slave =>
    rw [Topology.slotsNum_noteSlots_of_not, Topology.slotsNum, ht, n.ranges_slave htype]
    · rfl
    · intro k hk hmaster hid
      rw [huniq k hk hid] at hmaster
      exact absurd (htype.symm.trans hmaster) (by decide)

section Reads

variable {σ : Type} {h : Handler RedisCmd RedisCmd.Reply σ} {m m' : Manager} {s s' : σ}

/-- Noting the roles changes the masters, and nothing else in the topology. -/
theorem topo_buildMasterSlaveTopology {masters slaves : List ClusterNode}
    (hok : Session.exec h (buildMasterSlaveTopology masters slaves) m s = ((.ok ⟨⟩, m'), s')) :
    m'.topo.nodes = m.topo.nodes ∧ m'.topo.masterIDs =
      (m.topo.masterIDs ++ masters.map (·.id)).insertionSort (· ≤ ·) := by
  have hfold : ∀ (l : List ClusterNode) (c c' : Manager), (l.foldl (fun c master =>
      { c with
        topo := c.topo.addMaster master.id
        masterToSlave := setEntry c.masterToSlave master.id [] }) c) = c' →
      c'.topo.nodes = c.topo.nodes ∧ c'.topo.masterIDs = c.topo.masterIDs ++ l.map (·.id) := by
    intro l
    induction l with
    | nil =>
      rintro c _ rfl
      simp
    | cons master l ih =>
      intro c c' hc'
      obtain ⟨hnodes, hids⟩ := ih _ c' hc'
      exact ⟨hnodes, hids.trans (List.append_assoc _ _ _)⟩
  rw [buildMasterSlaveTopology, Session.exec_bind_of_ok (Session.exec_forM_modify h m s _ _)] at hok
  obtain ⟨_, m₁, s₁, hslaves, hsort⟩ := Session.exec_bind_ok hok
  have hkeeps : ∀ c : Manager,
      (Session.exec h (forM slaves fileReplica) c s).1.2.topo = c.topo := by
    intro c
    refine Session.Keeps.exec (I := fun c' : Manager => c'.topo = c.topo)
      (Session.Keeps.forM fun slave _ => Session.Keeps.get_bind fun c hc => ?_) rfl
    simp only [Session.fail_bind]
    split
    · exact Session.Keeps.fail _ _
    · exact Session.Keeps.modify fun _ hm => hm
  have htopo := (congrArg (fun r => r.1.2.topo) hslaves).symm.trans (hkeeps _)
  obtain ⟨hnodes, hids⟩ := hfold masters m _ rfl
  rw [Session.exec_modify] at hsort
  cases hsort
  rw [← hnodes, ← hids, ← htopo]
  exact ⟨rfl, rfl⟩

variable {c : StableCluster} {clusterName : String} {loginNode : RuntimeNode}
  (hnum : m.nodeManager.num ≠ 0) (hne : m.nodeManager.nodes ≠ [])
  (htracked : c.TrackedBy clusterName m.nodeManager)
  (hr : h s (.clusterNodes loginNode.clientConnAddr) = (.ok (renderNodes c.nodes), s))

include hne htracked hr

theorem getClusterNodes_of_stable :
    Session.exec h (getClusterNodes loginNode clusterName) m s =
      ((.ok (c.read clusterName), m), s) := by
  rw [(getClusterNodes_of_ok hne clusterName (congrArg Prod.fst hr)).1, hr, htracked.afterForget,
    htracked.shownNodes]

include hnum

/-- The first read files the nodes that are not known. -/
theorem updateAfterMeet_of_stable :
    ∃ m₁, Session.exec h (updateAfterMeet loginNode clusterName) m s = ((.ok ⟨⟩, m₁), s) ∧
      m₁.nodeManager = m.nodeManager ∧
      ∀ id, m₁.topo.nodes id = (m.topo.nodes id).or ((c.read clusterName).find? (·.id = id)) := by
  obtain ⟨hok, htopo⟩ := exec_updateAfterMeet clusterName hnum hne (congrArg Prod.fst hr)
  have hkeeps := (updateAfterMeet_keepsNodes loginNode clusterName m.nodeManager).exec
    (h := h) (s := s) rfl
  have hstate : (Session.exec h (updateAfterMeet loginNode clusterName) m s).2 = s := by
    rw [updateAfterMeet, Session.exec_bind, Session.exec_get]
    simp only [if_neg hnum]
    rw [Session.exec_bind_of_ok (getClusterNodes_of_stable hne htracked hr)]
    -- what follows the request sends nothing
    refine (show Session.Sends (fun _ => False) _ from ?_).exec_inv (J := (· = s))
      (fun _ _ hc => hc.elim) rfl
    exact (Session.Sends.forM fun node _ => Session.Sends.get.bind fun c =>
      Session.Sends.ite (Session.Sends.modify _) (Session.Sends.pure _)).bind fun _ =>
        Session.Sends.modify _
  refine ⟨_, Prod.ext (Prod.ext hok rfl) hstate, hkeeps, fun id => ?_⟩
  rw [htopo, htracked.shownNodes]
  exact Topology.nodes_foldl_fileNew _ _

/-- The second read notes the roles. -/
theorem updateAfterSetNodeRole_of_stable :
    ∃ m₁, Session.exec h (updateAfterSetNodeRole loginNode clusterName) m s = ((.ok ⟨⟩, m₁), s) ∧
      m₁.nodeManager = m.nodeManager ∧ m₁.topo.nodes = m.topo.nodes ∧
      m₁.topo.masterIDs = c.masterIDs.insertionSort (· ≤ ·) ∧
      m₁.masterToSlave = builtRoles (c.read clusterName) := by
  have hlook : roleLook h m.nodeManager clusterName loginNode.clientConnAddr s =
      (some (c.read clusterName), s) := by
    rw [roleLook, if_neg hnum, hr]
    dsimp only
    rw [htracked.shownNodes, htracked.afterForget, if_pos StableCluster.mastersShown_read]
  obtain ⟨r, m₁, hexec, hbase, -, hroles⟩ :=
    exec_updateAfterSetNodeRole (h := h) (s := s) clusterName hne loginNode
  rw [hlook] at hexec hroles
  obtain ⟨rfl, hroles⟩ := hroles
  suffices htopo : m₁.topo.nodes = m.topo.nodes ∧
      m₁.topo.masterIDs = (shownMasterIDs (c.read clusterName)).insertionSort (· ≤ ·) by
    rw [StableCluster.shownMasterIDs_read] at htopo
    exact ⟨m₁, hexec, hbase, htopo.1, htopo.2, hroles⟩
  have hget := getClusterNodes_of_stable
    (m := { m with masterToSlave := [], topo := m.topo.resetMasters }) hne htracked hr
  rw [updateAfterSetNodeRole, Session.exec_bind_of_ok (Session.exec_modify h m s _),
    Session.exec_bind_of_ok (Session.exec_get h _ s)] at hexec
  dsimp only at hexec
  rw [if_neg hnum, Session.exec_bind_of_ok hget] at hexec
  by_cases hnil : c.read clusterName = []
  · rw [if_pos hnil] at hexec
    cases hexec
    rw [hnil]
    exact ⟨rfl, rfl⟩
  · rw [if_neg hnil] at hexec
    exact topo_buildMasterSlaveTopology hexec

/-- **A stable cluster is read back** by the three reads. -/
theorem known_of_stable (hfresh : ∀ id, m.topo.nodes id = none) :
    ∃ m₁ m₂ m₃,
      Session.exec h (updateAfterMeet loginNode clusterName) m s = ((.ok ⟨⟩, m₁), s) ∧
      Session.exec h (updateAfterSetNodeRole loginNode clusterName) m₁ s = ((.ok ⟨⟩, m₂), s) ∧
      Session.exec h (updateSlots loginNode clusterName) m₂ s = ((.ok ⟨⟩, m₃), s) ∧
      c.Known clusterName m₃ := by
  obtain ⟨m₁, hmeet, hbase₁, hnodes₁⟩ := updateAfterMeet_of_stable hnum hne htracked hr
  rw [← hbase₁] at hnum hne htracked
  obtain ⟨m₂, hrole, hbase₂, hnodes₂, hmasters, hroles⟩ :=
    updateAfterSetNodeRole_of_stable hnum hne htracked hr
  rw [← hbase₂] at hnum hne htracked
  have hslots := (updateSlots_of_ok hnum hne clusterName (congrArg Prod.fst hr)).1
  rw [hr, htracked.afterForget, htracked.shownNodes] at hslots
  refine ⟨m₁, m₂, _, hmeet, hrole, hslots, ?_⟩
  have hnodes : ∀ id, m₂.topo.nodes id =
      (c.nodes.find? (·.id = id)).map (·.nodeIn clusterName) := by
    intro id
    rw [hnodes₂, hnodes₁, hfresh, Option.none_or, StableCluster.find?_read]
  have hmem : ∀ n ∈ c.nodes, m₂.topo.nodes n.id = some (n.nodeIn clusterName) := by
    intro n hn
    rw [hnodes, StableCluster.find?_of_mem hn]
    rfl
  refine ⟨fun id => ?_, Topology.noteSlots_masterIDs.trans hmasters, fun id => ?_, ?_⟩
  · rcases hfind : c.nodes.find? (·.id = id) with _ | n
    · rw [hfind]
      refine Option.not_isSome_iff_eq_none.mp ?_
      rw [Topology.isSome_noteSlots, hnodes, hfind]
      exact Bool.false_ne_true
    · have hn := List.mem_of_find?_eq_some hfind
      obtain rfl : n.id = id := by simpa using List.find?_some hfind
      rw [hfind, Topology.nodes_noteSlots (hmem n hn),
        StableCluster.slotsNum_noteSlots hn (hmem n hn)]
      rfl
  · rw [hroles, lookup_builtRoles StableCluster.mastersShown_read,
      StableCluster.shownMasterIDs_read, StableCluster.shownReplicas_read]
  · have hknown : ∀ n ∈ c.read clusterName, (m₂.topo.nodes n.id).isSome := by
      intro n hn
      obtain ⟨r, hr, rfl⟩ := List.mem_map.mp hn
      exact Option.isSome_of_eq_some (hmem r hr)
    rw [Topology.empty_noteSlots hknown, StableCluster.read, List.filter_map, List.map_map]
    rfl

end Reads

/-! ### What the planner asks for -/

namespace StableCluster.Known

variable {c : StableCluster} {clusterName : String} {m : Manager} (hk : c.Known clusterName m)

include hk

theorem nodes_of_mem {n : NodeReport} (hn : n ∈ c.nodes) : m.topo.nodes n.id =
    some { n.nodeIn clusterName with slotsNum := ((n.ranges.map SlotRange.size).sum : ℕ) } := by
  rw [hk.nodes, find?_of_mem hn]
  rfl

theorem masterIDs_perm : m.topo.masterIDs.Perm c.masterIDs := by
  rw [hk.masterIDs]
  exact List.perm_insertionSort _ _

theorem masterIDs_nodup : m.topo.masterIDs.Nodup :=
  hk.masterIDs_perm.nodup_iff.mpr (c.ids_nodup.sublist (List.filter_sublist.map _))

theorem rangesDisjoint : m.topo.RangesDisjoint := by
  have hranges : c.masterIDs.flatMap m.topo.rangesOf =
      (c.nodes.filter (·.nodeType = .master)).flatMap (·.ranges) := by
    rw [StableCluster.masterIDs, List.flatMap_map]
    refine List.flatMap_congr fun n hn => ?_
    rw [Topology.rangesOf, hk.nodes_of_mem (List.mem_filter.mp hn).1]
    rfl
  have hsymm : ∀ {r r' : SlotRange}, r.Disjoint r' → r'.Disjoint r :=
    fun hdis i hi hi' => hdis i hi' hi
  rw [Topology.RangesDisjoint, (hk.masterIDs_perm.flatMap_right _).pairwise_iff hsymm, hranges]
  exact c.ranges_disjoint.sublist (List.filter_sublist.flatMap _)

theorem countsSlots : m.topo.CountsSlots := by
  intro id _ n hn
  rw [hk.nodes] at hn
  obtain ⟨r, -, rfl⟩ := Option.map_eq_some_iff.mp hn
  rfl

/-- If every slot has an owner, the masters that are not empty own them all. -/
theorem oldCover (hcover : ∀ i : ℕ, i < totalSlots → ∃ n ∈ c.nodes, ∃ r ∈ n.ranges, (i : ℤ) ∈ r) :
    m.topo.OldCover clusterName := by
  intro i hi
  obtain ⟨n, hn, r, hr, hir⟩ := hcover i hi
  have hnodes := hk.nodes_of_mem hn
  have hmaster : n.nodeType = .master := by
    cases htype : n.nodeType with
    | master => rfl
    | slave =>
      rw [n.ranges_slave htype] at hr
      cases hr
  refine ⟨n.id, ⟨hk.masterIDs_perm.mem_iff.mpr ?_, fun hempty => ?_, _, hnodes, rfl⟩,
    Topology.mem_slotsOf.mpr ⟨_, hnodes, r, hr, hir⟩⟩
  · exact List.mem_map_of_mem (List.mem_filter.mpr ⟨hn, decide_eq_true hmaster⟩)
  · rw [Topology.emptyIDs, hk.empty, List.map_map] at hempty
    obtain ⟨k, hk, hid⟩ := List.mem_map.mp hempty
    obtain ⟨hmem, hk⟩ := List.mem_filter.mp hk
    obtain rfl : k = n := List.inj_on_of_nodup_map c.ids_nodup hmem hn hid
    rw [(of_decide_eq_true hk).2] at hr
    cases hr

end StableCluster.Known

/-! ### The step -/

namespace Scale

variable {ρ : Type}

/-- **A process that knows only the containers reads a stable cluster back**, and nothing of the
world is changed by it. What it then knows is the cluster as it is, fit for the planner. -/
theorem syncState_known (env : OpsEnv ρ) (c : StableCluster) (clusterName : String) (m : Manager)
    (w : World ρ) {loginNode : RuntimeNode} (hfind : findClusterNode m clusterName = some loginNode)
    (hnum : m.nodeManager.num ≠ 0) (hfresh : ∀ id, m.topo.nodes id = none)
    (htracked : c.TrackedBy clusterName m.nodeManager)
    (hr : env.redis w.podman.containers w.redis (.clusterNodes loginNode.clientConnAddr) =
      (.ok (renderNodes c.nodes), w.redis)) :
    ∃ m', Session.exec env.handler (syncState clusterName).action m w = ((.ok ⟨⟩, m'), w) ∧
      c.Known clusterName m' ∧ m'.topo.masterIDs.Nodup ∧ m'.topo.RangesDisjoint ∧
      m'.topo.CountsSlots ∧
      ((∀ i : ℕ, i < totalSlots → ∃ n ∈ c.nodes, ∃ r ∈ n.ranges, (i : ℤ) ∈ r) →
        m'.topo.OldCover clusterName) := by
  have hne : m.nodeManager.nodes ≠ [] := by
    intro hnil
    rw [findClusterNode, hnil] at hfind
    cases hfind
  obtain ⟨m₁, m₂, m₃, hmeet, hrole, hslots, hk⟩ := known_of_stable hnum hne htracked hr hfresh
  refine ⟨m₃, ?_, hk, hk.masterIDs_nodup, hk.rangesDisjoint, hk.countsSlots, hk.oldCover⟩
  have hstep : ∀ (msg : String) (x : ManagerM PUnit) (m m' : Manager),
      Session.exec (env.redis w.podman.containers) x m w.redis = ((.ok ⟨⟩, m'), w.redis) →
      Session.exec env.handler (Session.wrap msg (OpsM.manager x)) m w = ((.ok ⟨⟩, m'), w) := by
    intro msg x m m' hx
    rw [Session.wrap, Session.exec_tryCatch, OpsM.exec_manager, hx]
  rw [syncState, Session.exec_bind_of_ok (Session.exec_get _ _ _)]
  simp only [hfind]
  rw [Session.exec_bind_of_ok (hstep _ _ _ _ hmeet), Session.exec_bind_of_ok (hstep _ _ _ _ hrole)]
  exact hstep _ _ _ _ hslots

def wholeCluster : StableCluster where
  nodes := wholeReports
  ids_nodup := by decide
  host_ne := by decide
  master_mem := by decide
  ranges_disjoint := List.pairwise_singleton _ _

/-- A world in which every node shows the cluster. -/
def wholeEnv : OpsEnv Unit :=
  { steadyEnv with redis := fun _ => frozenRedis (renderNodes wholeCluster.nodes) }

/-- A process that has listed the three containers. -/
def wholeManager : Manager where
  nodesPerShard := 1
  nodeManager := (["10.0.0.2", "10.0.0.3", "10.0.0.4"].map fun ip =>
    { hostIP := "127.0.0.1", hostPort := 7001, conIp := ip, conPort := 6379, name := ip, id := ip
      clusterName := "s" }).foldl BaseNodeManager.addNode {}

theorem wholeCluster_trackedBy : wholeCluster.TrackedBy "s" wholeManager.nodeManager := by
  intro n hn
  simp only [wholeCluster, wholeReports, List.mem_cons, List.not_mem_nil, or_false] at hn
  rcases hn with rfl | rfl | rfl <;> exact ⟨_, rfl, rfl⟩

/-- The cluster of three is read back, and all slots have owners in what is read. -/
theorem syncState_known_whole :
    ∃ m', Session.exec wholeEnv.handler (syncState "s").action wholeManager bareWorld =
        ((.ok ⟨⟩, m'), bareWorld) ∧
      wholeCluster.Known "s" m' ∧ m'.topo.OldCover "s" := by
  obtain ⟨m', hexec, hk, -, -, -, hcover⟩ := syncState_known wholeEnv wholeCluster "s" wholeManager
    bareWorld rfl (by decide) (fun _ => rfl) wholeCluster_trackedBy rfl
  refine ⟨m', hexec, hk, hcover fun i hi => ⟨_, List.mem_cons_self, _, List.mem_cons_self, ?_⟩⟩
  rw [totalSlots] at hi
  exact ⟨Int.natCast_nonneg i, show (i : ℤ) ≤ 16383 by omega⟩

end Scale

end ClusterManager
