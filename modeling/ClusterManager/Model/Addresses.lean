import ClusterManager.Backend.Ports
import ClusterManager.Backend.Tracking
import ClusterManager.Lib.Runs
import ClusterManager.Model.Execution

/-!
# Finding a node by its address

A node of the Redis cluster is known by the address it shows in `CLUSTER NODES`. The
container it runs in is looked up by that address, and what is then sent goes to the
ports of the container that is found: the ports of a migration task
(`buildSlotTask`), and the groups in which the tasks are run (`groupSlotTasks`).

The index is written last-wins, so all of this is right exactly when no two tracked nodes
share an address (`findsNodes_iff_injOn`). What the backends track after any sequence of
calls decides it (`findsNodes_after_calls`). Podman gives each container an address of
its own. The nodes of the containerd backend all have the address of the host: from the
second one on, every lookup finds the last.
-/

namespace ClusterManager

/-! ### Lookups, ports and groups -/

/-- The Redis node `n` runs in a tracked container, the one that `place` says, and shows
its address. -/
def Placed (base : BaseNodeManager) (place : String → RuntimeNode) (n : ClusterNode) : Prop :=
  place n.id ∈ base.nodes ∧ n.ip = (place n.id).conIp

/-- A task that has been built to move a slot between two nodes. -/
def BuiltFor (base : BaseNodeManager) (place : String → RuntimeNode) (t : SlotTask) : Prop :=
  ∃ slotNum m e, Placed base place m ∧ Placed base place e ∧ t = buildSlotTask base slotNum m e

/-- Nodes are found by their addresses, whichever node runs where. -/
structure FindsNodes (base : BaseNodeManager) : Prop where
  /-- The address of a node leads to this node. -/
  lookup : ∀ node ∈ base.nodes, base.getNodeByHost node.conIp = some node
  /-- The ports of a task are the ports of its two nodes. -/
  ports : ∀ place t, BuiltFor base place t →
    t.fromHostPort = (place t.fromID).hostPort ∧ t.destHostPort = (place t.toID).hostPort
  /-- The tasks of a group have the same source, and the group has its port. -/
  groups : ∀ place tasks, (∀ t ∈ tasks, BuiltFor base place t) → ∀ g ∈ groupSlotTasks tasks,
    ∃ src ∈ base.nodes, g.fromIP = src.conIp ∧ g.fromHostPort = src.hostPort ∧
      ∀ t ∈ g.tasks, place t.fromID = src

/-- A group has the address of its tasks, which are among `tasks`, and the port of one of
them. -/
def SharesSource (tasks : List SlotTask) (g : MigrationGroup) : Prop :=
  (∃ t ∈ g.tasks, g.fromIP = t.fromIP ∧ g.fromHostPort = t.fromHostPort) ∧
    ∀ t ∈ g.tasks, t ∈ tasks ∧ t.fromIP = g.fromIP

section Finds

variable {base : BaseNodeManager}

theorem addToGroup_sharesSource {tasks : List SlotTask} {t : SlotTask} (ht : t ∈ tasks)
    {gs : List MigrationGroup} (hgs : ∀ g ∈ gs, SharesSource tasks g) :
    ∀ g ∈ addToGroup t gs, SharesSource tasks g := by
  induction gs with
  | nil =>
    intro g hg
    obtain rfl := List.mem_singleton.mp hg
    refine ⟨⟨t, List.mem_singleton_self _, rfl, rfl⟩, fun t' ht' => ?_⟩
    obtain rfl := List.mem_singleton.mp ht'
    exact ⟨ht, rfl⟩
  | cons g₀ gs ih =>
    intro g hg
    rw [addToGroup] at hg
    split at hg
    · rename_i hip
      rcases List.mem_cons.mp hg with rfl | hg
      · obtain ⟨⟨t₀, ht₀, hsrc⟩, hall⟩ := hgs g₀ List.mem_cons_self
        refine ⟨⟨t₀, List.mem_append_left _ ht₀, hsrc⟩, fun t' ht' => ?_⟩
        rcases List.mem_append.mp ht' with ht' | ht'
        · exact hall t' ht'
        · obtain rfl := List.mem_singleton.mp ht'
          exact ⟨ht, hip.symm⟩
      · exact hgs g (List.mem_cons_of_mem _ hg)
    · rcases List.mem_cons.mp hg with rfl | hg
      · exact hgs _ List.mem_cons_self
      · exact ih (fun g hg => hgs g (List.mem_cons_of_mem _ hg)) g hg

theorem groupSlotTasks_sharesSource (tasks : List SlotTask) :
    ∀ g ∈ groupSlotTasks tasks, SharesSource tasks g := by
  -- along the fold, with the tasks of the whole list in view
  have fold : ∀ (l : List SlotTask) (gs : List MigrationGroup), (∀ t ∈ l, t ∈ tasks) →
      (∀ g ∈ gs, SharesSource tasks g) →
      ∀ g ∈ l.foldl (fun gs t => addToGroup t gs) gs, SharesSource tasks g := by
    intro l
    induction l with
    | nil => exact fun gs _ hgs => hgs
    | cons t l ih =>
      intro gs hl hgs
      exact ih _ (fun t' ht' => hl t' (List.mem_cons_of_mem _ ht'))
        (addToGroup_sharesSource (hl t List.mem_cons_self) hgs)
  exact fold tasks [] (fun t ht => ht) nofun

/-- It is all in the lookup. -/
theorem findsNodes_iff :
    FindsNodes base ↔ ∀ node ∈ base.nodes, base.getNodeByHost node.conIp = some node := by
  refine ⟨FindsNodes.lookup, fun lookup => ?_⟩
  have hplaced : ∀ {place n}, Placed base place n →
      base.getNodeByHost n.ip = some (place n.id) := by
    rintro place n ⟨hmem, hip⟩
    rw [hip, lookup _ hmem]
  refine ⟨lookup, ?_, ?_⟩
  · rintro place t ⟨slotNum, m, e, hm, he, rfl⟩
    simp only [buildSlotTask, hplaced hm, hplaced he, Option.map_some, Option.getD_some, and_self]
  · intro place tasks htasks g hg
    obtain ⟨⟨t₀, ht₀, hip₀, hport₀⟩, hall⟩ := groupSlotTasks_sharesSource tasks g hg
    have hsource : ∀ t ∈ tasks, place t.fromID ∈ base.nodes ∧ t.fromIP = (place t.fromID).conIp ∧
        t.fromHostPort = (place t.fromID).hostPort := by
      intro t ht
      obtain ⟨slotNum, m, e, hm, -, rfl⟩ := htasks t ht
      refine ⟨hm.1, hm.2, ?_⟩
      simp only [buildSlotTask, hplaced hm, Option.map_some, Option.getD_some]
    obtain ⟨hmem, hip, hport⟩ := hsource t₀ (hall t₀ ht₀).1
    refine ⟨place t₀.fromID, hmem, hip₀.trans hip, hport₀.trans hport, fun t ht => ?_⟩
    -- the address of the group leads to one node only
    obtain ⟨hmem', hip', -⟩ := hsource t (hall t ht).1
    have hsame : (place t.fromID).conIp = (place t₀.fromID).conIp := by
      rw [← hip', ← hip, (hall t ht).2, hip₀]
    have hfound := lookup _ hmem'
    rw [hsame, lookup _ hmem] at hfound
    exact (Option.some.inj hfound).symm

/-- **Nodes are found** exactly when no two of them share an address, if there are no DNS
names. -/
theorem findsNodes_iff_injOn (hfiled : base.Filed) (hhosts : base.hostToNode = fun _ => none) :
    FindsNodes base ↔ Set.InjOn RuntimeNode.conIp {node | node ∈ base.nodes} := by
  rw [findsNodes_iff, ← forall_latest_iff]
  simp only [BaseNodeManager.getNodeByHost, hhosts, hfiled.ip, Option.none_or]

end Finds

/-! ### The calls of a backend -/

/-- A call that changes what a backend tracks. -/
inductive BackendCall where
  | createPods (nodeNum : ℤ) (clusterName : String)
  | listPodsByCluster (clusterName : String)
  deriving DecidableEq, Repr

/-- What a call leaves when it succeeds. -/
def succeeded {ε σ : Type} :
    (Except ε Unit × BaseNodeManager) × σ → Option (BaseNodeManager × σ)
  | ((.ok (), base), s) => some (base, s)
  | ((.error _, _), _) => none

theorem succeeded_eq_some {ε σ : Type} {r : (Except ε Unit × BaseNodeManager) × σ}
    {base : BaseNodeManager} {s : σ} (h : succeeded r = some (base, s)) :
    r = ((.ok (), base), s) := by
  obtain ⟨⟨_ | _, base'⟩, s'⟩ := r
  · cases h
  · obtain ⟨rfl, rfl⟩ := Prod.mk.inj (Option.some.inj h)
    rfl

/-- A successful call of the podman backend. -/
def podmanCall (env : PodmanEnv) (cfg : RuntimeConfig) (x : BaseNodeManager × PodmanState) :
    BackendCall → Option (BaseNodeManager × PodmanState)
  | .createPods nodeNum clusterName =>
    succeeded ((createPods cfg x.1 nodeNum clusterName).run (podmanHandler env) x.2)
  | .listPodsByCluster clusterName =>
    succeeded ((listPodsByCluster cfg x.1 clusterName).run (podmanHandler env) x.2)

/-- A successful call of the containerd backend. -/
def containerdCall (env : Containerd.ContainerdEnv) (cfg : RuntimeConfig)
    (x : BaseNodeManager × Containerd.ContainerdState) :
    BackendCall → Option (BaseNodeManager × Containerd.ContainerdState)
  | .createPods nodeNum clusterName => succeeded
    ((Containerd.createPods cfg x.1 nodeNum clusterName).run (Containerd.containerdHandler env) x.2)
  | .listPodsByCluster clusterName => succeeded
    ((Containerd.listPodsByCluster cfg x.1 clusterName).run (Containerd.containerdHandler env) x.2)

/-! ### Podman: an address for each container -/

/-- What is taken from podman: a name or an ID stands for one container, only running
containers have an address, and running containers have different ones. -/
structure Trusted (cs : List Container) : Prop extends Identified cs where
  running : ∀ c ∈ cs, c.ip ≠ "" → c.running
  distinct : ∀ c ∈ cs, ∀ c' ∈ cs, c.running → c'.running → c.ip = c'.ip → c = c'

/-- Each tracked node has its running container, and no DNS name. -/
structure HasContainers (base : BaseNodeManager) (cs : List Container) : Prop where
  filed : base.Filed
  hosts : base.hostToNode = fun _ => none
  found : ∀ node ∈ base.nodes, ∃ c ∈ cs, c.name = node.name ∧ c.ip = node.conIp ∧
    (c.running ∨ c.ip ≠ "")
  names : (base.nodes.map RuntimeNode.name).Nodup

section Podman

variable {env : PodmanEnv} {cfg : RuntimeConfig} {base base' : BaseNodeManager}
  {s s' : PodmanState} {cs cs' : List Container} {clusterName : String}

theorem hasContainers_empty : HasContainers {} cs :=
  ⟨BaseNodeManager.filed_empty, rfl, nofun, List.nodup_nil⟩

/-- Track some more containers. -/
theorem HasContainers.addNodes (h : HasContainers base cs) (hcs : ∀ c ∈ cs, c ∈ cs')
    {new : List RuntimeNode} (hhost : ∀ node ∈ new, node.hostname = "")
    (hfound : ∀ node ∈ new, ∃ c ∈ cs', c.name = node.name ∧ c.ip = node.conIp ∧
      (c.running ∨ c.ip ≠ ""))
    (hnames : (base.nodes.map RuntimeNode.name ++ new.map RuntimeNode.name).Nodup) :
    HasContainers (base.addNodes new) cs' where
  filed := h.filed.addNodes new
  hosts := (BaseNodeManager.hostToNode_addNodes_of_unnamed hhost).trans h.hosts
  found node hnode := by
    rw [BaseNodeManager.nodes_addNodes, List.mem_append] at hnode
    rcases hnode with hnode | hnode
    · obtain ⟨c, hc, hcnode⟩ := h.found node hnode
      exact ⟨c, hcs c hc, hcnode⟩
    · exact hfound node hnode
  names := by
    rw [BaseNodeManager.nodes_addNodes, List.map_append]
    exact hnames

/-- The name of a tracked node is taken. -/
theorem HasContainers.mem_names (h : HasContainers base cs) {name : String}
    (hname : name ∈ base.nodes.map RuntimeNode.name) : name ∈ cs.map Container.name := by
  obtain ⟨node, hnode, rfl⟩ := List.mem_map.mp hname
  obtain ⟨c, hc, hcname, -⟩ := h.found node hnode
  exact hcname ▸ List.mem_map_of_mem hc

/-- A successful call keeps a container for each tracked node. -/
theorem podmanCall_hasContainers (hdns : cfg.dnsEnabled = false) {call : BackendCall}
    (h : podmanCall env cfg (base, s) call = some (base', s')) (hs' : Identified s'.containers)
    (hbase : HasContainers base s.containers) : HasContainers base' s'.containers := by
  cases call with
  | createPods n clusterName =>
    have hrun := succeeded_eq_some h
    obtain ⟨new, rfl, hnames, hnew⟩ := createPods_tracks hrun hs'
    have hcreated := createPods_ok hrun
    obtain ⟨more, hmore, hmorenames⟩ := hcreated.containers
    have hnames' : new.map RuntimeNode.name = more.map Container.name := by
      rw [hnames, hmorenames, List.map_map]
      rfl
    refine hbase.addNodes (fun c hc => hmore ▸ List.mem_append_left _ hc) ?_ ?_ ?_
    · intro node hnode
      obtain ⟨i, -, -, c, -, -, -, hostPort, rfl⟩ := hnew node hnode
      rw [withAddress_hostname, createdNode, hdns]
      rfl
    · intro node hnode
      obtain ⟨i, -, -, c, hc, hcname, hne, hostPort, rfl⟩ := hnew node hnode
      refine ⟨c, hc, ?_, ?_, Or.inr hne⟩
      · rw [withAddress_name]
        exact hcname
      · rw [withAddress_conIp]
        rfl
    · -- the new names were not taken
      have hall := hs'.names
      rw [hmore, List.map_append, List.nodup_append] at hall
      rw [hnames', List.nodup_append]
      exact ⟨hbase.names, hall.2.1, fun a ha => hall.2.2 a (hbase.mem_names ha)⟩
  | listPodsByCluster clusterName =>
    have hrun := succeeded_eq_some h
    have hread := listPodsByCluster_containers hrun
    rw [hread] at hs' ⊢
    obtain ⟨new, rfl, hsub, hnew⟩ := listPodsByCluster_tracks hrun hs'
    refine hasContainers_empty.addNodes (fun c hc => hc) ?_ ?_ ?_
    · intro node hnode
      obtain ⟨c, -, -, fullID, hostPort, rfl⟩ := hnew node hnode
      rw [listedNode, hdns]
      rfl
    · intro node hnode
      obtain ⟨c, hc, hrunning, fullID, hostPort, rfl⟩ := hnew node hnode
      exact ⟨c, hc, rfl, rfl, Or.inl hrunning⟩
    · exact (hs'.names.sublist (List.filter_sublist.map _)).sublist hsub

/-- A successful call only adds containers. -/
theorem podmanCall_adds {call : BackendCall}
    (h : podmanCall env cfg (base, s) call = some (base', s')) :
    s.containers <+: s'.containers := by
  cases call with
  | createPods n clusterName =>
    obtain ⟨new, hnew, -⟩ := (createPods_ok (succeeded_eq_some h)).containers
    exact ⟨new, hnew.symm⟩
  | listPodsByCluster clusterName =>
    have hread := listPodsByCluster_containers (succeeded_eq_some h)
    exact hread.symm ▸ List.prefix_refl _

theorem podmanCalls_add {calls : List BackendCall}
    (h : Runs.exec (podmanCall env cfg) (base, s) calls = some (base', s')) :
    s.containers <+: s'.containers := by
  induction calls generalizing base s with
  | nil =>
    cases h
    exact List.prefix_refl _
  | cons call calls ih =>
    obtain ⟨⟨base₁, s₁⟩, hcall, hcalls⟩ := Option.bind_eq_some_iff.mp h
    exact (podmanCall_adds hcall).trans (ih hcalls)

/-- Along any calls each tracked node has its running container. -/
theorem podmanCalls_hasContainers (hdns : cfg.dnsEnabled = false) {calls : List BackendCall}
    (h : Runs.exec (podmanCall env cfg) (base, s) calls = some (base', s'))
    (hs' : Identified s'.containers) (hbase : HasContainers base s.containers) :
    HasContainers base' s'.containers := by
  induction calls generalizing base s with
  | nil =>
    cases h
    exact hbase
  | cons call calls ih =>
    obtain ⟨⟨base₁, s₁⟩, hcall, hcalls⟩ := Option.bind_eq_some_iff.mp h
    obtain ⟨more, hmore⟩ := podmanCalls_add hcalls
    have hs₁ : Identified s₁.containers := (hmore ▸ hs').of_append
    exact ih hcalls (podmanCall_hasContainers hdns hcall hs₁ hbase)

/-- The nodes of the podman backend have different addresses. -/
theorem HasContainers.findsNodes (h : HasContainers base cs) (hcs : Trusted cs) :
    FindsNodes base := by
  refine (findsNodes_iff_injOn h.filed h.hosts).mpr fun a ha b hb hip => ?_
  obtain ⟨c, hc, hcname, hcip, hcrun⟩ := h.found a ha
  obtain ⟨d, hd, hdname, hdip, hdrun⟩ := h.found b hb
  have hcd : c = d := by
    refine hcs.distinct c hc d hd ?_ ?_ (hcip.trans (hip.trans hdip.symm))
    · exact hcrun.elim id (hcs.running c hc)
    · exact hdrun.elim id (hcs.running d hd)
  refine List.inj_on_of_nodup_map h.names ha hb ?_
  rw [← hcname, ← hdname, hcd]

end Podman

/-! ### Containerd: one address for all -/

/-- The tracked nodes are different containers, at the address of the host, and have no
DNS names. -/
structure SharesHost (base : BaseNodeManager) (s : Containerd.ContainerdState) : Prop where
  onHost : Containerd.OnHost base
  hosts : base.hostToNode = fun _ => none
  ids : (s.containers.map Containerd.CtrContainer.id).Nodup
  names : (base.nodes.map RuntimeNode.name).Nodup
  found : ∀ name ∈ base.nodes.map RuntimeNode.name,
    name ∈ s.containers.map Containerd.CtrContainer.id

section Containerd

open Containerd

variable {env : ContainerdEnv} {cfg : RuntimeConfig} {base base' : BaseNodeManager}
  {s s' : ContainerdState} {clusterName : String}

theorem created_hosts (hdns : cfg.dnsEnabled = false) (idx : List ℕ)
    (hbase : base.hostToNode = fun _ => none) :
    (idx.foldl (fun b i => addRuntimeNode b (createdFor cfg clusterName i)) base).hostToNode =
      fun _ => none := by
  induction idx generalizing base with
  | nil => exact hbase
  | cons i idx ih =>
    refine ih ?_
    show (addRuntimeNode base (createdFor cfg clusterName i)).hostToNode = fun _ => none
    rw [addRuntimeNode_eq, BaseNodeManager.addNode, withAddress_hostname, createdFor,
      Containerd.createdNode, hdns]
    exact hbase

theorem created_names (idx : List ℕ) :
    (idx.foldl (fun b i => addRuntimeNode b (createdFor cfg clusterName i)) base).nodes.map
        RuntimeNode.name =
      base.nodes.map RuntimeNode.name ++ idx.map (containerName clusterName) := by
  rw [created_nodes, List.map_append, List.map_map]
  exact congrArg _ (List.map_congr_left fun i _ => withAddress_name _)

theorem trackListed_hosts (hbase : base.hostToNode = fun _ => none) (ids : List String) :
    (Containerd.trackListed cfg clusterName ids base).Returns
      fun r => r.2.hostToNode = fun _ => none := by
  induction ids generalizing base with
  | nil => exact hbase
  | cons id ids ih =>
    refine (Program.returns_true _).bind fun r _ => ?_
    split
    · exact ih hbase
    split
    · exact hbase
    · exact ih hbase

theorem listPodsByCluster_hosts :
    (Containerd.listPodsByCluster cfg base clusterName).Returns
      fun r => r.2.hostToNode = fun _ => none := by
  refine (Program.returns_true _).bind fun r _ => ?_
  split
  · rfl
  · exact trackListed_hosts rfl _

theorem containerdCall_sharesHost (hdns : cfg.dnsEnabled = false) {call : BackendCall}
    (h : containerdCall env cfg (base, s) call = some (base', s')) (hbase : SharesHost base s) :
    SharesHost base' s' := by
  cases call with
  | createPods n clusterName =>
    obtain ⟨s₁, hs₁, hrun⟩ := Containerd.createPods_ok (succeeded_eq_some h)
    obtain ⟨rfl, ⟨new, hs', hmade⟩, hnodup⟩ := Containerd.createPodsFrom_ok hrun
    have hids : s'.containers.map CtrContainer.id = s.containers.map CtrContainer.id ++
        (((List.range n.toNat).map (base.num + 1 + ·)).map (containerName clusterName)) := by
      rw [hs', List.map_append, hs₁, ids_of_madeFor hmade]
    have hids' := hnodup (hs₁ ▸ hbase.ids)
    have hparts := List.nodup_append.mp (hids ▸ hids')
    refine ⟨hbase.onHost.created _, created_hosts hdns _ hbase.hosts, hids', ?_, ?_⟩
    · rw [created_names, List.nodup_append]
      exact ⟨hbase.names, hparts.2.1, fun a ha => hparts.2.2 a (hbase.found a ha)⟩
    · intro name hname
      rw [created_names] at hname
      rw [hids]
      exact List.mem_append.mpr ((List.mem_append.mp hname).imp_left (hbase.found name))
  | listPodsByCluster clusterName =>
    have hrun := succeeded_eq_some h
    obtain ⟨hs', hsub, -⟩ := Containerd.listPodsByCluster_spec env cfg clusterName base s
    rw [hrun] at hs' hsub
    refine ⟨Containerd.listPodsByCluster_onHost.of_run_eq hrun,
      listPodsByCluster_hosts.of_run_eq hrun, hs'.symm ▸ hbase.ids, hbase.ids.sublist hsub, ?_⟩
    intro name hname
    rw [hs']
    exact hsub.subset hname

/-- Along any calls all nodes share the address of the host. -/
theorem containerdCalls_sharesHost (hdns : cfg.dnsEnabled = false) {calls : List BackendCall}
    (h : Runs.exec (containerdCall env cfg) (base, s) calls = some (base', s'))
    (hbase : SharesHost base s) : SharesHost base' s' := by
  induction calls generalizing base s with
  | nil =>
    cases h
    exact hbase
  | cons call calls ih =>
    obtain ⟨⟨base₁, s₁⟩, hcall, hcalls⟩ := Option.bind_eq_some_iff.mp h
    exact ih hcalls (containerdCall_sharesHost hdns hcall hbase)

/-- The nodes of the containerd backend are found when there is only one. -/
theorem SharesHost.findsNodes_iff (h : SharesHost base s) :
    FindsNodes base ↔ base.nodes.length ≤ 1 := by
  rw [findsNodes_iff_injOn h.onHost.filed h.hosts]
  have hnodup : base.nodes.Nodup := h.names.of_map
  constructor
  · intro hinj
    rcases hnodes : base.nodes with _ | ⟨a, _ | ⟨b, rest⟩⟩
    · exact Nat.zero_le _
    · exact Nat.le_refl _
    · have ha : a ∈ base.nodes := hnodes ▸ List.mem_cons_self
      have hb : b ∈ base.nodes := hnodes ▸ List.mem_cons_of_mem _ List.mem_cons_self
      have hab : a = b := hinj ha hb ((h.onHost.conIp a ha).trans (h.onHost.conIp b hb).symm)
      rw [hnodes, hab] at hnodup
      exact absurd List.mem_cons_self (List.nodup_cons.mp hnodup).1
  · intro hlen a ha b hb _
    obtain ⟨c, hc⟩ : ∃ c, ∀ x ∈ base.nodes, x = c := by
      rcases hnodes : base.nodes with _ | ⟨c, _ | ⟨d, rest⟩⟩
      · exact ⟨a, nofun⟩
      · exact ⟨c, fun x hx => List.mem_singleton.mp hx⟩
      · rw [hnodes] at hlen
        simp at hlen
    exact (hc a ha).trans (hc b hb).symm

end Containerd

/-! ### Either backend -/

/-- The backends. -/
inductive Backend where
  | podman
  | containerd
  deriving DecidableEq, Repr

/-- What a backend can track after a sequence of successful calls of a new process. -/
inductive Reached (cfg : RuntimeConfig) : Backend → BaseNodeManager → Prop
  | podman {env : PodmanEnv} {s s' : PodmanState} {calls : List BackendCall}
      {base : BaseNodeManager}
      (run : Runs.exec (podmanCall env cfg) ({}, s) calls = some (base, s'))
      (trusted : Trusted s'.containers) : Reached cfg .podman base
  | containerd {env : Containerd.ContainerdEnv} {s s' : Containerd.ContainerdState}
      {calls : List BackendCall} {base : BaseNodeManager}
      (run : Runs.exec (containerdCall env cfg) ({}, s) calls = some (base, s'))
      (ids : (s.containers.map Containerd.CtrContainer.id).Nodup) : Reached cfg .containerd base

/-- **When nodes are found by their addresses.** Without DNS names, whatever calls have
led there: always with podman; with containerd when there is at most one node. -/
theorem findsNodes_after_calls {cfg : RuntimeConfig} (hdns : cfg.dnsEnabled = false)
    {backend : Backend} {base : BaseNodeManager} (h : Reached cfg backend base) :
    FindsNodes base ↔ backend = .podman ∨ base.nodes.length ≤ 1 := by
  cases h with
  | podman run trusted =>
    have hfinds := (podmanCalls_hasContainers hdns run trusted.toIdentified
      hasContainers_empty).findsNodes trusted
    exact ⟨fun _ => Or.inl rfl, fun _ => hfinds⟩
  | containerd run ids =>
    have hshares := containerdCalls_sharesHost hdns run
      ⟨Containerd.onHost_empty, rfl, ids, List.nodup_nil, nofun⟩
    rw [hshares.findsNodes_iff]
    exact ⟨Or.inr, fun h => h.resolve_left nofun⟩

/-- Podman without failures, with an address and a port for each container. -/
def addressedPodman : PodmanEnv where
  regex := dotMatch
  create n spec :=
    { name := spec.name, id := spec.name, ip := "10.88.0." ++ toString n
      ports := [(6379, 40000 + n)] }

/-- Two containers of podman are told apart. -/
theorem findsNodes_of_two_pods :
    ∃ base, Reached plainConfig .podman base ∧ base.nodes.length = 2 ∧ FindsNodes base := by
  obtain ⟨⟨base, s'⟩, hrun⟩ : ∃ x, Runs.exec (podmanCall addressedPodman plainConfig)
      ({}, ⟨[], 0⟩) [.createPods 2 "prod"] = some x :=
    Option.isSome_iff_exists.mp (by decide +kernel)
  have hnodes : (Runs.exec (podmanCall addressedPodman plainConfig) ({}, ⟨[], 0⟩)
      [.createPods 2 "prod"]).map (fun x => (x.1.nodes.length, x.2.containers)) =
      some (2, [⟨"prod-redis-1", "prod-redis-1", "10.88.0.2", true, [(6379, 40002)]⟩,
        ⟨"prod-redis-2", "prod-redis-2", "10.88.0.9", true, [(6379, 40009)]⟩]) := by decide +kernel
  rw [hrun] at hnodes
  obtain ⟨hlen, hcontainers⟩ := Prod.mk.inj (Option.some.inj hnodes)
  have htrusted : Trusted s'.containers := by
    rw [show s'.containers = _ from hcontainers]
    exact ⟨⟨by decide, by decide⟩, by decide, by decide⟩
  have hreached : Reached plainConfig .podman base := .podman hrun htrusted
  exact ⟨base, hreached, hlen, (findsNodes_after_calls rfl hreached).mpr (Or.inl rfl)⟩

/-- Containerd without failures, which reads the filters as alternatives. -/
def plainContainerd : Containerd.ContainerdEnv where
  selects filters c :=
    c.spec.labels.any fun (k, v) => filters.contains ("labels.\"" ++ k ++ "\"==" ++ v)

/-- Of two containers of containerd, the address of the first leads to the port of the
second. -/
theorem not_findsNodes_of_two_containers :
    ∃ base, Reached plainConfig .containerd base ∧ base.nodes.map (·.hostPort) = [6379, 6380] ∧
      (base.getNodeByHost "127.0.0.1").map (·.hostPort) = some 6380 ∧ ¬ FindsNodes base := by
  obtain ⟨⟨base, s'⟩, hrun⟩ : ∃ x, Runs.exec (containerdCall plainContainerd plainConfig)
      ({}, ⟨[], 0⟩) [.createPods 2 "prod"] = some x :=
    Option.isSome_iff_exists.mp (by decide +kernel)
  have hnodes : (Runs.exec (containerdCall plainContainerd plainConfig) ({}, ⟨[], 0⟩)
      [.createPods 2 "prod"]).map (fun x => (x.1.nodes.map (·.hostPort),
        (x.1.getNodeByHost "127.0.0.1").map (·.hostPort))) = some ([6379, 6380], some 6380) := by
    decide +kernel
  rw [hrun] at hnodes
  obtain ⟨hports, hfound⟩ := Prod.mk.inj (Option.some.inj hnodes)
  have hshares := containerdCalls_sharesHost rfl hrun
    ⟨Containerd.onHost_empty, rfl, List.nodup_nil, List.nodup_nil, nofun⟩
  refine ⟨base, .containerd hrun List.nodup_nil, hports, hfound, fun hfinds => ?_⟩
  have hlen := hshares.findsNodes_iff.mp hfinds
  have htwo := congrArg List.length hports
  rw [List.length_map] at htwo
  exact absurd hlen (by rw [htwo]; decide)

end ClusterManager
