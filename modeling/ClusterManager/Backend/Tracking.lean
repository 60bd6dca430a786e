import Mathlib.Data.List.Nodup
import ClusterManager.Backend.Containers

/-!
# Which nodes the podman backend tracks

A call that succeeds tracks one node for each of some containers, with the address that
podman tells for that container: the ones it has created (`createPods_tracks`), or the
ones it has found (`listPodsByCluster_tracks`). That the address is the one of *that*
container rests on names and IDs telling the containers apart (`Identified`).
-/

namespace ClusterManager

/-! ### Tracking several nodes -/

namespace BaseNodeManager

/-- Track some more nodes. -/
def addNodes (b : BaseNodeManager) (l : List RuntimeNode) : BaseNodeManager := l.foldl addNode b

variable {b : BaseNodeManager}

@[simp] theorem nodes_addNodes (l : List RuntimeNode) : (b.addNodes l).nodes = b.nodes ++ l := by
  induction l generalizing b with
  | nil => simp [addNodes]
  | cons node l ih =>
    rw [addNodes, List.foldl_cons, ← addNodes, ih, addNode, List.append_assoc,
      List.singleton_append]

@[simp] theorem num_addNodes (l : List RuntimeNode) : (b.addNodes l).num = b.num + l.length := by
  induction l generalizing b with
  | nil => rfl
  | cons node l ih =>
    rw [addNodes, List.foldl_cons, ← addNodes, ih, List.length_cons, addNode]
    exact Nat.add_right_comm ..

theorem Filed.addNodes (h : b.Filed) (l : List RuntimeNode) : (b.addNodes l).Filed := by
  induction l generalizing b with
  | nil => exact h
  | cons node l ih => exact ih (h.addNode node)

/-- Nodes without a DNS name are not filed under one. -/
theorem hostToNode_addNodes_of_unnamed {l : List RuntimeNode}
    (hl : ∀ node ∈ l, node.hostname = "") :
    (b.addNodes l).hostToNode = b.hostToNode := by
  induction l generalizing b with
  | nil => rfl
  | cons node l ih =>
    rw [addNodes, List.foldl_cons, ← addNodes, ih fun x hx => hl x (List.mem_cons_of_mem _ hx),
      addNode, hl node List.mem_cons_self]
    rfl

/-- The nodes that have a DNS name are filed under it. -/
def FiledByHost (b : BaseNodeManager) : Prop :=
  ∀ host, host ≠ "" → b.hostToNode host = latest RuntimeNode.hostname b.nodes host

theorem filedByHost_empty : FiledByHost {} := fun _ _ => rfl

theorem FiledByHost.addNode (h : b.FiledByHost) (node : RuntimeNode) :
    (b.addNode node).FiledByHost := by
  intro host hhost
  show _ = latest RuntimeNode.hostname (b.nodes ++ [node]) host
  rw [latest_concat, ← h host hhost, BaseNodeManager.addNode]
  by_cases hnode : node.hostname = host
  · rw [if_pos hnode, if_pos (hnode ▸ hhost), hnode]
    exact Function.update_self ..
  · rw [if_neg hnode]
    split
    · exact Function.update_of_ne (Ne.symm hnode) ..
    · rfl

theorem FiledByHost.addNodes (h : b.FiledByHost) (l : List RuntimeNode) :
    (b.addNodes l).FiledByHost := by
  induction l generalizing b with
  | nil => exact h
  | cons node l ih => exact ih (h.addNode node)

end BaseNodeManager

/-! ### Names and IDs -/

/-- A name or an ID stands for one container. -/
structure Identified (cs : List Container) : Prop where
  names : (cs.map Container.name).Nodup
  ids : ∀ c ∈ cs, ∀ c' ∈ cs, c.id = c'.id ∨ c.name = c'.id → c = c'

section Tracking

variable {env : PodmanEnv} {cfg : RuntimeConfig} {base base' : BaseNodeManager}
  {s s' : PodmanState} {cs cs' : List Container} {clusterName : String}

theorem Identified.of_append (h : Identified (cs ++ cs')) : Identified cs where
  names := by
    have hnames := h.names
    rw [List.map_append] at hnames
    exact (List.nodup_append.mp hnames).1
  ids c hc c' hc' := h.ids c (List.mem_append_left _ hc) c' (List.mem_append_left _ hc')

/-- A container is found by its name and by its ID. -/
theorem Identified.find (h : Identified s.containers) {c : Container} (hc : c ∈ s.containers)
    {ref : String} (href : c.name = ref ∨ c.id = ref) : s.find ref = some c := by
  rcases hfind : s.find ref with _ | d
  · exact absurd href (by simpa using List.find?_eq_none.mp hfind c hc)
  · have hd : d ∈ s.containers := List.mem_of_find?_eq_some hfind
    have hdref : d.name = ref ∨ d.id = ref := by
      rw [PodmanState.find] at hfind
      simpa using List.find?_some hfind
    have heq : d = c := by
      rcases href with rfl | rfl
      · rcases hdref with hdref | hdref
        · exact List.inj_on_of_nodup_map h.names hd hc hdref
        · exact (h.ids c hc d hd (Or.inr hdref.symm)).symm
      · rcases hdref with hdref | hdref
        · exact h.ids d hd c hc (Or.inr hdref)
        · exact h.ids d hd c hc (Or.inl hdref)
    rw [heq]

/-! ### Created nodes -/

/-- The node that is tracked for the container of an index when it has been created. -/
def TracksCreated (cfg : RuntimeConfig) (clusterName : String) (cs : List Container) (i : ℕ)
    (node : RuntimeNode) : Prop :=
  ∃ c ∈ cs, c.name = containerName clusterName i ∧ c.ip ≠ "" ∧
    ∃ hostPort, node = withAddress (createdNode cfg clusterName i c.id c.ip hostPort)

theorem createPodsFrom_tracks {start a n : ℕ}
    (h : (createPodsFrom cfg clusterName start ((List.range n).map (a + ·)) base).run
      (podmanHandler env) s = ((.ok (), base'), s')) (hs' : Identified s'.containers) :
    ∃ new, base' = base.addNodes new ∧
      new.map RuntimeNode.name = ((List.range n).map (a + ·)).map (containerName clusterName) ∧
      ∀ node ∈ new, ∃ i, a ≤ i ∧ i < a + n ∧
        TracksCreated cfg clusterName s'.containers i node := by
  induction n generalizing base s a with
  | zero =>
    cases h
    exact ⟨[], rfl, rfl, nofun⟩
  | succ n ih =>
    rw [range_map_add_succ] at h ⊢
    rcases createPodsFrom_cons env cfg clusterName start a ((List.range n).map (a + 1 + ·)) base s
      with ⟨err, s₁, hrun, -⟩ | ⟨new, s₁, hname, -, hs₁,
        ⟨err, hrun⟩ | ⟨ip, hostPort, ⟨c, hc, rfl, hne⟩, hrun⟩⟩
    · cases hrun.symm.trans h
    · cases hrun.symm.trans h
    have hrest := hrun.symm.trans h
    obtain ⟨more, hmore, -⟩ := (createPodsFrom_ok hrest).containers
    -- the container that is asked for its address is the new one
    have hmem : new ∈ s₁.containers := hs₁ ▸ List.mem_append_right _ (List.mem_singleton_self _)
    have hs₁' : Identified s₁.containers := (hmore ▸ hs').of_append
    obtain rfl : new = c := Option.some.inj ((hs₁'.find hmem (Or.inr rfl)).symm.trans hc)
    obtain ⟨rest, rfl, hnames, hall⟩ := ih hrest
    refine ⟨withAddress (createdNode cfg clusterName a new.id new.ip hostPort) :: rest, rfl, ?_,
      fun node hnode => ?_⟩
    · rw [List.map_cons, List.map_cons, hnames, withAddress_name]
      rfl
    rcases List.mem_cons.mp hnode with rfl | hnode
    · refine ⟨a, Nat.le_refl _, by omega, new, ?_, hname, hne, hostPort, rfl⟩
      rw [hmore]
      exact List.mem_append_left _ hmem
    · obtain ⟨i, hai, hin, hi⟩ := hall node hnode
      exact ⟨i, by omega, by omega, hi⟩

/-- **Creating containers** tracks one node for each index. -/
theorem createPods_tracks {n : ℤ}
    (h : (createPods cfg base n clusterName).run (podmanHandler env) s = ((.ok (), base'), s'))
    (hs' : Identified s'.containers) :
    ∃ new, base' = base.addNodes new ∧
      new.map RuntimeNode.name =
        ((List.range n.toNat).map (base.num + 1 + ·)).map (containerName clusterName) ∧
      ∀ node ∈ new, ∃ i, base.num + 1 ≤ i ∧ i < base.num + 1 + n.toNat ∧
        TracksCreated cfg clusterName s'.containers i node :=
  createPodsFrom_tracks h hs'

/-! ### Found nodes -/

/-- The node that is tracked for a container that has been found. -/
def TracksFound (cfg : RuntimeConfig) (clusterName : String) (cs : List Container)
    (node : RuntimeNode) : Prop :=
  ∃ c ∈ cs, c.running ∧
    ∃ fullID hostPort, node = listedNode cfg clusterName c.name c.ip fullID hostPort

theorem trackListed_tracks (hs : Identified s.containers) {names : List String}
    (hlisted : ∀ name ∈ names, ∃ c ∈ s.containers, c.running ∧ c.name = name) :
    ∃ new, ((trackListed cfg clusterName names base).run (podmanHandler env) s).1 =
        base.addNodes new ∧ (new.map RuntimeNode.name).Sublist names ∧
      ∀ node ∈ new, TracksFound cfg clusterName s.containers node := by
  induction names generalizing base s with
  | nil => exact ⟨[], rfl, List.Sublist.refl _, nofun⟩
  | cons name names ih =>
    -- what is asked on the way changes no container
    have next : ∀ (s₁ : PodmanState) (b : BaseNodeManager), s₁.containers = s.containers →
        ∃ new, ((trackListed cfg clusterName names b).run (podmanHandler env) s₁).1 =
            b.addNodes new ∧ (new.map RuntimeNode.name).Sublist names ∧
          ∀ node ∈ new, TracksFound cfg clusterName s.containers node := by
      intro s₁ b hs₁
      rw [← hs₁] at hs hlisted ⊢
      exact ih hs fun x hx => hlisted x (List.mem_cons_of_mem _ hx)
    have skip : ∀ s₁ : PodmanState, s₁.containers = s.containers →
        ∃ new, ((trackListed cfg clusterName names base).run (podmanHandler env) s₁).1 =
            base.addNodes new ∧ (new.map RuntimeNode.name).Sublist (name :: names) ∧
          ∀ node ∈ new, TracksFound cfg clusterName s.containers node := by
      intro s₁ hs₁
      obtain ⟨new, hrun, hsub, hall⟩ := next s₁ base hs₁
      exact ⟨new, hrun, hsub.cons name, hall⟩
    rw [trackListed]
    split
    · exact skip s rfl
    rw [Program.run_bind]
    have hs₁ : ((getContainerIP name).run (podmanHandler env) s).2.containers = s.containers :=
      containers_run_of_reads (getContainerIP_reads name)
    split
    · exact skip _ hs₁
    rename_i ip hip
    obtain ⟨c, hc, rfl⟩ := getContainerIP_ok hip
    rw [Program.run_bind]
    generalize ((getContainerIP name).run (podmanHandler env) s).2 = s₁ at hs₁ ⊢
    have hs₂ : ((getContainerHostPort name cfg.redisContainerPort.toNat).run
        (podmanHandler env) s₁).2.containers = s.containers :=
      (containers_run_of_reads (getContainerHostPort_reads name _)).trans hs₁
    generalize ((getContainerHostPort name cfg.redisContainerPort.toNat).run
      (podmanHandler env) s₁) = r₂ at hs₂ ⊢
    split
    · exact skip _ hs₂
    rw [Program.run_bind]
    have hs₃ : ((getContainerFullID name).run (podmanHandler env) r₂.2).2.containers =
        s.containers :=
      (containers_run_of_reads (sendPodman_reads (.inspectID name) trivial)).trans hs₂
    split
    · exact skip _ hs₃
    obtain ⟨c', hmem, hrun, rfl⟩ := hlisted name List.mem_cons_self
    obtain rfl : c' = c := Option.some.inj ((hs.find hmem (Or.inl rfl)).symm.trans hc)
    obtain ⟨new, hnew, hsub, hall⟩ := next _ (base.addNode (listedNode cfg clusterName _ _ _ _)) hs₃
    refine ⟨_ :: new, hnew, hsub.cons_cons _, fun node hnode => ?_⟩
    rcases List.mem_cons.mp hnode with rfl | hnode
    · exact ⟨c', hmem, hrun, _, _, rfl⟩
    · exact hall node hnode

theorem listPodsByCluster_containers
    (h : (listPodsByCluster cfg base clusterName).run (podmanHandler env) s =
      ((.ok (), base'), s')) : s'.containers = s.containers := by
  have hread : ((listPodsByCluster cfg base clusterName).run
      (podmanHandler env) s).2.containers = s.containers :=
    containers_run_of_reads listPodsByCluster_reads
  rwa [h] at hread

/-- **Listing a cluster** tracks one node for each of some running containers that are
listed for it. -/
theorem listPodsByCluster_tracks
    (h : (listPodsByCluster cfg base clusterName).run (podmanHandler env) s =
      ((.ok (), base'), s')) (hs : Identified s.containers) :
    ∃ new, base' = BaseNodeManager.addNodes {} new ∧
      (new.map RuntimeNode.name).Sublist (s.listed env false (clusterName ++ "-redis")) ∧
      ∀ node ∈ new, TracksFound cfg clusterName s.containers node := by
  rw [listPodsByCluster, Program.run_bind, Program.run_send] at h
  have hs₁ := podmanHandler_reads env s (c := .ps false (clusterName ++ "-redis")) trivial
  split at h
  · cases h
  rename_i names hps
  have hlisted : names = s.listed env false (clusterName ++ "-redis") := by
    rw [podmanHandler] at hps
    split at hps
    · exact (Except.ok.inj hps).symm
    · cases hps
  have hrunning : ∀ name ∈ names, ∃ c ∈ s.containers, c.running ∧ c.name = name := by
    intro name hname
    rw [hlisted] at hname
    obtain ⟨c, hc, hrunning, -, hcname⟩ := mem_listed.mp hname
    exact ⟨c, hc, by simpa using hrunning, hcname⟩
  rw [← hlisted]
  generalize (podmanHandler env s (.ps false (clusterName ++ "-redis"))).2 = s₁ at hs₁ h
  rw [← hs₁] at hs hrunning ⊢
  rw [Program.run_bind] at h
  cases h
  exact trackListed_tracks hs hrunning

end Tracking

end ClusterManager
