import ClusterManager.Model.Addresses
import ClusterManager.Model.Nodes

/-!
# Finding a node by its DNS name

With DNS enabled a Redis server is told to announce a name, which is then what it shows
in `CLUSTER NODES` instead of an address. Four names have to be one and the same for its
container to be found again: the one it announces, the one its node is filed under, the
one that the reply is read with, and the one that the roles of new nodes are looked up
with. In the code they are

* the name of the container (`announcedHost_runSpec`);
* the name that the naming template gives (`RuntimeConfig.buildHostname`), or, where the
  containerd backend has found the container by listing, none at all;
* what is announced, so the name of the container again;
* the address of the container (`assignNewRoles`).

`dnsWorks_iff` says when that comes out right: never with containerd, and with podman if
the address of each container is its name.
-/

namespace ClusterManager

/-! ### The name that is announced -/

/-- The host that a Redis server with this command line announces. -/
def announcedHost (args : List String) : Option String :=
  ((args.dropWhile (· ≠ "--cluster-announce-ip")).drop 1).head?

section Announced

variable {cfg : RuntimeConfig} (hdns : cfg.dnsEnabled = true) (clusterName : String) {i : ℕ}

theorem announcedHost_append {args : List String} {host : String}
    (hargs : "--cluster-announce-ip" ∉ args) :
    announcedHost (args ++ ["--cluster-announce-ip", host]) = some host :=
  Containerd.flagValue_append hargs

variable (cfg) in
theorem flag_notMem_args (port busPort : ℕ) : "--cluster-announce-ip" ∉
    ["redis-server", cfg.redisConfigPath ++ "/redis.conf", "--port", toString port,
      "--cluster-announce-bus-port", toString busPort] := by
  have hnumber := Containerd.flag_ne_toString (by decide : '-' ∈ "--cluster-announce-ip".toList)
  simp only [List.mem_cons, not_or]
  exact ⟨by decide, Containerd.flag_ne_conf (by decide) _, by decide, hnumber _, by decide,
    hnumber _, List.not_mem_nil⟩

include hdns

/-- A container of podman announces its name. -/
theorem announcedHost_runSpec :
    announcedHost (runSpec cfg clusterName i).command = some (containerName clusterName i) := by
  rw [runSpec]
  simp only [hdns, if_true]
  exact announcedHost_append (flag_notMem_args cfg _ _)

/-- A container of containerd announces its name. -/
theorem announcedHost_redisArgs (hi : 1 ≤ i) :
    announcedHost (Containerd.redisArgs cfg clusterName i) =
      some (containerName clusterName i) := by
  rw [Containerd.redisArgs, Containerd.redisPort_eq_portNumber hi]
  simp only [hdns, if_true]
  exact announcedHost_append (flag_notMem_args cfg _ (_ + 10000))

end Announced

/-! ### Filing what has been met -/

section Filing

variable {t : Topology} {l : List ClusterNode} {x : ClusterNode}

/-- What is filed under an address was so before, or comes from a node of that address. -/
theorem foldl_fileNew_cases {ip id : String}
    (h : (l.foldl Topology.fileNew t).ipToID ip = some id) :
    t.ipToID ip = some id ∨ ∃ y ∈ l, y.ip = ip ∧ y.id = id := by
  induction l generalizing t with
  | nil => exact Or.inl h
  | cons y l ih =>
    rcases ih h with h | ⟨z, hz, hzip⟩
    · rw [Topology.fileNew] at h
      split at h
      · rw [Topology.addMetNode_ipToID, Function.update_apply] at h
        split at h
        · rename_i hip
          exact Or.inr ⟨y, List.mem_cons_self, hip.symm, Option.some.inj h⟩
        · exact Or.inl h
      · exact Or.inl h
    · exact Or.inr ⟨z, List.mem_cons_of_mem _ hz, hzip⟩

/-- What is filed under the address of a node stays so, if no other node has it. -/
theorem foldl_fileNew_known (hsingle : ∀ y ∈ l, y.ip = x.ip ↔ y.id = x.id)
    (h : t.ipToID x.ip = some x.id) :
    (l.foldl Topology.fileNew t).ipToID x.ip = some x.id := by
  induction l generalizing t with
  | nil => exact h
  | cons y l ih =>
    refine ih (fun z hz => hsingle z (List.mem_cons_of_mem _ hz)) ?_
    rw [Topology.fileNew]
    split
    · rw [Topology.addMetNode_ipToID, Function.update_apply]
      split
      · rename_i hip
        rw [(hsingle y List.mem_cons_self).mp hip.symm]
      · exact h
    · exact h

/-- A new node is filed under its address. -/
theorem foldl_fileNew_of_mem (hx : x ∈ l) (hnew : t.nodes x.id = none)
    (hsingle : ∀ y ∈ l, y.ip = x.ip ↔ y.id = x.id) :
    (l.foldl Topology.fileNew t).ipToID x.ip = some x.id := by
  induction l generalizing t with
  | nil => cases hx
  | cons y l ih =>
    have hrest : ∀ z ∈ l, z.ip = x.ip ↔ z.id = x.id :=
      fun z hz => hsingle z (List.mem_cons_of_mem _ hz)
    by_cases hy : y.ip = x.ip
    · -- this is the line of the node, or one like it
      have hid := (hsingle y List.mem_cons_self).mp hy
      have hnew' : (t.nodes y.id).isNone := by
        rw [hid, hnew]
        rfl
      rw [List.foldl_cons, Topology.fileNew, if_pos hnew']
      refine foldl_fileNew_known hrest ?_
      rw [Topology.addMetNode_ipToID, hy, hid]
      exact Function.update_self ..
    · have hid : x.id ≠ y.id := fun h => hy ((hsingle y List.mem_cons_self).mpr h.symm)
      have hmem : x ∈ l := (List.mem_cons.mp hx).resolve_left fun h => hy (h ▸ rfl)
      refine ih hmem ?_ hrest
      rw [Topology.fileNew]
      split
      · rw [Topology.addMetNode_nodes, Function.update_of_ne hid]
        exact hnew
      · exact hnew

end Filing

/-- All the nodes of a reply. -/
def allNodes (text : String) : List ClusterNode :=
  (parseClusterNodeLines (Text.split '\n' text) fun _ => true).1

theorem mem_shownNodes {base : BaseNodeManager} {clusterName text : String} {y : ClusterNode} :
    y ∈ shownNodes base clusterName text ↔ ∃ x ∈ allNodes text,
      (∃ node, base.getNodeByHost x.ip = some node ∧ node.clusterName = clusterName) ∧
        { x with clusterName := clusterName } = y := by
  rw [shownNodes, parseClusterNodeLines_filter, List.mem_map]
  simp only [List.mem_filter, and_assoc]
  refine exists_congr fun x => and_congr_right fun _ => and_congr_left fun _ => ?_
  rcases base.getNodeByHost x.ip with _ | node <;> simp

/-! ### A new cluster -/

/-- A reply to the process that has created the nodes `1` to `n`: it shows each of them
under the host that it announces, and no two of its nodes share a host or an ID. The
manager does not know the nodes yet. -/
structure MeetReply (announces : ℕ → Option String) (n : ℕ) (created : BaseNodeManager) where
  σ : Type
  h : Handler RedisCmd RedisCmd.Reply σ
  s : σ
  m : Manager
  loginNode : RuntimeNode
  text : String
  ids : ℕ → String
  nodeManager : m.nodeManager = created
  answered : (h s (.clusterNodes loginNode.clientConnAddr)).1 = .ok text
  shown : ∀ i host, 1 ≤ i → i ≤ n → announces i = some host →
    ∃ x ∈ allNodes text, x.ip = host ∧ x.id = ids i
  single : ∀ x ∈ allNodes text, ∀ y ∈ allNodes text, x.ip = y.ip ↔ x.id = y.id
  unknown : ∀ i, 1 ≤ i → i ≤ n →
    m.topo.nodes (ids i) = none ∧ ∀ ip, m.topo.ipToID ip ≠ some (ids i)

/-- The manager after `updateAfterMeet`. -/
def MeetReply.after {announces : ℕ → Option String} {n : ℕ} {created : BaseNodeManager}
    (r : MeetReply announces n created) (clusterName : String) : Manager :=
  (Session.exec r.h (updateAfterMeet r.loginNode clusterName) r.m r.s).1.2

/-- The announced hosts are resolved: by the process that has created the nodes, by one
that has found them by listing, and when new nodes are given their roles. -/
structure DnsWorks (clusterName : String) (n : ℕ) (announces : ℕ → Option String)
    (created relisted : BaseNodeManager) (reply : MeetReply announces n created) : Prop where
  creating : ∀ i host, 1 ≤ i → i ≤ n → announces i = some host →
    ∃ node ∈ created.nodes, node.name = containerName clusterName i ∧
      created.getNodeByHost host = some node
  rediscovering : ∀ i host, 1 ≤ i → i ≤ n → announces i = some host →
    ∀ node ∈ relisted.nodes, node.name = containerName clusterName i →
      relisted.getNodeByHost host = some node
  roles : ∀ i, 1 ≤ i → i ≤ n →
    ∀ node ∈ created.nodes, node.name = containerName clusterName i →
      (reply.after clusterName).topo.ipToID node.conIp = some (reply.ids i)

section Replies

variable {announces : ℕ → Option String} {n i : ℕ} {created : BaseNodeManager}
  (r : MeetReply announces n created) (clusterName : String) {host : String}

theorem MeetReply.ipToID_after (hnum : created.num ≠ 0) (hne : created.nodes ≠ []) :
    (r.after clusterName).topo.ipToID =
      ((shownNodes created clusterName r.text).foldl Topology.fileNew r.m.topo).ipToID := by
  obtain ⟨-, htopo⟩ := exec_updateAfterMeet clusterName (r.nodeManager.symm ▸ hnum)
    (r.nodeManager.symm ▸ hne) r.answered
  rw [MeetReply.after, htopo, r.nodeManager]
  rfl

variable {r clusterName}

/-- The name of a new node is found under its announced host only. -/
theorem MeetReply.eq_of_ipToID {ip : String} (hnum : created.num ≠ 0) (hne : created.nodes ≠ [])
    (hi : 1 ≤ i) (hin : i ≤ n) (hhost : announces i = some host)
    (h : (r.after clusterName).topo.ipToID ip = some (r.ids i)) : ip = host := by
  rw [r.ipToID_after clusterName hnum hne] at h
  rcases foldl_fileNew_cases h with h | ⟨y, hy, rfl, hid⟩
  · exact absurd h ((r.unknown i hi hin).2 ip)
  · obtain ⟨x, hx, -, rfl⟩ := mem_shownNodes.mp hy
    obtain ⟨z, hz, rfl, hzid⟩ := r.shown i host hi hin hhost
    exact (r.single x hx z hz).mpr (hid.trans hzid.symm)

/-- The name of a new node is found under its announced host, if that leads to a node of
the cluster. -/
theorem MeetReply.ipToID_host (hnum : created.num ≠ 0) (hne : created.nodes ≠ [])
    (hi : 1 ≤ i) (hin : i ≤ n) (hhost : announces i = some host) {node : RuntimeNode}
    (hnode : created.getNodeByHost host = some node) (hcluster : node.clusterName = clusterName) :
    (r.after clusterName).topo.ipToID host = some (r.ids i) := by
  rw [r.ipToID_after clusterName hnum hne]
  obtain ⟨x, hx, rfl, hid⟩ := r.shown i host hi hin hhost
  have hshown : { x with clusterName := clusterName } ∈ shownNodes created clusterName r.text :=
    mem_shownNodes.mpr ⟨x, hx, ⟨node, hnode, hcluster⟩, rfl⟩
  have hnew : r.m.topo.nodes x.id = none := by
    rw [hid]
    exact (r.unknown i hi hin).1
  have hfiled := foldl_fileNew_of_mem hshown hnew fun y hy => by
    obtain ⟨z, hz, -, rfl⟩ := mem_shownNodes.mp hy
    exact r.single z hz x hx
  rw [← hid]
  exact hfiled

end Replies

/-! ### The containers of podman by their names -/

/-- The tracked nodes are containers of the cluster, in the order of their indices, and
filed under what the template makes of them. -/
structure NamedPods (cfg : RuntimeConfig) (clusterName : String) (n : ℕ) (cs : List Container)
    (base : BaseNodeManager) : Prop where
  filed : base.Filed
  hosts : base.FiledByHost
  order : base.nodes.Pairwise fun x y => ∀ i j, x.name = containerName clusterName i →
    y.name = containerName clusterName j → i < j
  pods : ∀ node ∈ base.nodes, ∃ i, 1 ≤ i ∧ i ≤ n ∧ node.name = containerName clusterName i ∧
    node.hostname = cfg.buildHostname clusterName i ∧ node.clusterName = clusterName ∧
    ∃ c ∈ cs, c.name = containerName clusterName i ∧ c.ip = node.conIp

/-- Each container has its name for an address, and where the template gives the name of
a container, it does so for that container and for none after it. -/
def NamesAgree (cfg : RuntimeConfig) (clusterName : String) (n : ℕ) (cs : List Container) : Prop :=
  (∀ i, 1 ≤ i → i ≤ n → ∀ c ∈ cs, c.name = containerName clusterName i →
    c.ip = containerName clusterName i) ∧
  ∀ i j, 1 ≤ i → i ≤ n → 1 ≤ j → j ≤ n →
    cfg.buildHostname clusterName j = containerName clusterName i →
      j ≤ i ∧ cfg.buildHostname clusterName i = containerName clusterName i

section Pods

variable {cfg : RuntimeConfig} {clusterName : String} {n i : ℕ} {cs : List Container}
  {base : BaseNodeManager} {x y node : RuntimeNode}

theorem pairwise_of_names {idx : List ℕ} (hidx : idx.Pairwise (· < ·))
    {l : List RuntimeNode} (hl : l.map RuntimeNode.name = idx.map (containerName clusterName)) :
    l.Pairwise fun x y => ∀ i j, x.name = containerName clusterName i →
      y.name = containerName clusterName j → i < j := by
  have hnames : (idx.map (containerName clusterName)).Pairwise fun a b => ∀ i j,
      a = containerName clusterName i → b = containerName clusterName j → i < j := by
    refine List.pairwise_map.mpr (hidx.imp fun {a b} hab i j hi hj => ?_)
    rwa [← containerName_inj.mp hi, ← containerName_inj.mp hj]
  rw [← hl] at hnames
  exact List.pairwise_map.mp hnames

theorem NamedPods.eq_of_name (h : NamedPods cfg clusterName n cs base) (hx : x ∈ base.nodes)
    (hy : y ∈ base.nodes) (hname : x.name = y.name) : x = y := by
  obtain ⟨i, -, -, hi, -⟩ := h.pods x hx
  rcases hlast : latest RuntimeNode.name base.nodes x.name with _ | z
  · exact absurd rfl (latest_eq_none.mp hlast x hx)
  have hz := (latest_eq_some hlast).2
  have hzi := hz.trans hi
  have hxz : x = z := (latest_last h.order hlast hx rfl).resolve_right fun hlt =>
    Nat.lt_irrefl i (hlt i i hi hzi)
  have hyz : y = z := (latest_last h.order hlast hy hname.symm).resolve_right fun hlt =>
    Nat.lt_irrefl i (hlt i i (hname ▸ hi) hzi)
  exact hxz.trans hyz.symm

/-- Names that agree lead to their nodes. -/
theorem NamedPods.resolves (h : NamedPods cfg clusterName n cs base)
    (hagree : NamesAgree cfg clusterName n cs) (hnode : node ∈ base.nodes)
    (hname : node.name = containerName clusterName i) :
    base.getNodeByHost (containerName clusterName i) = some node := by
  have hconIp : ∀ x ∈ base.nodes, x.conIp = x.name := by
    intro x hx
    obtain ⟨j, hj, hjn, hxname, -, -, c, hc, hcname, hcip⟩ := h.pods x hx
    rw [← hcip, hxname]
    exact hagree.1 j hj hjn c hc hcname
  rw [BaseNodeManager.getNodeByHost, h.hosts _ (containerName_ne_empty _ _)]
  rcases hhost : latest RuntimeNode.hostname base.nodes (containerName clusterName i) with _ | x
  · -- filed under its address
    rw [Option.none_or, h.filed.ip, ← hname, ← hconIp node hnode]
    refine latest_of_unique hnode fun x hx hip => h.eq_of_name hx hnode ?_
    rw [← hconIp x hx, ← hconIp node hnode, hip]
  · -- filed under its host, after all others of that host
    obtain ⟨hx, hxhost⟩ := latest_eq_some hhost
    obtain ⟨j, hj, hjn, hxname, hxhost', -⟩ := h.pods x hx
    obtain ⟨k, hk, hkn, hkname, hkhost, -⟩ := h.pods node hnode
    obtain rfl : k = i := containerName_inj.mp (hkname.symm.trans hname)
    obtain ⟨hle, hown⟩ := hagree.2 k j hk hkn hj hjn (hxhost'.symm.trans hxhost)
    have hlast := latest_last h.order hhost hnode (hkhost.trans hown)
    rw [hlast.resolve_right fun hlt => absurd (hlt k j hkname hxname) (by omega)]
    rfl

end Pods

/-- A cluster that the podman backend creates in one process and lists in another, where
no other container is listed for it. -/
structure PodmanDeployment (cfg : RuntimeConfig) (clusterName : String) (n : ℤ) where
  env : PodmanEnv
  s : PodmanState
  s₁ : PodmanState
  s₂ : PodmanState
  created : BaseNodeManager
  relisted : BaseNodeManager
  create : (createPods cfg {} n clusterName).run (podmanHandler env) s = ((.ok (), created), s₁)
  list : (listPodsByCluster cfg {} clusterName).run (podmanHandler env) s₁ =
    ((.ok (), relisted), s₂)
  identified : Identified s₁.containers
  others : ∀ c ∈ s.containers, ¬ env.regex (clusterName ++ "-redis") c.name
  /-- A Go `int`. -/
  int : n < 2 ^ 63

namespace PodmanDeployment

variable {cfg : RuntimeConfig} {clusterName : String} {n : ℤ}
  (d : PodmanDeployment cfg clusterName n)

/-- The hosts that the containers announce. -/
def announces (cfg : RuntimeConfig) (clusterName : String) (i : ℕ) : Option String :=
  announcedHost (runSpec cfg clusterName i).command

theorem created_names : d.created.nodes.map RuntimeNode.name =
    ((List.range n.toNat).map (1 + ·)).map (containerName clusterName) := by
  obtain ⟨new, hcreated, hnames, -⟩ := createPods_tracks d.create d.identified
  rw [hcreated, BaseNodeManager.nodes_addNodes]
  exact hnames

theorem pairwise_indices (n : ℕ) : ((List.range n).map (1 + ·)).Pairwise (· < ·) :=
  List.pairwise_map.mpr (List.pairwise_lt_range.imp fun h => by omega)

theorem mem_indices {n i : ℕ} : i ∈ (List.range n).map (1 + ·) ↔ 1 ≤ i ∧ i ≤ n := by
  rw [List.mem_map]
  refine ⟨?_, fun h => ⟨i - 1, List.mem_range.mpr (by omega), by omega⟩⟩
  rintro ⟨k, hk, rfl⟩
  have := List.mem_range.mp hk
  omega

/-- The process that creates the containers tracks them by their names. -/
theorem namedPods_created (hdns : cfg.dnsEnabled = true) :
    NamedPods cfg clusterName n.toNat d.s₁.containers d.created where
  filed := by
    obtain ⟨new, hcreated, -⟩ := createPods_tracks d.create d.identified
    rw [hcreated]
    exact BaseNodeManager.filed_empty.addNodes new
  hosts := by
    obtain ⟨new, hcreated, -⟩ := createPods_tracks d.create d.identified
    rw [hcreated]
    exact BaseNodeManager.filedByHost_empty.addNodes new
  order := pairwise_of_names (pairwise_indices _) d.created_names
  pods := by
    intro node hnode
    obtain ⟨new, hcreated, -, hnew⟩ := createPods_tracks d.create d.identified
    rw [hcreated, BaseNodeManager.nodes_addNodes] at hnode
    obtain ⟨i, hi, hin, c, hc, hcname, -, hostPort, rfl⟩ := hnew node hnode
    replace hin : i < 0 + 1 + n.toNat := hin
    refine ⟨i, by omega, by omega, withAddress_name _, ?_, withAddress_clusterName _, c, hc,
      hcname, ?_⟩
    · rw [withAddress_hostname, createdNode, hdns]
      rfl
    · rw [withAddress_conIp]
      rfl

/-- What is listed for the cluster are its containers. -/
theorem listed_sublist : (d.s₁.listed d.env false (clusterName ++ "-redis")).Sublist
    (((List.range n.toNat).map (1 + ·)).map (containerName clusterName)) := by
  obtain ⟨new, hnew, hnames⟩ := (createPods_ok d.create).containers
  have hnone : d.s.containers.filter (fun c =>
      (false || c.running) && d.env.regex (clusterName ++ "-redis") c.name) = [] := by
    rw [List.filter_eq_nil_iff]
    intro c hc h
    exact d.others c hc (Bool.and_eq_true_iff.mp h).2
  rw [PodmanState.listed, hnew, List.filter_append, hnone, List.nil_append]
  have hsub := (List.filter_sublist (l := new) (p := fun c =>
    (false || c.running) && d.env.regex (clusterName ++ "-redis") c.name)).map Container.name
  rw [hnames] at hsub
  rw [List.map_map]
  exact hsub

/-- A process that lists the containers tracks them by their names. -/
theorem namedPods_relisted (hdns : cfg.dnsEnabled = true) :
    NamedPods cfg clusterName n.toNat d.s₁.containers d.relisted := by
  obtain ⟨new, hrelisted, hsub, hnew⟩ := listPodsByCluster_tracks d.list d.identified
  have hnodes : d.relisted.nodes = new := by
    rw [hrelisted, BaseNodeManager.nodes_addNodes]
    rfl
  obtain ⟨idx, hidx, hnames⟩ := List.sublist_map_iff.mp (hsub.trans d.listed_sublist)
  refine ⟨?_, ?_, ?_, ?_⟩
  · rw [hrelisted]
    exact BaseNodeManager.filed_empty.addNodes new
  · rw [hrelisted]
    exact BaseNodeManager.filedByHost_empty.addNodes new
  · rw [hnodes]
    exact pairwise_of_names ((pairwise_indices _).sublist hidx) hnames
  · intro node hnode
    rw [hnodes] at hnode
    have hname : node.name ∈ idx.map (containerName clusterName) :=
      hnames ▸ List.mem_map_of_mem hnode
    obtain ⟨i, hi, hiname⟩ := List.mem_map.mp hname
    obtain ⟨hi, hin⟩ := mem_indices.mp (hidx.subset hi)
    obtain ⟨c, hc, -, fullID, hostPort, rfl⟩ := hnew node hnode
    refine ⟨i, hi, hin, hiname.symm, ?_, rfl, c, hc, hiname.symm, rfl⟩
    -- the index is read back from the name
    have hint := d.int
    have hread : Text.atoi (Text.trimPrefix c.name (clusterName ++ "-redis-")) = some (i : ℤ) := by
      rw [show c.name = clusterName ++ "-redis-" ++ toString i from hiname.symm,
        Text.trimPrefix_append]
      exact Text.atoi_toString (by omega)
    rw [listedNode, hdns, hread]
    rfl

end PodmanDeployment

/-! ### When the names are resolved -/

/-- A cluster that the containerd backend creates in one process and lists in another. -/
structure ContainerdDeployment (cfg : RuntimeConfig) (clusterName : String) (n : ℤ) where
  env : Containerd.ContainerdEnv
  s : Containerd.ContainerdState
  s₁ : Containerd.ContainerdState
  s₂ : Containerd.ContainerdState
  created : BaseNodeManager
  relisted : BaseNodeManager
  create : (Containerd.createPods cfg {} n clusterName).run (Containerd.containerdHandler env) s =
    ((.ok (), created), s₁)
  list : (Containerd.listPodsByCluster cfg {} clusterName).run (Containerd.containerdHandler env)
    s₁ = ((.ok (), relisted), s₂)

/-- The hosts that the containers announce. -/
def ContainerdDeployment.announces (cfg : RuntimeConfig) (clusterName : String) (i : ℕ) :
    Option String :=
  announcedHost (Containerd.redisArgs cfg clusterName i)

section Works

variable {cfg : RuntimeConfig} {clusterName : String} {n : ℤ}

/-- The host of a containerd node is no container name. -/
theorem containerName_ne_host (clusterName : String) (i : ℕ) :
    "127.0.0.1" ≠ containerName clusterName i := by
  intro h
  have hdash : '-' ∈ "127.0.0.1".toList := by
    rw [h, containerName, String.toList_append, String.toList_append]
    exact List.mem_append_left _ (List.mem_append_right _ (by decide))
  exact absurd hdash (by decide)

/-- A process that has found the containers of containerd by listing resolves none of
their names. -/
theorem ContainerdDeployment.relisted_unresolved (d : ContainerdDeployment cfg clusterName n)
    (i : ℕ) : d.relisted.getNodeByHost (containerName clusterName i) = none := by
  have hhosts : d.relisted.hostToNode = fun _ => none := listPodsByCluster_hosts.of_run_eq d.list
  have honHost : Containerd.OnHost d.relisted :=
    Containerd.listPodsByCluster_onHost.of_run_eq d.list
  rw [BaseNodeManager.getNodeByHost, hhosts, Option.none_or, honHost.filed.ip, latest_eq_none]
  intro node hnode
  rw [honHost.conIp node hnode]
  exact containerName_ne_host clusterName i

/-- With containerd it is not, as soon as there is a node. -/
theorem ContainerdDeployment.dnsWorks_iff (hdns : cfg.dnsEnabled = true)
    (d : ContainerdDeployment cfg clusterName n)
    (reply : MeetReply (ContainerdDeployment.announces cfg clusterName) n.toNat d.created) :
    DnsWorks clusterName n.toNat (ContainerdDeployment.announces cfg clusterName) d.created
      d.relisted reply ↔ n ≤ 0 := by
  constructor
  · intro hworks
    by_contra hn
    obtain ⟨s₁, -, hrun⟩ := Containerd.createPods_ok d.create
    obtain ⟨hcreated, -⟩ := Containerd.createPodsFrom_ok hrun
    have honHost : Containerd.OnHost d.created := by
      rw [hcreated]
      exact Containerd.onHost_empty.created _
    have hhost := announcedHost_redisArgs hdns clusterName (Nat.le_refl 1)
    obtain ⟨node, hnode, hname, -⟩ := hworks.creating 1 _ (Nat.le_refl 1) (by omega) hhost
    have hne : d.created.nodes ≠ [] := List.ne_nil_of_mem hnode
    have hnum : d.created.num ≠ 0 := by
      rw [honHost.filed.num]
      exact fun h => hne (List.length_eq_zero_iff.mp h)
    have hrole := hworks.roles 1 (Nat.le_refl 1) (by omega) node hnode hname
    rw [honHost.conIp node hnode] at hrole
    exact containerName_ne_host clusterName 1
      (reply.eq_of_ipToID hnum hne (Nat.le_refl 1) (by omega) hhost hrole)
  · intro hn
    exact ⟨fun i _ hi hin => by omega, fun i _ hi hin => by omega, fun i hi hin => by omega⟩

/-- With podman it is when the names agree. -/
theorem PodmanDeployment.dnsWorks_iff (hdns : cfg.dnsEnabled = true)
    (d : PodmanDeployment cfg clusterName n)
    (reply : MeetReply (PodmanDeployment.announces cfg clusterName) n.toNat d.created) :
    DnsWorks clusterName n.toNat (PodmanDeployment.announces cfg clusterName) d.created
      d.relisted reply ↔ NamesAgree cfg clusterName n.toNat d.s₁.containers := by
  have hhost : ∀ i, PodmanDeployment.announces cfg clusterName i =
      some (containerName clusterName i) := fun i => announcedHost_runSpec hdns clusterName
  have hcreated := d.namedPods_created hdns
  have hnode : ∀ i, 1 ≤ i → i ≤ n.toNat →
      ∃ node ∈ d.created.nodes, node.name = containerName clusterName i := by
    intro i hi hin
    have hmem : containerName clusterName i ∈ d.created.nodes.map RuntimeNode.name := by
      rw [d.created_names]
      exact List.mem_map_of_mem (PodmanDeployment.mem_indices.mpr ⟨hi, hin⟩)
    exact List.mem_map.mp hmem
  have hnum : ∀ node ∈ d.created.nodes, d.created.num ≠ 0 ∧ d.created.nodes ≠ [] := by
    intro node hnode
    have hne : d.created.nodes ≠ [] := List.ne_nil_of_mem hnode
    refine ⟨?_, hne⟩
    rw [hcreated.filed.num]
    exact fun h => hne (List.length_eq_zero_iff.mp h)
  constructor
  · intro hworks
    refine ⟨?_, ?_⟩
    · -- the roles are looked up by address, and filed by announced host
      intro i hi hin c hc hcname
      obtain ⟨node, hmem, hname⟩ := hnode i hi hin
      obtain ⟨hnum, hne⟩ := hnum node hmem
      have hip := reply.eq_of_ipToID hnum hne hi hin (hhost i)
        (hworks.roles i hi hin node hmem hname)
      obtain ⟨j, -, -, hjname, -, -, c', hc', hc'name, hc'ip⟩ := hcreated.pods node hmem
      obtain rfl : j = i := containerName_inj.mp (hjname.symm.trans hname)
      have hsame : c = c' :=
        List.inj_on_of_nodup_map d.identified.names hc hc' (hcname.trans hc'name.symm)
      rw [hsame, hc'ip, hip]
    · -- the node that is found under the name is the last that is filed under it
      intro i j hi hin hj hjn hrender
      obtain ⟨node, hmem, hname, hfound⟩ := hworks.creating i _ hi hin (hhost i)
      obtain ⟨other, hother, hothername⟩ := hnode j hj hjn
      obtain ⟨k, -, -, hkname, hkhost, -⟩ := hcreated.pods other hother
      obtain rfl : k = j := containerName_inj.mp (hkname.symm.trans hothername)
      rw [BaseNodeManager.getNodeByHost, hcreated.hosts _ (containerName_ne_empty _ _)] at hfound
      rcases hlatest : latest RuntimeNode.hostname d.created.nodes (containerName clusterName i)
        with _ | x
      · exact absurd (hkhost.trans hrender) (latest_eq_none.mp hlatest other hother)
      rw [hlatest, Option.some_or] at hfound
      obtain rfl : x = node := Option.some.inj hfound
      obtain ⟨i', -, -, hi'name, hi'host, -⟩ := hcreated.pods x hmem
      obtain rfl : i' = i := containerName_inj.mp (hi'name.symm.trans hname)
      refine ⟨?_, hi'host.symm.trans (latest_eq_some hlatest).2⟩
      rcases latest_last hcreated.order hlatest hother (hkhost.trans hrender) with heq | hlt
      · rw [heq] at hkname
        exact (containerName_inj.mp (hi'name.symm.trans hkname)).ge
      · exact (hlt k i' hkname hi'name).le
  · intro hagree
    refine ⟨?_, ?_, ?_⟩
    · intro i host hi hin hannounced
      obtain rfl := Option.some.inj ((hhost i).symm.trans hannounced)
      obtain ⟨node, hmem, hname⟩ := hnode i hi hin
      exact ⟨node, hmem, hname, hcreated.resolves hagree hmem hname⟩
    · intro i host hi hin hannounced node hmem hname
      obtain rfl := Option.some.inj ((hhost i).symm.trans hannounced)
      exact (d.namedPods_relisted hdns).resolves hagree hmem hname
    · intro i hi hin node hmem hname
      obtain ⟨hnum, hne⟩ := hnum node hmem
      obtain ⟨j, hj, hjn, hjname, -, hcluster, c, hc, hcname, hcip⟩ := hcreated.pods node hmem
      have hip : node.conIp = containerName clusterName i := by
        rw [← hcip, ← hname, hjname]
        exact hagree.1 j hj hjn c hc hcname
      rw [hip]
      exact reply.ipToID_host hnum hne hi hin (hhost i)
        (hcreated.resolves hagree hmem hname) hcluster

/-- **When DNS names are resolved.** For every configuration with DNS enabled, every
template, every cluster and every number of nodes: with podman when the address of each
container is its name and the template gives the name of a container to no other; with
containerd only when there is no node. -/
theorem dnsWorks_iff_namesAgree (hdns : cfg.dnsEnabled = true) :
    (∀ (d : PodmanDeployment cfg clusterName n)
      (reply : MeetReply (PodmanDeployment.announces cfg clusterName) n.toNat d.created),
      DnsWorks clusterName n.toNat (PodmanDeployment.announces cfg clusterName) d.created
        d.relisted reply ↔ NamesAgree cfg clusterName n.toNat d.s₁.containers) ∧
    ∀ (d : ContainerdDeployment cfg clusterName n)
      (reply : MeetReply (ContainerdDeployment.announces cfg clusterName) n.toNat d.created),
      DnsWorks clusterName n.toNat (ContainerdDeployment.announces cfg clusterName) d.created
        d.relisted reply ↔ n ≤ 0 :=
  ⟨fun d reply => d.dnsWorks_iff hdns reply, fun d reply => d.dnsWorks_iff hdns reply⟩

end Works

/-! ### With the default template -/

/-- The configuration with DNS enabled and the default template. -/
def dnsConfig : RuntimeConfig :=
  { plainConfig with dns := some (Config.resolveDNSDefaults { dns := { enabled := true } }).dns }

/-- Podman without failures, with an address by the name of the container. -/
def podmanAt (address : String → String) : PodmanEnv where
  regex := dotMatch
  create n spec :=
    { name := spec.name, id := spec.name, ip := address spec.name, ports := [(6379, 40000 + n)] }

/-- Podman with one container, after the requests that have created it. -/
def onePod (address : String → String) : PodmanState :=
  ⟨[⟨"prod-redis-1", "prod-redis-1", address "prod-redis-1", true, [(6379, 40002)]⟩], 7⟩

/-- What creating one container in an empty podman leads to. -/
def createdAt (address : String → String) :
    (Except String Unit × BaseNodeManager) × PodmanState :=
  (createPods dnsConfig {} 1 "prod").run (podmanHandler (podmanAt address)) ⟨[], 0⟩

/-- What listing it leads to. -/
def relistedAt (address : String → String) :
    (Except String Unit × BaseNodeManager) × PodmanState :=
  (listPodsByCluster dnsConfig {} "prod").run (podmanHandler (podmanAt address)) (onePod address)

theorem eq_of_ok {β σ : Type} {r : (Except String Unit × β) × σ} {s : σ} (h : r.1.1 = .ok ())
    (hs : r.2 = s) : r = ((.ok (), r.1.2), s) := by
  rw [← h, ← hs]

/-- A cluster of one node, in an empty podman. -/
def deployedAt (address : String → String) (hcreate : (createdAt address).1.1 = .ok ())
    (hpod : (createdAt address).2 = onePod address) (hlist : (relistedAt address).1.1 = .ok ()) :
    PodmanDeployment dnsConfig "prod" 1 where
  env := podmanAt address
  s := ⟨[], 0⟩
  s₁ := onePod address
  s₂ := (relistedAt address).2
  created := (createdAt address).1.2
  relisted := (relistedAt address).1.2
  create := eq_of_ok hcreate hpod
  list := eq_of_ok hlist rfl
  identified := ⟨List.nodup_singleton _, fun c hc c' hc' _ =>
    (List.mem_singleton.mp hc).trans (List.mem_singleton.mp hc').symm⟩
  others := nofun
  int := by decide

/-- The node shows the name that it announces. -/
def announcedText : String := "a prod-redis-1:6379@16379 myself,master - 0 0 1 connected"

theorem allNodes_announcedText : allNodes announcedText =
    [{ id := "a", ip := "prod-redis-1", port := 6379, nodeType := .master, masterID := "-"
       linkState := "connected" }] := by
  decide +kernel

/-- The reply to a manager that knows no node. -/
def replyAnnounced (created : BaseNodeManager) :
    MeetReply (PodmanDeployment.announces dnsConfig "prod") (1 : ℤ).toNat created where
  σ := Unit
  h := frozenRedis announcedText
  s := ()
  m := { nodeManager := created, nodesPerShard := 1 }
  loginNode := { hostIP := "127.0.0.1", hostPort := 40002, conIp := "10.88.0.2", conPort := 6379
                 name := "prod-redis-1", id := "prod-redis-1", clusterName := "prod" }
  text := announcedText
  ids _ := "a"
  nodeManager := rfl
  answered := rfl
  shown := by
    intro i host hi hin hhost
    obtain rfl : i = 1 := Nat.le_antisymm hin hi
    have hannounced : announcedHost (runSpec dnsConfig "prod" 1).command = some "prod-redis-1" := by
      decide +kernel
    obtain rfl := Option.some.inj (hannounced.symm.trans hhost)
    rw [allNodes_announcedText]
    exact ⟨_, List.mem_singleton_self _, rfl, rfl⟩
  single := by
    rw [allNodes_announcedText]
    intro x hx y hy
    rw [List.mem_singleton.mp hx, List.mem_singleton.mp hy]
    exact ⟨fun _ => rfl, fun _ => rfl⟩
  unknown _ _ _ := ⟨rfl, fun _ => nofun⟩

/-- A container whose address is its name is resolved. -/
theorem dnsWorks_of_named_address :
    ∃ (d : PodmanDeployment dnsConfig "prod" 1)
      (reply : MeetReply (PodmanDeployment.announces dnsConfig "prod") (1 : ℤ).toNat d.created),
      DnsWorks "prod" (1 : ℤ).toNat (PodmanDeployment.announces dnsConfig "prod") d.created
        d.relisted reply := by
  refine ⟨deployedAt id (by decide +kernel) (by decide +kernel) (by decide +kernel),
    replyAnnounced _, ((dnsWorks_iff_namesAgree rfl).1 _ _).mpr ⟨?_, ?_⟩⟩
  · intro i hi hin c hc hname
    rw [List.mem_singleton.mp hc] at hname ⊢
    exact hname
  · intro i j hi hin hj hjn hrender
    obtain rfl : i = 1 := Nat.le_antisymm hin hi
    obtain rfl : j = 1 := Nat.le_antisymm hjn hj
    exact absurd hrender (by decide +kernel)

/-- With the default template and an address like those of podman, the announced name is
resolved neither by the process that has created the container nor by one that lists it. -/
theorem not_dnsWorks_of_default_template :
    ∃ (d : PodmanDeployment dnsConfig "prod" 1)
      (reply : MeetReply (PodmanDeployment.announces dnsConfig "prod") (1 : ℤ).toNat d.created),
      d.created.getNodeByHost "prod-redis-1" = none ∧
      d.relisted.getNodeByHost "prod-redis-1" = none ∧
      ¬ DnsWorks "prod" (1 : ℤ).toNat (PodmanDeployment.announces dnsConfig "prod") d.created
        d.relisted reply := by
  refine ⟨deployedAt (fun _ => "10.88.0.2") (by decide +kernel) (by decide +kernel)
    (by decide +kernel), replyAnnounced _, by decide +kernel, by decide +kernel, fun hworks => ?_⟩
  have hagree := (PodmanDeployment.dnsWorks_iff rfl _ _).mp hworks
  have hip := hagree.1 1 (Nat.le_refl 1) (Nat.le_refl 1) _ (List.mem_singleton_self _)
    (by decide +kernel)
  exact absurd hip (by decide +kernel)

end ClusterManager
