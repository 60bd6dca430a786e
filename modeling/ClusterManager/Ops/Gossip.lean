import ClusterManager.Model.Roles
import ClusterManager.Ops.Shards

/-!
# The number of masters of a scale-out, and gossip

When the roles of the new nodes have been set, the scale-out knows `m + k` masters if `m`
were there and `k` shards are added. It has counted them itself only if there was no
replica to set: each replica makes it read the roles of all nodes again, from the first
node, and forget its own count. A new node is a master until it has become a replica, and
the first node learns of that when gossip brings it there. So the last reply decides, and
what it shows depends on how far gossip has got (`Scale.countsMasters_iff`).
-/

namespace ClusterManager

namespace Scale

/-! ### Dealing out the roles -/

/-- What the roles are when nodes have been given one, in groups of `nodesPerShard`: each
node is in one shard, its address is noted, and all shards but the last are full. -/
structure Dealt (nodesPerShard : ℤ) (nodes : List (String × String)) (r : NewRoles) : Prop where
  named : (named r.masterToSlave).Perm (nodes.map Prod.fst)
  addresses : ∀ x ∈ nodes, r.idToIP.lookup x.1 = some x.2
  started : nodes = [] → r.count = 0
  groups : nodes ≠ [] → 1 ≤ r.count ∧ r.count ≤ nodesPerShard ∧
    nodes.length + nodesPerShard = r.masterToSlave.length * nodesPerShard + r.count ∧
    r.masterID ∈ r.masterToSlave.map Prod.fst

section Dealt

variable {nodesPerShard : ℤ} {nodes : List (String × String)} {r : NewRoles} {id : String}
  (ip : String)

theorem dealt_nil : Dealt nodesPerShard [] {} where
  named := List.Perm.refl _
  addresses := by simp
  started _ := rfl
  groups h := absurd rfl h

theorem Dealt.addresses_snoc (hr : Dealt nodesPerShard nodes r) (hid : id ∉ nodes.map Prod.fst) :
    ∀ x ∈ nodes ++ [(id, ip)], (setEntry r.idToIP id ip).lookup x.1 = some x.2 := by
  intro x hx
  rcases List.mem_append.mp hx with hx | hx
  · have hne : x.1 ≠ id := fun heq => hid (heq ▸ List.mem_map_of_mem hx)
    rw [lookup_setEntry_of_ne hne]
    exact hr.addresses x hx
  · rw [List.mem_singleton.mp hx]
    exact lookup_setEntry_self

/-- The next node is the master of a new shard. -/
theorem Dealt.master (hr : Dealt nodesPerShard nodes r) (hpos : 0 < nodesPerShard)
    (hid : id ∉ nodes.map Prod.fst)
    (hcount : (if r.count = nodesPerShard then 0 else r.count) = 0) :
    setEntry r.masterToSlave id [] = r.masterToSlave ++ [(id, [])] ∧
    Dealt nodesPerShard (nodes ++ [(id, ip)])
      { r with
        idToIP := setEntry r.idToIP id ip
        masterToSlave := setEntry r.masterToSlave id []
        masterID := id
        count := 1 } := by
  have hnew : id ∉ r.masterToSlave.map Prod.fst := fun hmem =>
    hid (hr.named.subset ((fst_sublist_named _).subset hmem))
  have hset := setEntry_of_notMem (v := []) hnew
  refine ⟨hset, ?_, hr.addresses_snoc ip hid, by simp, fun _ => ⟨le_refl _, hpos, ?_, ?_⟩⟩
  · rw [hset, List.map_append, ClusterManager.named, List.flatMap_append]
    exact hr.named.append_right _
  · rw [hset, List.length_append, List.length_append, List.length_singleton, List.length_singleton,
      Nat.cast_add, Nat.cast_add, Nat.cast_one, add_mul, one_mul]
    by_cases hnil : nodes = []
    · subst hnil
      have hlen := hr.named.length_eq
      rw [length_named, List.map_nil, List.length_nil] at hlen
      rw [show r.masterToSlave.length = 0 by omega]
      simp [add_comm]
    · obtain ⟨hone, -, hgroups, -⟩ := hr.groups hnil
      have hfull : r.count = nodesPerShard := by
        by_contra hne
        rw [if_neg hne] at hcount
        omega
      dsimp only
      omega
  · rw [hset, List.map_append]
    exact List.mem_append_right _ List.mem_cons_self

/-- The next node is a replica of the current shard's master. -/
theorem Dealt.replica (hr : Dealt nodesPerShard nodes r) (hnodup : (nodes.map Prod.fst).Nodup)
    (hid : id ∉ nodes.map Prod.fst)
    (hcount : (if r.count = nodesPerShard then 0 else r.count) ≠ 0) :
    (setEntry r.masterToSlave r.masterID
      ((r.masterToSlave.lookup r.masterID).getD [] ++ [id])).length = r.masterToSlave.length ∧
    Dealt nodesPerShard (nodes ++ [(id, ip)])
      { r with
        idToIP := setEntry r.idToIP id ip
        masterToSlave := setEntry r.masterToSlave r.masterID
          ((r.masterToSlave.lookup r.masterID).getD [] ++ [id])
        count := (if r.count = nodesPerShard then 0 else r.count) + 1 } := by
  have hne : r.count ≠ nodesPerShard := fun heq => hcount (if_pos heq)
  rw [if_neg hne] at hcount ⊢
  have hnil : nodes ≠ [] := fun hnil => hcount (hr.started hnil)
  obtain ⟨hone, hle, hgroups, hmaster⟩ := hr.groups hnil
  have hkeys : (r.masterToSlave.map Prod.fst).Nodup :=
    (fst_sublist_named _).nodup (hr.named.nodup_iff.mpr hnodup)
  have hlen := congrArg List.length (fst_setEntry_of_mem
    (v := (r.masterToSlave.lookup r.masterID).getD [] ++ [id]) hmaster)
  rw [List.length_map, List.length_map] at hlen
  have hnext : 1 ≤ r.count + 1 ∧ r.count + 1 ≤ nodesPerShard := ⟨by omega, by omega⟩
  refine ⟨hlen, ?_, hr.addresses_snoc ip hid, by simp, fun _ => ⟨hnext.1, hnext.2, ?_, ?_⟩⟩
  · rw [List.map_append]
    exact (named_setEntry_append hmaster hkeys).trans (hr.named.append_right _)
  · rw [hlen, List.length_append, List.length_singleton, Nat.cast_add, Nat.cast_one]
    dsimp only
    omega
  · rw [fst_setEntry_of_mem hmaster]
    exact hmaster

end Dealt

@[simp] theorem addNewMaster_masterIDs (t : Topology) (id : String) :
    (t.addNewMaster id).masterIDs = t.masterIDs ++ [id] := by
  rw [Topology.addNewMaster]
  split <;> rfl

@[simp] theorem addNewMaster_ipToID (t : Topology) (id : String) :
    (t.addNewMaster id).ipToID = t.ipToID := by
  rw [Topology.addNewMaster]
  split <;> rfl

/-- **The roles are dealt out**, and one more master is counted for each shard. -/
theorem exec_assignNewRoles {σ : Type} (h : Handler RedisCmd RedisCmd.Reply σ) (s : σ)
    {nodesPerShard : ℤ} (hpos : 0 < nodesPerShard) (idOf : RuntimeNode → String)
    {nodes : List RuntimeNode} {dealt : List (String × String)} {r : NewRoles} {c : Manager}
    {n : ℕ} (hknown : ∀ node ∈ nodes, c.topo.ipToID node.conIp = some (idOf node))
    (hr : Dealt nodesPerShard dealt r)
    (hnodup : (dealt.map Prod.fst ++ nodes.map idOf).Nodup)
    (hcount : c.topo.masterIDs.length = n + r.masterToSlave.length) :
    ∃ r' c', Session.exec h (assignNewRoles nodesPerShard nodes r) c s = ((.ok r', c'), s) ∧
      Dealt nodesPerShard (dealt ++ nodes.map fun node => (idOf node, node.conIp)) r' ∧
      c'.topo.masterIDs.length = n + r'.masterToSlave.length := by
  induction nodes generalizing dealt r c with
  | nil => exact ⟨r, c, rfl, by simpa using hr, hcount⟩
  | cons node nodes ih =>
    have hid := hknown node List.mem_cons_self
    have hnext : ((dealt ++ [(idOf node, node.conIp)]).map Prod.fst ++ nodes.map idOf).Nodup := by
      rw [List.map_append, List.append_assoc]
      exact hnodup
    rw [List.map_cons] at hnodup
    have hfresh : idOf node ∉ dealt.map Prod.fst := fun hmem =>
      (List.disjoint_of_nodup_append hnodup) hmem List.mem_cons_self
    rw [assignNewRoles, Session.exec_bind, Session.exec_get]
    dsimp only
    rw [hid, Option.getD_some, List.map_cons, ← List.singleton_append (x := (_, _)),
      ← List.append_assoc]
    by_cases hzero : (if r.count = nodesPerShard then 0 else r.count) = 0
    · rw [if_pos hzero]
      obtain ⟨hset, hdealt⟩ := hr.master node.conIp hpos hfresh hzero
      refine ih (c := { c with topo := c.topo.addNewMaster (idOf node) }) (fun y hy => ?_) hdealt
        hnext ?_
      · exact (congrFun (addNewMaster_ipToID _ _) _).trans (hknown y (List.mem_cons_of_mem _ hy))
      · dsimp only
        rw [addNewMaster_masterIDs, hset, List.length_append, List.length_append, hcount]
        rfl
    · rw [if_neg hzero]
      obtain ⟨hlen, hdealt⟩ := hr.replica node.conIp hnodup.of_append_left hfresh hzero
      exact ih (fun y hy => hknown y (List.mem_cons_of_mem _ hy)) hdealt hnext
        (hcount.trans (congrArg (n + ·) hlen.symm))

end Scale

/-! ### The nodes that are told to replicate -/

section Replicated

variable {σ : Type} {h : Handler RedisCmd RedisCmd.Reply σ} {s s' : σ} (nodeAt : String → String)

/-- The node that a request tells to replicate. -/
def replicaOf (x : RedisCmd × σ) : Option String :=
  match x.1 with
  | .clusterReplicate addr _ => some (nodeAt addr)
  | _ => none

/-- The nodes that have been told to replicate, in their order. -/
def replicated (l : List (RedisCmd × σ)) : List String := l.filterMap (replicaOf nodeAt)

theorem replicated_append (l l' : List (RedisCmd × σ)) :
    replicated nodeAt (l ++ l') = replicated nodeAt l ++ replicated nodeAt l' :=
  List.filterMap_append

/-- A look at the roles. -/
def RedisCmd.Looks : RedisCmd → Prop
  | .clusterNodes _ | .clusterForget _ _ => True
  | _ => False

theorem replicated_of_looks {l : List (RedisCmd × σ)} (hl : ∀ x ∈ l, x.1.Looks) :
    replicated nodeAt l = [] := by
  refine List.filterMap_eq_nil_iff.mpr fun x hx => ?_
  obtain ⟨c, s⟩ := x
  have hc := hl _ hx
  cases c <;> first | rfl | exact hc.elim

theorem updateAfterSetNodeRole_looks (loginNode : RuntimeNode) (clusterName : String) :
    Session.Sends RedisCmd.Looks (updateAfterSetNodeRole loginNode clusterName) := by
  have hforget : ∀ ids,
      Session.Sends RedisCmd.Looks (forgetFailedClusterNodes clusterName ids) := by
    refine fun ids => Session.Sends.get.bind fun c => ?_
    split
    · exact Session.Sends.pure _
    · exact Session.Sends.forM fun _ _ => (Session.Sends.lift (Program.Sends.send trivial)).bind
        fun _ => Session.Sends.pure _
  have hparse : ∀ text, Session.Sends RedisCmd.Looks (parseRedisClusterNodes text clusterName) := by
    refine fun text => Session.Sends.get.bind fun c => ?_
    dsimp only
    exact Session.Sends.ite ((hforget _).bind fun _ => Session.Sends.pure _) (Session.Sends.pure _)
  have hget : Session.Sends RedisCmd.Looks (getClusterNodes loginNode clusterName) := by
    refine Session.Sends.get.bind fun c => ?_
    simp only [Session.fail_bind]
    refine Session.Sends.ite (Session.Sends.fail _) ?_
    exact (Session.Sends.lift (Program.Sends.send trivial)).bind fun r =>
      (Session.Sends.orFail _ _).bind fun _ => hparse _
  refine (Session.Sends.modify _).bind fun _ => Session.Sends.get.bind fun c => ?_
  refine Session.Sends.ite (Session.Sends.pure _) ?_
  refine hget.bind fun nodes => Session.Sends.ite (Session.Sends.pure _) ?_
  refine (Session.Sends.forM fun master _ => Session.Sends.modify _).bind fun _ =>
    (Session.Sends.forM fun slave _ => Session.Sends.get.bind fun c => ?_).bind fun _ =>
      Session.Sends.modify _
  simp only [Session.fail_bind]
  exact Session.Sends.ite (Session.Sends.fail _) (Session.Sends.modify _)

theorem replicated_updateAfterSetNodeRole (m : Manager) (loginNode : RuntimeNode)
    (clusterName : String) :
    replicated nodeAt (Session.sent h (updateAfterSetNodeRole loginNode clusterName) m s) = [] :=
  replicated_of_looks nodeAt fun y hy =>
    (updateAfterSetNodeRole_looks loginNode clusterName m).trace y hy

/-- Setting a node's role is one replicate command, and a look. -/
theorem replicated_setNodeAsSlave {m m' : Manager} {masterIP slaveIP clusterName : String}
    {node : RuntimeNode} (hnode : m.nodeManager.getNodeByHost slaveIP = some node)
    (hok : Session.exec h (setNodeAsSlave masterIP slaveIP clusterName) m s =
      ((.ok ⟨⟩, m'), s')) :
    replicated nodeAt (Session.sent h (setNodeAsSlave masterIP slaveIP clusterName) m s) =
      [nodeAt node.clientConnAddr] := by
  rw [setNodeAsSlave, Session.exec_bind, Session.exec_get] at hok
  rw [setNodeAsSlave, Session.sent_bind, Session.exec_get, Session.sent_get, List.nil_append]
  simp only [hnode] at hok ⊢
  obtain ⟨r, m₁, s₁, hrepl, hok⟩ := Session.exec_bind_ok hok
  rw [Session.sent_bind_of_ok hrepl, replicated_append]
  cases hrepl
  obtain ⟨_, m₁, s₁, hr, hok⟩ := Session.exec_bind_ok hok
  rw [Session.sent_bind_of_ok hr, Session.sent_orFail, List.nil_append]
  obtain ⟨rfl, rfl⟩ := Session.orFail_ok _ _ _ hr
  split at hok
  · cases hok
  · rw [replicated_updateAfterSetNodeRole]
    rfl

end Replicated

section Replicates

variable {ρ : Type} {env : OpsEnv ρ} {cs : List Container} {base : BaseNodeManager}
  {nodeAt : String → String}

/-- When `x` has returned, the nodes that it has told to replicate are `ids`. -/
def Replicates (env : OpsEnv ρ) (cs : List Container) (base : BaseNodeManager)
    (nodeAt : String → String) (ids : List String) (x : OpsM PUnit) : Prop :=
  ∀ m w m' w', m.nodeManager = base → w.podman.containers = cs →
    Session.exec env.handler x m w = ((.ok ⟨⟩, m'), w') →
    m'.nodeManager = base ∧ w'.podman.containers = cs ∧
    replicated nodeAt (redisSent (Session.sent env.handler x m w)) = ids

theorem replicates_setNodeAsSlave {masterIP slaveIP clusterName : String} {node : RuntimeNode}
    (hnode : base.getNodeByHost slaveIP = some node) :
    Replicates env cs base nodeAt [nodeAt node.clientConnAddr]
      (OpsM.manager (setNodeAsSlave masterIP slaveIP clusterName)) := by
  rintro m w m' w' rfl rfl hok
  obtain ⟨hbase, hpodman⟩ :=
    exec_manager_same (setNodeAsSlave_keepsNodes masterIP slaveIP clusterName) hok
  refine ⟨hbase, congrArg PodmanState.containers hpodman, ?_⟩
  rw [redisSent_manager]
  rw [OpsM.exec_manager] at hok
  generalize hr : Session.exec (env.redis w.podman.containers)
    (setNodeAsSlave masterIP slaveIP clusterName) m w.redis = r at hok
  obtain ⟨⟨e, m₁⟩, s₁⟩ := r
  cases hok
  exact replicated_setNodeAsSlave nodeAt hnode hr

theorem replicates_forM {α : Type} {f : α → OpsM PUnit} {ids : α → List String} {l : List α}
    (hf : ∀ a ∈ l, Replicates env cs base nodeAt (ids a) (f a)) :
    Replicates env cs base nodeAt (l.flatMap ids) (forM l f) := by
  induction l with
  | nil =>
    rintro m w m' w' hm hw hok
    cases hok
    exact ⟨hm, hw, rfl⟩
  | cons a l ih =>
    intro m w m' w' hm hw hok
    rw [List.forM_cons] at hok ⊢
    obtain ⟨_, m₁, w₁, hfirst, hrest⟩ := Session.exec_bind_ok hok
    obtain ⟨hm₁, hw₁, hids⟩ := hf a List.mem_cons_self m w m₁ w₁ hm hw hfirst
    obtain ⟨hm', hw', hids'⟩ := ih (fun b hb => hf b (List.mem_cons_of_mem _ hb)) m₁ w₁ m' w' hm₁
      hw₁ hrest
    refine ⟨hm', hw', ?_⟩
    rw [Session.sent_bind_of_ok hfirst, redisSent_append, replicated_append, hids, hids',
      List.flatMap_cons]

/-- **Every replica is told to replicate, once.** -/
theorem replicates_replicateAll {r : Scale.NewRoles} {order : List (String × List String)}
    {clusterName : String}
    (hknown : ∀ id ∈ order.flatMap Prod.snd, ∃ node,
      base.getNodeByHost ((r.idToIP.lookup id).getD "") = some node ∧
        nodeAt node.clientConnAddr = id) :
    Replicates env cs base nodeAt (order.flatMap Prod.snd)
      (Scale.replicateAll r order clusterName) := by
  refine replicates_forM fun x hx => ?_
  have hinner : Replicates env cs base nodeAt (x.2.flatMap fun id => [id])
      (forM x.2 fun slaveID => OpsM.manager (setNodeAsSlave ((r.idToIP.lookup x.1).getD "")
        ((r.idToIP.lookup slaveID).getD "") clusterName)) := by
    refine replicates_forM fun id hid => ?_
    obtain ⟨node, hnode, rfl⟩ := hknown id (List.mem_flatMap.mpr ⟨x, hx, hid⟩)
    exact replicates_setNodeAsSlave hnode
  rw [List.flatMap_singleton'] at hinner
  exact hinner

end Replicates

/-! ### The rows -/

/-- Not the row of a cluster. -/
def OpsCmd.NoRow (c : OpsCmd) : Prop := ∀ row, c ≠ .store (.upsertCluster row)

theorem upsertContainers_noRow (clusterName : String) :
    Session.Sends OpsCmd.NoRow (upsertContainers clusterName) :=
  Session.Sends.get.bind fun _ => Session.Sends.forM fun _ _ =>
    (Session.Sends.lift (Program.Sends.send nofun)).bind fun _ => Session.Sends.pure _

theorem finishPipeline_noRow (r : OperationRecord) (pipelineName : String)
    {q : Option (Persister OpsCmd OpsCmd.Reply)} (hq : q = none ∨ q = some storePersister) :
    Session.Sends OpsCmd.NoRow (finishPipeline r pipelineName q) := by
  refine (Session.Sends.lift (Program.Sends.send nofun)).bind fun _ => ?_
  rcases hq with rfl | rfl
  · exact Session.Sends.pure _
  · exact (Session.Sends.lift (Program.Sends.send nofun)).bind fun _ => Session.Sends.pure _

/-- The row has as many shards as masters are known. -/
theorem persistDb_upsertCluster {ρ : Type} {env : OpsEnv ρ} {cfg : RuntimeConfig}
    {additionalShards nodesPerShard : ℤ} {clusterName : String}
    {q : Option (Persister OpsCmd OpsCmd.Reply)} (hq : q = none ∨ q = some storePersister)
    {c : Manager} {w : World ρ} {x : OpsCmd × World ρ} {row : ClusterRecord}
    (hx : x ∈ Session.sent env.handler
      (Scale.persistDb cfg additionalShards nodesPerShard clusterName q).action c w)
    (hrow : x.1 = .store (.upsertCluster row)) : row.shards = c.topo.masterIDs.length := by
  simp only [Scale.persistDb] at hx
  split at hx
  · cases hx
  rw [Session.sent_bind, OpsM.exec_store, List.mem_append] at hx
  rcases hx with hx | hx
  · obtain rfl : x = _ := List.mem_singleton.mp hx
    cases hrow
  dsimp only at hx
  cases hr : (env.handler w (.store (.openStore cfg.dbPath))).1 with
  | error err =>
    rw [hr] at hx
    cases hx
  | ok u =>
    rw [hr, Session.sent_bind, Session.sent_orFail, Session.exec_orFail_ok] at hx
    dsimp only at hx
    rw [Session.sent_bind, Session.exec_get, Session.sent_get] at hx
    dsimp only at hx
    rw [Session.sent_bind, OpsM.exec_store, List.nil_append, List.nil_append] at hx
    rcases List.mem_append.mp hx with hx | hx
    · obtain rfl : x = _ := List.mem_singleton.mp hx
      cases hrow
      rfl
    · -- the rest writes other rows
      exact absurd hrow ((((upsertContainers_noRow clusterName).bind fun _ =>
        finishPipeline_noRow _ _ hq) c).trace x hx row)

namespace Scale

variable {ρ : Type}

/-! ### Gossip -/

/-- The masters that a reply shows. -/
def ShowsMasters (base : BaseNodeManager) (clusterName text : String) (ids : List String) : Prop :=
  (((shownNodes base clusterName text).filter (·.nodeType = .master)).map ClusterNode.id).Perm ids

instance (base : BaseNodeManager) (clusterName text : String) (ids : List String) :
    Decidable (ShowsMasters base clusterName text ids) :=
  inferInstanceAs (Decidable (List.Perm _ _))

theorem ShowsMasters.shownMasters_eq {base : BaseNodeManager} {clusterName text : String}
    {ids : List String} (h : ShowsMasters base clusterName text ids) :
    shownMasters base clusterName text = ids.length := by
  rw [shownMasters, ← h.length_eq, List.length_map]

section Run

variable (env : OpsEnv ρ) (additionalShards nodesPerShard : ℤ) (clusterName : String)

/-- What is sent to Redis when the roles are set. -/
def rolesSent (m : Manager) (w : World ρ) : List (RedisCmd × ρ) :=
  redisSent (Session.sent env.handler
    (setRoles additionalShards nodesPerShard clusterName).action m w)

/-- The masters before any node is a replica: those that were there, and all new nodes. -/
def firstMasters (base : BaseNodeManager) (oldMasters : List String) (nodeAt : String → String) :
    List String :=
  oldMasters ++ (newNodes additionalShards nodesPerShard base).map
    fun node => nodeAt node.clientConnAddr

/-- The roles are set for `additionalShards` new shards. The new nodes are known, and are
masters until they have become replicas. The login node learns of that late: each of its
replies reflects the first so many of the replicate commands, and no others. -/
structure RolesRun where
  (m m' : Manager)
  (w w' : World ρ)
  ok : Session.exec env.handler (setRoles additionalShards nodesPerShard clusterName).action m w =
    ((.ok ⟨⟩, m'), w')
  shards_pos : 0 < additionalShards
  tracked : m.nodeManager.num = m.nodeManager.nodes.length
  /-- The masters that were there. -/
  oldMasters : List String
  counted : m.topo.masterIDs.length = oldMasters.length
  /-- The node that listens at an address. -/
  nodeAt : String → String
  met : ∀ node ∈ newNodes additionalShards nodesPerShard m.nodeManager,
    m.topo.ipToID node.conIp = some (nodeAt node.clientConnAddr) ∧
      m.nodeManager.getNodeByHost node.conIp = some node
  distinct :
    (firstMasters additionalShards nodesPerShard m.nodeManager oldMasters nodeAt).Nodup
  gossip : ∀ before addr s after text,
    rolesSent env additionalShards nodesPerShard clusterName m w =
      before ++ (.clusterNodes addr, s) :: after →
    (env.redis w.podman.containers s (.clusterNodes addr)).1 = .ok text →
    ∃ n ≤ (replicated nodeAt before).length, ShowsMasters m.nodeManager clusterName text
      ((firstMasters additionalShards nodesPerShard m.nodeManager oldMasters nodeAt).filter
        fun id => id ∉ (replicated nodeAt before).take n)

end Run

/-- One attempt to move the slots, in whatever world. -/
def Attempt (env : OpsEnv ρ) (clusterName : String) (c c' : Manager) : Prop :=
  ∃ w r w', Session.exec env.handler (migrateSlots clusterName).action c w = ((r, c'), w')

/-- From `m` on the masters are taken to be `n`: each time the slots are planned, and when
the row of the cluster is written. -/
def CountsMasters (env : OpsEnv ρ) (additionalShards nodesPerShard : ℤ) (clusterName : String)
    (m : Manager) (n : ℤ) : Prop :=
  ∀ c, Relation.ReflTransGen (Attempt env clusterName) m c →
    (c.topo.masterIDs.length : ℤ) = n ∧
    ∀ cfg q, q = none ∨ q = some storePersister → ∀ w, ∀ x ∈ Session.sent env.handler
      (persistDb cfg additionalShards nodesPerShard clusterName q).action c w,
      ∀ row, x.1 = .store (.upsertCluster row) → row.shards = n

theorem attempt_masterIDs {env : OpsEnv ρ} {clusterName : String} {c c' : Manager}
    (h : Relation.ReflTransGen (Attempt env clusterName) c c') :
    c'.topo.masterIDs = c.topo.masterIDs := by
  induction h with
  | refl => rfl
  | tail _ hstep ih =>
    obtain ⟨w, r, w', hexec⟩ := hstep
    rw [migrateSlots, OpsM.exec_manager] at hexec
    have hkeeps := (migrateSlotsToEmptyNode_masterIDs clusterName _).exec
      (h := env.redis w.podman.containers) (s := w.redis) ih
    exact (congrArg (fun y => y.1.2.topo.masterIDs) hexec).symm.trans hkeeps

theorem countsMasters_iff_length {env : OpsEnv ρ} {additionalShards nodesPerShard : ℤ}
    {clusterName : String} {m : Manager} {n : ℤ} :
    CountsMasters env additionalShards nodesPerShard clusterName m n ↔
      (m.topo.masterIDs.length : ℤ) = n := by
  refine ⟨fun h => (h m .refl).1, fun h c hc => ?_⟩
  rw [← attempt_masterIDs hc] at h
  exact ⟨h, fun cfg q hq w x hx row hrow => (persistDb_upsertCluster hq hx hrow).trans h⟩

/-! ### What the last reply shows -/

theorem exists_of_lastShown {σ : Type} {h : Handler RedisCmd RedisCmd.Reply σ}
    {l : List (RedisCmd × σ)} {text : String} (hl : lastShown h l = some text) :
    ∃ before addr s after, l = before ++ (.clusterNodes addr, s) :: after ∧
      (h s (.clusterNodes addr)).1 = .ok text := by
  induction l with
  | nil => cases hl
  | cons x l ih =>
    rw [lastShown, Option.or_eq_some_iff] at hl
    rcases hl with hl | ⟨-, hx⟩
    · obtain ⟨before, addr, s, after, rfl, hreply⟩ := ih hl
      exact ⟨x :: before, addr, s, after, rfl, hreply⟩
    · obtain ⟨c, s⟩ := x
      cases c <;> try cases hx
      rename_i addr
      refine ⟨[], addr, s, l, rfl, ?_⟩
      rw [shownText] at hx
      cases hr : (h s (.clusterNodes addr)).1 with
      | error err =>
        rw [hr] at hx
        cases hx
      | ok text' =>
        rw [hr] at hx
        cases hx
        rfl

theorem length_filter_notMem {l q : List String} (hl : l.Nodup) (hq : q.Nodup)
    (hsub : ∀ id ∈ q, id ∈ l) : (l.filter fun id => id ∉ q).length + q.length = l.length := by
  have hin : (l.filter fun id => id ∈ q).Perm q :=
    (List.perm_ext_iff_of_nodup (hl.filter _) hq).mpr fun id => by
      rw [List.mem_filter, decide_eq_true_iff]
      exact ⟨fun h => h.2, fun h => ⟨hsub id h, h⟩⟩
  have hsplit := List.length_eq_length_filter_add (l := l) fun id => decide (id ∈ q)
  rw [hin.length_eq] at hsplit
  simp only [decide_not]
  omega

section Run

variable {env : OpsEnv ρ} {additionalShards nodesPerShard : ℤ} {clusterName : String}

namespace RolesRun

variable (run : RolesRun env additionalShards nodesPerShard clusterName)

/-- What has been sent to Redis. -/
def sent : List (RedisCmd × ρ) :=
  rolesSent env additionalShards nodesPerShard clusterName run.m run.w

/-- The nodes that have been told to replicate. -/
def replicas : List String := replicated run.nodeAt run.sent

/-- The masters before any node was a replica. -/
def masters : List String :=
  firstMasters additionalShards nodesPerShard run.m.nodeManager run.oldMasters run.nodeAt

/-- The last reply, if there was one, reflects every replicate command. -/
def CaughtUp : Prop :=
  ∀ text, lastShown (env.redis run.w.podman.containers) run.sent = some text →
    ShowsMasters run.m.nodeManager clusterName text (run.masters.filter fun id => id ∉ run.replicas)

/-- With fewer than one node to a shard there is no new node. -/
theorem newNodes_of_nonpos (hpos : nodesPerShard ≤ 0) :
    newNodes additionalShards nodesPerShard run.m.nodeManager = [] := by
  have hsum : additionalShards * nodesPerShard ≤ 0 :=
    mul_nonpos_of_nonneg_of_nonpos run.shards_pos.le hpos
  rw [newNodes, run.tracked]
  split
  · rfl
  · rw [Int.toNat_of_nonpos hsum, Nat.sub_zero, List.drop_length]

theorem length_newNodes (hpos : 0 < nodesPerShard) :
    ((newNodes additionalShards nodesPerShard run.m.nodeManager).length : ℤ) =
      additionalShards * nodesPerShard := by
  have hsum : 0 < additionalShards * nodesPerShard := mul_pos run.shards_pos hpos
  have hle := (setRoles_inv run.ok).1
  rw [newNodes, if_neg (not_lt.mpr hsum.le), List.length_drop, ← run.tracked]
  omega

/-- What the replicas and the masters are when the roles are set, apart from replies: each
of the new shards has its master and the other nodes are replicas. -/
structure Settled : Prop where
  nodup : run.replicas.Nodup
  subset : ∀ id ∈ run.replicas, id ∈ run.masters
  length : (run.masters.length : ℤ) = run.oldMasters.length + additionalShards + run.replicas.length
  unshown : lastShown (env.redis run.w.podman.containers) run.sent = none →
    (run.m'.topo.masterIDs.length : ℤ) = run.oldMasters.length + additionalShards
  shown : ∀ text, lastShown (env.redis run.w.podman.containers) run.sent = some text →
    run.m'.topo.masterIDs.length = shownMasters run.m.nodeManager clusterName text

/-- All shards are full, so there are as many as were asked for. -/
theorem shards_eq {r : NewRoles} {nodes : List (String × String)} (hpos : 0 < nodesPerShard)
    (hr : Dealt nodesPerShard nodes r) (hk : 0 < additionalShards)
    (hlen : (nodes.length : ℤ) = additionalShards * nodesPerShard) :
    (r.masterToSlave.length : ℤ) = additionalShards := by
  have hsum : 0 < additionalShards * nodesPerShard := mul_pos hk hpos
  have hne : nodes ≠ [] := by
    rintro rfl
    rw [List.length_nil] at hlen
    omega
  obtain ⟨hone, hle, hgroups, -⟩ := hr.groups hne
  rw [hlen] at hgroups
  rcases lt_trichotomy (r.masterToSlave.length : ℤ) additionalShards with hlt | heq | hgt
  · have hmul := mul_le_mul_of_nonneg_right (Int.add_one_le_of_lt hlt) hpos.le
    rw [add_mul, one_mul] at hmul
    omega
  · exact heq
  · have hmul := mul_le_mul_of_nonneg_right (Int.add_one_le_of_lt hgt) hpos.le
    rw [add_mul, one_mul] at hmul
    omega

theorem settled (hpos : 0 < nodesPerShard) : run.Settled := by
  obtain ⟨hle, r, m₂, w₂, hassign, hloop, hsent⟩ := setRoles_inv run.ok
  obtain ⟨hbase, hpodman⟩ := exec_manager_same (assignNewRoles_keepsNodes nodesPerShard _ _) hassign
  have hcontainers := congrArg PodmanState.containers hpodman
  have hnum : run.m.nodeManager.num ≠ 0 := by
    have hsum : 0 < additionalShards * nodesPerShard := mul_pos run.shards_pos hpos
    omega
  -- the roles that are dealt out
  let idOf : RuntimeNode → String := fun node => run.nodeAt node.clientConnAddr
  have hnew : ((newNodes additionalShards nodesPerShard run.m.nodeManager).map idOf).Nodup :=
    run.distinct.of_append_right
  obtain ⟨r', c', hexec, hdealt, hcount⟩ := exec_assignNewRoles
    (env.redis run.w.podman.containers) run.w.redis hpos idOf
    (c := { run.m with topo := run.m.topo.resetEmptyMasters }) (n := run.oldMasters.length)
    (fun node hnode => (run.met node hnode).1) dealt_nil (by simpa using hnew) run.counted
  rw [OpsM.exec_manager, hexec] at hassign
  cases hassign
  rw [List.nil_append] at hdealt
  have hshards := shards_eq hpos hdealt run.shards_pos
    (by rw [List.length_map]; exact run.length_newNodes hpos)
  -- the order in which they are set
  generalize horder : env.mapOrder _ r.masterToSlave = order at hloop hsent
  have hperm : order.Perm r.masterToSlave := horder ▸ env.mapOrder_perm _ _
  have hnamed : (named order).Perm
      ((newNodes additionalShards nodesPerShard run.m.nodeManager).map idOf) := by
    refine (hperm.flatMap_right _).trans (hdealt.named.trans ?_)
    rw [List.map_map]
    exact List.Perm.refl _
  have hmem : ∀ id ∈ order.flatMap Prod.snd,
      id ∈ (newNodes additionalShards nodesPerShard run.m.nodeManager).map idOf := fun id hid =>
    hnamed.subset ((snd_sublist_named order).subset hid)
  have hreplicas : run.replicas = order.flatMap Prod.snd := by
    rw [replicas, sent, rolesSent, hsent]
    refine (replicates_replicateAll
      (fun id hid => ?_) m₂ _ run.m' run.w' hbase hcontainers hloop).2.2
    obtain ⟨node, hnode, rfl⟩ := List.mem_map.mp (hmem id hid)
    rw [hdealt.addresses (idOf node, node.conIp) (List.mem_map.mpr ⟨node, hnode, rfl⟩)]
    exact ⟨node, (run.met node hnode).2, rfl⟩
  obtain ⟨-, -, hshown⟩ := asShown_replicateAll hnum r order m₂ _ run.m' run.w' hbase hcontainers
    hloop
  rw [← hsent] at hshown
  refine ⟨?_, ?_, ?_, fun hlast => ?_, fun text hlast => ?_⟩
  · rw [hreplicas]
    exact (snd_sublist_named order).nodup (hnamed.nodup_iff.mpr hnew)
  · rw [hreplicas]
    exact fun id hid => List.mem_append_right _ (hmem id hid)
  · have hlen := hnamed.length_eq
    rw [length_named, hperm.length_eq] at hlen
    rw [masters, firstMasters, List.length_append, ← hlen, hreplicas]
    omega
  · rw [sent, rolesSent] at hlast
    rw [hlast] at hshown
    rw [hshown, hcount]
    omega
  · rw [sent, rolesSent] at hlast
    rw [hlast] at hshown
    exact hshown

/-- Without new nodes no master is counted. -/
theorem masterIDs_of_nonpos (hpos : nodesPerShard ≤ 0) :
    run.m'.topo.masterIDs.length = run.oldMasters.length := by
  obtain ⟨-, r, m₂, w₂, hassign, hloop, -⟩ := setRoles_inv run.ok
  rw [run.newNodes_of_nonpos hpos] at hassign
  cases hassign
  rw [List.perm_nil.mp (env.mapOrder_perm _ [])] at hloop
  have hm : _ = run.m' := congrArg (fun y => y.1.2) hloop
  rw [← hm]
  exact run.counted

/-- How many masters a reply shows that knows the replicas `ids`. -/
theorem shownMasters_add (hset : run.Settled) {text : String} {ids : List String}
    (hids : ids.Sublist run.replicas)
    (hshows : ShowsMasters run.m.nodeManager clusterName text
      (run.masters.filter fun id => id ∉ ids)) :
    shownMasters run.m.nodeManager clusterName text + ids.length = run.masters.length := by
  have hlen := length_filter_notMem run.distinct (hset.nodup.sublist hids)
    fun id hid => hset.subset id (hids.subset hid)
  rw [hshows.shownMasters_eq]
  exact hlen

/-- **The last reply decides.** It shows the new masters and those new nodes that it does
not know to be replicas. -/
theorem exists_shown (hpos : 0 < nodesPerShard) {text : String}
    (hlast : lastShown (env.redis run.w.podman.containers) run.sent = some text) :
    ∃ n ≤ run.replicas.length,
      ShowsMasters run.m.nodeManager clusterName text
        (run.masters.filter fun id => id ∉ run.replicas.take n) ∧
      (run.m'.topo.masterIDs.length : ℤ) =
        run.oldMasters.length + additionalShards + (run.replicas.length - n) := by
  have hset := run.settled hpos
  obtain ⟨before, addr, s, after, hsent, hreply⟩ := exists_of_lastShown hlast
  obtain ⟨n, hn, hshows⟩ := run.gossip before addr s after text hsent hreply
  -- the reply reflects a beginning of all replicate commands
  have hreplicas : run.replicas = replicated run.nodeAt before ++
      replicated run.nodeAt ((.clusterNodes addr, s) :: after) := by
    rw [replicas, hsent, replicated_append]
  have htake : (replicated run.nodeAt before).take n = run.replicas.take n := by
    rw [hreplicas, List.take_append_of_le_length hn]
  rw [htake] at hshows
  have hle : n ≤ run.replicas.length := by
    rw [hreplicas, List.length_append]
    omega
  refine ⟨n, hle, hshows, ?_⟩
  have hmasters := hset.shown text hlast
  have hlen := run.shownMasters_add hset (List.take_sublist n _) hshows
  rw [List.length_take, Nat.min_eq_left hle] at hlen
  have hall := hset.length
  omega

end RolesRun

/-- **A scale-out uses the true number of masters if and only if gossip is not late.** -/
theorem countsMasters_iff (run : RolesRun env additionalShards nodesPerShard clusterName) :
    CountsMasters env additionalShards nodesPerShard clusterName run.m'
        (run.oldMasters.length + additionalShards) ↔
      0 < nodesPerShard ∧ run.CaughtUp := by
  rw [countsMasters_iff_length]
  by_cases hpos : 0 < nodesPerShard
  · rw [and_iff_right hpos]
    refine ⟨fun hlen text hlast => ?_, fun hcaught => ?_⟩
    · obtain ⟨n, hn, hshows, hcount⟩ := run.exists_shown hpos hlast
      have hall : run.replicas.take n = run.replicas := List.take_of_length_le (by omega)
      rw [hall] at hshows
      exact hshows
    · cases hlast : lastShown (env.redis run.w.podman.containers) run.sent with
      | none => exact (run.settled hpos).unshown hlast
      | some text =>
        have hset := run.settled hpos
        have hmasters := hset.shown text hlast
        have hlen := run.shownMasters_add hset (List.Sublist.refl _) (hcaught text hlast)
        have hall := hset.length
        omega
  · refine iff_of_false (fun hlen => ?_) fun h => hpos h.1
    have hcount := run.masterIDs_of_nonpos (not_lt.mp hpos)
    have hk := run.shards_pos
    omega

end Run

/-! ### One new shard of two nodes -/

def shardContainer (name ip : String) (hostPort : UInt16) : RuntimeNode where
  name := name
  id := name
  hostIP := "127.0.0.1"
  hostPort := hostPort
  conIp := ip
  conPort := 6379
  clusterName := "s"

def shardNode (id ip : String) : ClusterNode where
  id := id
  ip := ip
  port := 6379
  nodeType := .master
  masterID := "-"
  linkState := "connected"
  clusterName := "s"

/-- A manager of a cluster of one master, which has met two new nodes. -/
def metManager : Manager where
  topo := { (((({} : Topology).addMetNode (shardNode "a" "10.0.0.2")).addMetNode
    (shardNode "b" "10.0.0.3")).addMetNode (shardNode "c" "10.0.0.4")) with masterIDs := ["a"] }
  nodeManager := ((({} : BaseNodeManager).addNode
    (shardContainer "s-redis-1" "10.0.0.2" 40001)).addNode
    (shardContainer "s-redis-2" "10.0.0.3" 40002)).addNode
    (shardContainer "s-redis-3" "10.0.0.4" 40003)
  nodesPerShard := 2

def shardAt (addr : String) : String :=
  if addr = "127.0.0.1:40001" then "a" else if addr = "127.0.0.1:40002" then "b" else "c"

/-- Redis shows `text`. -/
def showingEnv (text : String) : OpsEnv Unit where
  podman :=
    { regex := dotMatch
      create := fun _ spec => { name := spec.name, id := spec.name, ip := "" } }
  redis _ := frozenRedis text

def quietWorld : World Unit where
  podman := { containers := [] }
  redis := ()

/-- The new replica is not yet known to be one. -/
def lateText : String :=
  "a 10.0.0.2:6379 master - 0 0 1 connected\nb 10.0.0.3:6379 master - 0 0 2 connected\n" ++
    "c 10.0.0.4:6379 master - 0 0 3 connected"

def promptText : String :=
  "a 10.0.0.2:6379 master - 0 0 1 connected\nb 10.0.0.3:6379 master - 0 0 2 connected\n" ++
    "c 10.0.0.4:6379 slave b 0 0 3 connected"

/-- The roles of the two new nodes are set. -/
def rolesSet (text : String) : (Except Failure PUnit × Manager) × World Unit :=
  Session.exec (showingEnv text).handler (setRoles 1 2 "s").action metManager quietWorld

theorem rolesSet_eq {text : String} (hok : (rolesSet text).1.1 = .ok ⟨⟩) :
    rolesSet text = ((.ok ⟨⟩, (rolesSet text).1.2), (rolesSet text).2) := by
  rw [← hok]

/-- The masters when the first `n` replicate commands are known. -/
def mastersAfter (n : ℕ) : List String := ["a", "b", "c"].filter fun id => id ∉ ["c"].take n

/-- The third node is told to replicate, and the first node then knows of the first `n`
replicate commands. -/
def Plays (text : String) (n : ℕ) : Prop :=
  (rolesSet text).1.1 = .ok ⟨⟩ ∧
  rolesSent (showingEnv text) 1 2 "s" metManager quietWorld =
    [(.clusterReplicate "127.0.0.1:40003" "b", ()), (.clusterNodes "127.0.0.1:40001", ())] ∧
  ShowsMasters metManager.nodeManager "s" text (mastersAfter n)

instance (text : String) (n : ℕ) : Decidable (Plays text n) :=
  inferInstanceAs (Decidable (_ ∧ _ ∧ _))

theorem plays_late : Plays lateText 0 := by decide +kernel

theorem plays_prompt : Plays promptText 1 := by decide +kernel

theorem firstMasters_shard :
    firstMasters 1 2 metManager.nodeManager ["a"] shardAt = ["a", "b", "c"] := by
  decide +kernel

theorem replicated_shard (l : List (RedisCmd × Unit)) :
    replicated shardAt ((.clusterReplicate "127.0.0.1:40003" "b", ()) :: l) =
      "c" :: replicated shardAt l := rfl

/-- A reply after the replicate command that shows it, or does not. -/
def shardRun (text : String) {n : ℕ} (hn : n ≤ 1) (hplays : Plays text n) :
    RolesRun (showingEnv text) 1 2 "s" where
  m := metManager
  m' := (rolesSet text).1.2
  w := quietWorld
  w' := (rolesSet text).2
  ok := rolesSet_eq hplays.1
  shards_pos := by decide
  tracked := rfl
  oldMasters := ["a"]
  counted := rfl
  nodeAt := shardAt
  met := by decide +kernel
  distinct := by
    rw [firstMasters_shard]
    decide
  gossip := by
    intro before addr s after reply hl hreply
    obtain rfl : text = reply := Except.ok.inj hreply
    rw [hplays.2.1] at hl
    obtain ⟨x, before, rfl⟩ : ∃ x rest, before = x :: rest := by
      cases before with
      | nil => cases hl
      | cons x before => exact ⟨x, before, rfl⟩
    obtain ⟨rfl, -⟩ := List.cons.inj hl
    rw [replicated_shard, firstMasters_shard]
    refine ⟨n, hn.trans (Nat.succ_le_succ (Nat.zero_le _)), ?_⟩
    have htake : ("c" :: replicated shardAt before).take n = ["c"].take n := by
      rcases Nat.le_one_iff_eq_zero_or_eq_one.mp hn with rfl | rfl <;> rfl
    rw [htake]
    exact hplays.2.2

section Shard

variable {text : String} {n : ℕ} (hn : n ≤ 1) (hplays : Plays text n)

theorem lastShown_shardRun :
    lastShown ((showingEnv text).redis (shardRun text hn hplays).w.podman.containers)
      (shardRun text hn hplays).sent = some text := by
  rw [RolesRun.sent]
  exact (congrArg (lastShown _) hplays.2.1).trans rfl

theorem masterIDs_shardRun : (shardRun text hn hplays).m'.topo.masterIDs.length =
    shownMasters metManager.nodeManager "s" text :=
  ((shardRun text hn hplays).settled (by decide)).shown text (lastShown_shardRun hn hplays)

theorem replicas_shardRun : (shardRun text hn hplays).replicas = ["c"] := by
  rw [RolesRun.replicas, RolesRun.sent]
  exact (congrArg (replicated shardAt) hplays.2.1).trans rfl

theorem masters_shardRun : (shardRun text hn hplays).masters = ["a", "b", "c"] := firstMasters_shard

end Shard

theorem caughtUp_shardRun {text : String} (hplays : Plays text 1) :
    (shardRun text (le_refl 1) hplays).CaughtUp := by
  intro reply hlast
  rw [lastShown_shardRun (le_refl 1) hplays] at hlast
  obtain rfl : text = reply := Option.some.inj hlast
  rw [replicas_shardRun (le_refl 1) hplays, masters_shardRun (le_refl 1) hplays]
  exact hplays.2.2

theorem not_countsMasters_shardRun {text : String} (hplays : Plays text 0) :
    ¬ CountsMasters (showingEnv text) 1 2 "s" (shardRun text (Nat.zero_le 1) hplays).m'
      ((shardRun text (Nat.zero_le 1) hplays).oldMasters.length + 1) := by
  have hold : (shardRun text (Nat.zero_le 1) hplays).oldMasters = ["a"] := rfl
  rw [countsMasters_iff_length, masterIDs_shardRun, hplays.2.2.shownMasters_eq, hold]
  decide

/-- The first node shows three masters, and three are counted, where there are two. -/
theorem not_countsMasters_of_late :
    ¬ CountsMasters (showingEnv lateText) 1 2 "s"
      (shardRun lateText (Nat.zero_le 1) plays_late).m'
      ((shardRun lateText (Nat.zero_le 1) plays_late).oldMasters.length + 1) :=
  not_countsMasters_shardRun plays_late

/-- The first node has heard of the replica, and two masters are counted. -/
theorem countsMasters_of_prompt :
    CountsMasters (showingEnv promptText) 1 2 "s"
      (shardRun promptText (le_refl 1) plays_prompt).m'
      ((shardRun promptText (le_refl 1) plays_prompt).oldMasters.length + 1) :=
  (countsMasters_iff (shardRun promptText (le_refl 1) plays_prompt)).mpr
    ⟨by decide, caughtUp_shardRun plays_prompt⟩

end Scale

end ClusterManager
