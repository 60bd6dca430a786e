import ClusterManager.Model.Nodes
import ClusterManager.Ops.Frames

/-!
# What the steps do

What each step of the three operations has done when it succeeds, on a store that executes
every statement: the `validate` steps find the running containers, `create-containers`
adds to them, the `persist-db` steps write the rows, and all others leave the tracked
nodes, the containers and the rows as they are (`Unchanged`).
-/

namespace ClusterManager

variable {ρ : Type} {env : OpsEnv ρ} {m m' : Manager} {w w' : World ρ}

/-! ### The rows -/

/-- The tracked nodes of a cluster, as rows. -/
def containerRecords (c : Manager) (clusterName : String) : List ContainerRecord :=
  (c.nodeManager.nodes.filter (·.clusterName = clusterName)).map (containerRecord clusterName)

theorem containerRecords_clusterName {c : Manager} {clusterName : String} :
    ∀ r ∈ containerRecords c clusterName, r.clusterName = clusterName := by
  intro r hr
  obtain ⟨node, -, rfl⟩ := List.mem_map.mp hr
  rfl

theorem containerRecords_name (c : Manager) (clusterName : String) :
    (containerRecords c clusterName).map ContainerRecord.name =
      (c.nodeManager.nodes.filter (·.clusterName = clusterName)).map RuntimeNode.name := by
  rw [containerRecords, List.map_map]
  rfl

section Rows

variable (hstore : ∀ n c, env.storeError n c = none)

include hstore

theorem handler_store_ok (w : World ρ) (c : StoreCmd) :
    env.handler w (.store c) =
      (w.store.reply c, { w with store := w.store.effect c, clock := w.clock + 1 }) := by
  simp only [OpsEnv.handler, hstore]

theorem exec_upsertContainers (m : Manager) (w : World ρ) (clusterName : String) :
    ∃ n, Session.exec env.handler (upsertContainers clusterName) m w =
      ((.ok ⟨⟩, m), { w with
        store := (containerRecords m clusterName).foldl Store.upsertContainer w.store
        clock := n }) := by
  have key : ∀ (nodes : List RuntimeNode) (w : World ρ), ∃ n, Session.exec env.handler
      (forM nodes fun node => do
        let _ ← OpsM.store (.upsertContainer (containerRecord clusterName node))
        return ⟨⟩) m w = ((.ok ⟨⟩, m), { w with
          store := (nodes.map (containerRecord clusterName)).foldl Store.upsertContainer w.store
          clock := n }) := by
    intro nodes
    induction nodes with
    | nil => exact fun w => ⟨w.clock, rfl⟩
    | cons node nodes ih =>
      intro w
      obtain ⟨n, hn⟩ := ih { w with
        store := w.store.upsertContainer (containerRecord clusterName node)
        clock := w.clock + 1 }
      refine ⟨n, ?_⟩
      rw [List.forM_cons, Session.exec_bind, Session.exec_bind, OpsM.exec_store,
        handler_store_ok hstore]
      exact hn
  rw [upsertContainers, Session.exec_bind, Session.exec_get]
  exact key _ w

theorem exec_finishPipeline (m : Manager) (w : World ρ) (r : OperationRecord) (name : String) :
    Session.exec env.handler (finishPipeline r name (some storePersister)) m w =
      ((.ok ⟨⟩, m), { w with
        store := (w.store.logOperation r).deletePipeline name
        clock := w.clock + 1 + 1 }) := by
  rw [finishPipeline, Session.exec_bind, OpsM.exec_store, handler_store_ok hstore]
  simp only
  rw [Session.exec_bind, Session.exec_lift]
  have hdelete : ∀ w : World ρ, (storePersister.deletePipeline name).run env.handler w =
      env.handler w (.store (.deletePipeline name)) := fun _ => rfl
  rw [hdelete, handler_store_ok hstore]
  rfl

theorem exec_deleteClusterRows (m : Manager) (w : World ρ) (clusterName : String) :
    Session.exec env.handler (deleteClusterRows clusterName) m w =
      ((.ok ⟨⟩, m), { w with
        store := (w.store.deleteContainers clusterName).deleteClusterRow clusterName
        clock := w.clock + 1 + 1 }) := by
  rw [deleteClusterRows, Session.exec_bind, OpsM.exec_store, handler_store_ok hstore]
  simp only [Store.reply]
  rw [Session.exec_bind, OpsM.exec_store, handler_store_ok hstore]
  rfl

/-- What `create` writes. -/
theorem Create.exec_persistDb {cfg : RuntimeConfig} (hdb : cfg.dbPath ≠ "")
    (shardCount nodesPerShard : ℤ) (clusterName : String) (m : Manager) (w : World ρ) :
    ∃ r n, Session.exec env.handler
        (Create.persistDb cfg shardCount nodesPerShard clusterName (some storePersister)).action
        m w = ((.ok ⟨⟩, m), { w with
          store := ((w.store.recordCluster
            (clusterRecord cfg clusterName shardCount nodesPerShard)
            (containerRecords m clusterName)).logOperation r).deletePipeline
              (Create.pipelineName clusterName)
          clock := n }) := by
  obtain ⟨n, hn⟩ := exec_upsertContainers hstore m { w with
    store := w.store.upsertCluster (clusterRecord cfg clusterName shardCount nodesPerShard)
    clock := w.clock + 1 + 1 } clusterName
  refine ⟨{ clusterName := clusterName, operation := "create"
            detail := s!"shards={shardCount} nodes_per_shard={nodesPerShard}", success := true },
    n + 1 + 1, ?_⟩
  simp only [Create.persistDb, if_neg hdb]
  rw [Session.exec_bind, OpsM.exec_store, handler_store_ok hstore]
  simp only [Store.reply, Session.exec_bind, Session.exec_orFail_ok]
  rw [OpsM.exec_store, handler_store_ok hstore]
  simp only [Store.effect]
  rw [hn]
  exact exec_finishPipeline hstore _ _ _ _

/-- What `scale` writes. -/
theorem Scale.exec_persistDb {cfg : RuntimeConfig} (hdb : cfg.dbPath ≠ "")
    (additionalShards nodesPerShard : ℤ) (clusterName : String) (m : Manager) (w : World ρ) :
    ∃ r n, Session.exec env.handler
        (Scale.persistDb cfg additionalShards nodesPerShard clusterName
          (some storePersister)).action m w = ((.ok ⟨⟩, m), { w with
          store := ((w.store.recordCluster
            (clusterRecord cfg clusterName m.topo.masterIDs.length nodesPerShard)
            (containerRecords m clusterName)).logOperation r).deletePipeline
              (Scale.pipelineName clusterName)
          clock := n }) := by
  obtain ⟨n, hn⟩ := exec_upsertContainers hstore m { w with
    store := w.store.upsertCluster
      (clusterRecord cfg clusterName m.topo.masterIDs.length nodesPerShard)
    clock := w.clock + 1 + 1 } clusterName
  refine ⟨{ clusterName := clusterName, operation := "scale"
            detail := s!"added {additionalShards} shards total={m.topo.masterIDs.length}"
            success := true }, n + 1 + 1, ?_⟩
  simp only [Scale.persistDb, if_neg hdb]
  rw [Session.exec_bind, OpsM.exec_store, handler_store_ok hstore]
  simp only [Store.reply, Session.exec_bind, Session.exec_orFail_ok, Session.exec_get]
  rw [OpsM.exec_store, handler_store_ok hstore]
  simp only [Store.effect]
  rw [hn]
  exact exec_finishPipeline hstore _ _ _ _

/-- What `delete` deletes. -/
theorem Delete.exec_persistDb {cfg : RuntimeConfig} (hdb : cfg.dbPath ≠ "")
    (clusterName : String) (m : Manager) (w : World ρ) :
    ∃ r n, Session.exec env.handler
        (Delete.persistDb cfg clusterName (some storePersister)).action m w =
        ((.ok ⟨⟩, m), { w with
          store := ((((w.store.deleteContainers clusterName).deleteClusterRow
            clusterName).logOperation r).deletePipeline (Delete.pipelineName clusterName))
          clock := n }) := by
  refine ⟨{ clusterName := clusterName, operation := "delete", detail := "removed all containers"
            success := true }, w.clock + 1 + 1 + 1 + 1 + 1, ?_⟩
  simp only [Delete.persistDb, if_neg hdb]
  rw [Session.exec_bind, OpsM.exec_store, handler_store_ok hstore]
  simp only [Store.reply, Session.exec_bind, Session.exec_orFail_ok]
  rw [exec_deleteClusterRows hstore]
  exact exec_finishPipeline hstore _ _ _ _

theorem exec_openPersister_ok {cfg : RuntimeConfig} (hdb : cfg.dbPath ≠ "") (m : Manager)
    (w : World ρ) :
    Session.exec env.handler (openPersister cfg) m w =
      ((.ok (some storePersister), m), { w with clock := w.clock + 1 }) := by
  rw [openPersister, if_neg hdb, Session.exec_bind, OpsM.exec_store, handler_store_ok hstore]
  rfl

/-- A pipeline is made with the records there are. -/
theorem exec_makePipeline_ok {cfg : RuntimeConfig} (hdb : cfg.dbPath ≠ "") (m : Manager)
    (w : World ρ) (name : String)
    (steps : Option (Persister OpsCmd OpsCmd.Reply) → List (Step OpsCmd OpsCmd.Reply Manager))
    (hretry : ∀ persister, ∀ step ∈ steps persister, 0 ≤ step.retry) :
    Session.exec env.handler (makePipeline cfg name steps) m w =
      ((.ok { name := name, steps := steps (some storePersister), persist := some storePersister,
              completed := fun s => s ∈ w.store.loadPipelineSteps name }, m),
        { w with clock := w.clock + 1 + 1 }) := by
  have hload : ∀ w : World ρ, (storePersister.loadPipelineSteps name).run env.handler w =
      env.handler w (.store (.loadPipelineSteps name)) := fun _ => rfl
  rw [makePipeline, Session.exec_bind_of_ok (exec_openPersister_ok hstore hdb m w)]
  simp only [Session.exec_bind, Session.exec_lift, Pipeline.new, Program.run_bind, hload,
    handler_store_ok hstore, Store.reply, Store.effect, Program.run_pure,
    foldl_add_eq (hretry (some storePersister)), List.nil_append]
  rfl

end Rows

/-! ### The containers -/

section Containers

variable {cfg : RuntimeConfig} {clusterName : String}

/-- Listing reads the containers and changes the tracked nodes only. -/
theorem listPods_ok {r : Except String Unit}
    (h : Session.exec env.handler (listPods cfg clusterName) m w = ((.ok r, m'), w')) :
    m' = { m with nodeManager := m'.nodeManager } ∧ TracksOnly clusterName m'.nodeManager ∧
      w' = { w with podman := w'.podman } ∧ w'.podman.containers = w.podman.containers := by
  rw [exec_listPods] at h
  cases h
  exact ⟨rfl, listPodsByCluster_tracksOnly.run, rfl,
    containers_run_of_reads listPodsByCluster_reads⟩

theorem createPodsForCluster_ok {sum : ℤ}
    (h : Session.exec env.handler (createPodsForCluster cfg clusterName sum) m w =
      ((.ok ⟨⟩, m'), w')) :
    m' = { m with nodeManager := m'.nodeManager } ∧ w' = { w with podman := w'.podman } ∧
      Created clusterName (m.nodeManager.num + 1) sum.toNat m.nodeManager m'.nodeManager
        w.podman w'.podman := by
  obtain ⟨hm', hw', hrun⟩ := createPods_of_ok h
  exact ⟨hm', hw', createPods_ok hrun⟩

/-- A cluster that can be created has no running container. -/
theorem Create.validate_ok {shardCount nodesPerShard : ℤ}
    (h : Session.exec env.handler
      (Create.validate cfg shardCount nodesPerShard clusterName).action m w =
        ((.ok ⟨⟩, m'), w')) :
    0 < shardCount ∧ 2 ≤ nodesPerShard ∧ m'.nodeManager.nodes = [] ∧ m'.nodeManager.num = 0 ∧
      m'.nodesPerShard = m.nodesPerShard ∧ w' = { w with podman := w'.podman } ∧
      w'.podman.containers = w.podman.containers := by
  simp only [Create.validate, Session.fail_bind] at h
  split at h
  · cases h
  split at h
  · cases h
  split at h
  · cases h
  rename_i hshards hnodes _
  obtain ⟨r, m₁, w₁, hlist, h₁⟩ := Session.exec_bind_ok h
  obtain ⟨hm₁, htracks, hw₁, hcontainers⟩ := listPods_ok hlist
  obtain ⟨_, m₂, w₂, hfail, h₂⟩ := Session.exec_bind_ok h₁
  obtain ⟨rfl, rfl⟩ := Session.orFail_ok _ _ _ hfail
  rw [Session.exec_bind, Session.exec_get] at h₂
  dsimp only at h₂
  split at h₂
  · cases h₂
  rename_i hnone
  cases h₂
  have hnil : m'.nodeManager.nodes = [] := by
    refine List.eq_nil_iff_forall_not_mem.mpr fun node hnode => hnone ?_
    exact List.any_eq_true.mpr ⟨node, hnode, by simpa using htracks.clusterName node hnode⟩
  refine ⟨by omega, by omega, hnil, ?_, by rw [hm₁], hw₁, hcontainers⟩
  rw [htracks.num, hnil]
  rfl

/-- A cluster that can be scaled has a running container. -/
theorem Scale.validate_ok {additionalShards : ℤ}
    (h : Session.exec env.handler (Scale.validate cfg additionalShards clusterName).action m w =
      ((.ok ⟨⟩, m'), w')) :
    0 < additionalShards ∧ TracksOnly clusterName m'.nodeManager ∧ m'.nodeManager.num ≠ 0 ∧
      m' = { m with nodeManager := m'.nodeManager } ∧ w' = { w with podman := w'.podman } ∧
      w'.podman.containers = w.podman.containers := by
  simp only [Scale.validate, Session.fail_bind] at h
  split at h
  · cases h
  rename_i hshards
  obtain ⟨r, m₁, w₁, hlist, h₁⟩ := Session.exec_bind_ok h
  obtain ⟨hm₁, htracks, hw₁, hcontainers⟩ := listPods_ok hlist
  obtain ⟨_, m₂, w₂, hfail, h₂⟩ := Session.exec_bind_ok h₁
  obtain ⟨rfl, rfl⟩ := Session.orFail_ok _ _ _ hfail
  rw [Session.exec_bind, Session.exec_get] at h₂
  dsimp only at h₂
  split at h₂
  · cases h₂
  rename_i hnum
  cases h₂
  exact ⟨by omega, htracks, hnum, hm₁, hw₁, hcontainers⟩

end Containers

/-! ### What the other steps leave alone -/

/-- The rows of clusters and containers are what they were. -/
structure SameRows (w w' : World ρ) : Prop where
  clusters : w'.store.clusters = w.store.clusters
  containers : w'.store.containers = w.store.containers

theorem SameRows.trans {w₁ w₂ w₃ : World ρ} (h : SameRows w₁ w₂) (h' : SameRows w₂ w₃) :
    SameRows w₁ w₃ := ⟨h'.clusters.trans h.clusters, h'.containers.trans h.containers⟩

theorem SameRows.getCluster (h : SameRows w w') (name : String) :
    w'.store.getCluster name = w.store.getCluster name := by
  rw [Store.getCluster, h.clusters, Store.getCluster]

theorem SameRows.listContainersByCluster (h : SameRows w w') (name : String) :
    w'.store.listContainersByCluster name = w.store.listContainersByCluster name := by
  rw [Store.listContainersByCluster, h.containers, Store.listContainersByCluster]

instance : Trans (SameRows (ρ := ρ)) (SameRows (ρ := ρ)) (SameRows (ρ := ρ)) := ⟨SameRows.trans⟩

theorem SameRows.of_store_eq (h : w'.store = w.store) : SameRows w w' := ⟨by rw [h], by rw [h]⟩

theorem SameRows.of_podman {s : PodmanState} (h : w' = { w with podman := s }) :
    SameRows w w' := by
  rw [h]
  exact ⟨rfl, rfl⟩

/-- The tracked nodes, the containers and the rows are what they were. -/
structure Unchanged (m₀ : Manager) (w₀ : World ρ) (m : Manager) (w : World ρ) : Prop where
  nodeManager : m.nodeManager = m₀.nodeManager
  containers : w.podman.containers = w₀.podman.containers
  rows : SameRows w₀ w

theorem Unchanged.refl (m : Manager) (w : World ρ) : Unchanged m w m w := ⟨rfl, rfl, rfl, rfl⟩

section Others

variable {m₀ : Manager} {w₀ : World ρ} {step : Step OpsCmd OpsCmd.Reply Manager}

theorem unchanged_of_toRedis (hsends : Session.Sends OpsCmd.ToRedis step.action)
    (hkeeps : ∀ base, Session.Keeps (fun c : Manager => c.nodeManager = base) step.action) :
    step.Keeps env.handler (Unchanged (ρ := ρ) m₀ w₀) := by
  intro m w h
  have hw : (Session.exec env.handler step.action m w).2 = _ := exec_of_toRedis hsends
  refine ⟨(hkeeps _).exec h.nodeManager, ?_, h.rows.trans (SameRows.of_store_eq ?_)⟩
  · rw [hw]
    exact h.containers
  · rw [hw]

theorem unchanged_of_toFile (hsends : Session.Sends OpsCmd.ToFile step.action)
    (hkeeps : ∀ base, Session.Keeps (fun c : Manager => c.nodeManager = base) step.action) :
    step.Keeps env.handler (Unchanged (ρ := ρ) m₀ w₀) := by
  intro m w h
  have hw : (Session.exec env.handler step.action m w).2 = _ := exec_of_toFile hsends
  refine ⟨(hkeeps _).exec h.nodeManager, ?_, h.rows.trans (SameRows.of_store_eq ?_)⟩
  · rw [hw]
    exact h.containers
  · rw [hw]

theorem manager_keepsNodes {x : ManagerM PUnit} (hx : KeepsNodes x) (base : BaseNodeManager) :
    Session.Keeps (fun c : Manager => c.nodeManager = base) (OpsM.manager x) :=
  (hx base).embed

/-- An operation of the cluster manager leaves podman and the tracked nodes alone. -/
theorem exec_manager_same {α : Type} {x : ManagerM α} (hx : KeepsNodes x) {r : Except Failure α}
    (h : Session.exec env.handler (OpsM.manager x) m w = ((r, m'), w')) :
    m'.nodeManager = m.nodeManager ∧ w'.podman = w.podman := by
  rw [OpsM.exec_manager] at h
  have hkeeps := (hx m.nodeManager).exec (h := env.redis w.podman.containers) (s := w.redis) rfl
  obtain ⟨hrm, rfl⟩ := Prod.mk.inj h
  rw [hrm] at hkeeps
  exact ⟨hkeeps, rfl⟩

theorem onClusterNode_keepsNodes (clusterName msg : String) {f : RuntimeNode → ManagerM PUnit}
    (hf : ∀ node, KeepsNodes (f node)) (base : BaseNodeManager) :
    Session.Keeps (fun c : Manager => c.nodeManager = base) (do
      let c ← get
      match findClusterNode c clusterName with
      | none => Session.fail msg
      | some node => OpsM.manager (f node) : OpsM PUnit) := by
  refine Session.Keeps.get_bind fun c hc => ?_
  split
  · exact Session.Keeps.fail _ _
  · exact manager_keepsNodes (hf _) base

end Others

/-! ### The records of the steps -/

section Records

variable {p : Pipeline OpsCmd OpsCmd.Reply Manager} {m₀ : Manager} {w₀ : World ρ}
  (hstore : ∀ n c, env.storeError n c = none) (hp : p.persist = some storePersister)

include hstore hp

theorem started_eq (step : Step OpsCmd OpsCmd.Reply Manager) (w : World ρ) :
    p.started env.handler step w =
      { w with store := w.store.startPipelineStep p.name step.name, clock := w.clock + 1 } := by
  simp only [Pipeline.started, Pipeline.told, hp]
  exact congrArg Prod.snd (handler_store_ok hstore w (.startPipelineStep p.name step.name))

theorem saved_eq (step : Step OpsCmd OpsCmd.Reply Manager) (w : World ρ) :
    p.saved env.handler step w =
      { w with store := w.store.savePipelineStep p.name step.name, clock := w.clock + 1 } := by
  simp only [Pipeline.saved, Pipeline.told, hp]
  exact congrArg Prod.snd (handler_store_ok hstore w (.savePipelineStep p.name step.name))

theorem failed_eq (step : Step OpsCmd OpsCmd.Reply Manager) (w : World ρ) :
    p.failed env.handler step w =
      { w with store := w.store.failPipelineStep p.name step.name, clock := w.clock + 1 } := by
  simp only [Pipeline.failed, Pipeline.told, hp]
  exact congrArg Prod.snd (handler_store_ok hstore w (.failPipelineStep p.name step.name))

theorem started_podman (step : Step OpsCmd OpsCmd.Reply Manager) (w : World ρ) :
    (p.started env.handler step w).podman = w.podman := by rw [started_eq hstore hp]

theorem saved_podman (step : Step OpsCmd OpsCmd.Reply Manager) (w : World ρ) :
    (p.saved env.handler step w).podman = w.podman := by rw [saved_eq hstore hp]

/-- The records are kept apart from the rows. -/
theorem started_sameRows (step : Step OpsCmd OpsCmd.Reply Manager) (w : World ρ) :
    SameRows w (p.started env.handler step w) := by
  rw [started_eq hstore hp]
  exact ⟨rfl, rfl⟩

theorem saved_sameRows (step : Step OpsCmd OpsCmd.Reply Manager) (w : World ρ) :
    SameRows w (p.saved env.handler step w) := by
  rw [saved_eq hstore hp]
  exact ⟨rfl, rfl⟩

theorem tell_sameRows : p.TellKeeps env.handler fun _ w => SameRows w₀ w where
  started step _ w h := h.trans (started_sameRows hstore hp step w)
  saved step _ w h := h.trans (saved_sameRows hstore hp step w)
  failed step _ w h := by
    rw [failed_eq hstore hp]
    exact h.trans ⟨rfl, rfl⟩

theorem tell_unchanged : p.TellKeeps env.handler (Unchanged (ρ := ρ) m₀ w₀) where
  started step m w h := by
    refine ⟨h.nodeManager, ?_, h.rows.trans (started_sameRows hstore hp step w)⟩
    rw [started_podman hstore hp]
    exact h.containers
  saved step m w h := by
    refine ⟨h.nodeManager, ?_, h.rows.trans (saved_sameRows hstore hp step w)⟩
    rw [saved_podman hstore hp]
    exact h.containers
  failed step m w h := by
    refine ⟨h.nodeManager, ?_, (tell_sameRows hstore hp).failed step m w h.rows⟩
    rw [failed_eq hstore hp]
    exact h.containers

end Records

/-! ### The steps between -/

section Between

variable {m₀ : Manager} {w₀ : World ρ} {cfg : RuntimeConfig} {clusterName : String}

theorem Create.persistConfig_sends :
    Session.Sends OpsCmd.ToFile (Create.persistConfig cfg clusterName).action := by
  refine (sends_file (.mkdirAll _)).bind fun r => (Session.Sends.orFail _ _).bind fun _ =>
    (sends_file (.fileExists _)).bind fun found => ?_
  dsimp only
  split
  · exact (sends_file (.remove _)).bind fun _ => Session.Sends.get.bind fun c =>
      (sends_file (.writeToYAMLFile _ _)).bind fun r => (Session.Sends.orFail _ _).bind fun _ =>
        Session.Sends.pure _
  · exact Session.Sends.get.bind fun c => (sends_file (.writeToYAMLFile _ _)).bind fun r =>
      (Session.Sends.orFail _ _).bind fun _ => Session.Sends.pure _

theorem Create.persistConfig_keeps (I : Manager → Prop) :
    Session.Keeps I (Create.persistConfig cfg clusterName).action := by
  refine Session.Keeps.bind (Session.Keeps.lift _) fun r => (Session.Keeps.orFail _ _).bind fun _ =>
    Session.Keeps.bind (Session.Keeps.lift _) fun found => ?_
  dsimp only
  split
  · exact (Session.Keeps.lift _).bind fun _ => Session.Keeps.get_bind fun c _ =>
      (Session.Keeps.lift _).bind fun r => (Session.Keeps.orFail _ _).bind fun _ =>
        Session.Keeps.pure _
  · exact Session.Keeps.get_bind fun c _ => (Session.Keeps.lift _).bind fun r =>
      (Session.Keeps.orFail _ _).bind fun _ => Session.Keeps.pure _

/-- The steps of `create` that neither create containers nor write rows. -/
theorem Create.unchanged (cfg : RuntimeConfig) (clusterName : String)
    {step : Step OpsCmd OpsCmd.Reply Manager}
    (h : step ∈ [Create.meetNodesStep clusterName, Create.updateTopology clusterName,
      Create.setRoles clusterName, Create.allocSlots clusterName,
      Create.persistConfig cfg clusterName, Create.printInfo]) :
    step.Keeps env.handler (Unchanged (ρ := ρ) m₀ w₀) := by
  simp only [List.mem_cons, List.not_mem_nil, or_false] at h
  rcases h with rfl | rfl | rfl | rfl | rfl | rfl
  · exact unchanged_of_toRedis
      (sends_onClusterNode clusterName _ fun node => meetNodes node.clientConnAddr clusterName)
      (onClusterNode_keepsNodes clusterName _ fun node => meetNodes_keepsNodes _ _)
  · exact unchanged_of_toRedis
      (sends_onClusterNode clusterName _ fun node => updateAfterMeet node clusterName)
      (onClusterNode_keepsNodes clusterName _ fun node => updateAfterMeet_keepsNodes _ _)
  · exact unchanged_of_toRedis (sends_manager _) (manager_keepsNodes (setAllNodeRole_keepsNodes _))
  · exact unchanged_of_toRedis (sends_manager _) (manager_keepsNodes (allocateSlots_keepsNodes _))
  · exact unchanged_of_toFile Create.persistConfig_sends fun base => Create.persistConfig_keeps _
  · exact unchanged_of_toRedis (sends_manager _)
      (manager_keepsNodes fun base => printClusterNodesInfo_keeps _)

theorem Scale.assignNewRoles_keepsNodes (nodesPerShard : ℤ) (nodes : List RuntimeNode)
    (r : Scale.NewRoles) : KeepsNodes (Scale.assignNewRoles nodesPerShard nodes r) := by
  induction nodes generalizing r with
  | nil => exact KeepsNodes.pure _
  | cons node nodes ih =>
    refine KeepsNodes.get.bind fun c => ?_
    dsimp only
    refine KeepsNodes.ite ?_ (ih _)
    exact (KeepsNodes.modifyTopo _).bind fun _ => ih _

/-- The steps of `scale` that neither create containers nor write rows. -/
theorem Scale.unchanged (additionalShards nodesPerShard : ℤ) (clusterName : String)
    {step : Step OpsCmd OpsCmd.Reply Manager}
    (h : step ∈ [Scale.syncState clusterName, Scale.meetNodesStep clusterName,
      Scale.updateTopology clusterName,
      Scale.setRoles additionalShards nodesPerShard clusterName, Scale.migrateSlots clusterName]) :
    step.Keeps env.handler (Unchanged (ρ := ρ) m₀ w₀) := by
  simp only [List.mem_cons, List.not_mem_nil, or_false] at h
  rcases h with rfl | rfl | rfl | rfl | rfl
  · refine unchanged_of_toRedis Scale.syncState_sends fun base =>
      Session.Keeps.get_bind fun c hc => ?_
    split
    · exact Session.Keeps.fail _ _
    · exact ((manager_keepsNodes (updateAfterMeet_keepsNodes _ _) base).wrap _).bind fun _ =>
        ((manager_keepsNodes (updateAfterSetNodeRole_keepsNodes _ _) base).wrap _).bind fun _ =>
          (manager_keepsNodes (updateSlots_keepsNodes _ _) base).wrap _
  · exact unchanged_of_toRedis Scale.meetNodesStep_sends
      (onClusterNode_keepsNodes clusterName _ fun node => meetNodes_keepsNodes _ _)
  · exact unchanged_of_toRedis Scale.updateTopology_sends
      (onClusterNode_keepsNodes clusterName _ fun node => updateAfterMeet_keepsNodes _ _)
  · refine unchanged_of_toRedis Scale.setRoles_sends fun base => ?_
    refine (manager_keepsNodes (KeepsNodes.modifyTopo _) base).bind fun _ =>
      Session.Keeps.get_bind fun c hc => ?_
    simp only [Session.throw_bind]
    split
    · exact Session.Keeps.throw _
    refine ((Scale.assignNewRoles_keepsNodes _ _ _ base).embed).bind fun r =>
      (Session.Keeps.lift _).bind fun order => Session.Keeps.forM fun _ _ =>
        Session.Keeps.forM fun _ _ => manager_keepsNodes (setNodeAsSlave_keepsNodes _ _ _) base
  · exact unchanged_of_toRedis (sends_manager _)
      (manager_keepsNodes (migrateSlotsToEmptyNode_keepsNodes _))

/-- The steps of `delete` that delete no rows. -/
theorem Delete.sameRows (cfg : RuntimeConfig) (clusterName : String)
    {step : Step OpsCmd OpsCmd.Reply Manager}
    (h : step ∈ [Delete.deleteConfig cfg clusterName, Delete.deleteResourcesStep clusterName,
      Delete.cleanupState cfg clusterName]) :
    step.Keeps env.handler fun _ w => SameRows w₀ w := by
  intro m w hw
  refine hw.trans (SameRows.of_store_eq ?_)
  simp only [List.mem_cons, List.not_mem_nil, or_false] at h
  rcases h with rfl | rfl | rfl
  · rw [exec_of_toFile Delete.deleteConfig_sends]
  · show (Session.exec env.handler (deletePods clusterName) m w).2.store = w.store
    rw [exec_of_toPodman (sends_deletePods clusterName)]
  · rw [exec_of_toFile Delete.cleanupState_sends]

end Between

/-! ### The pipelines -/

/-- An operation that returns without an error has run its pipeline to the end. -/
theorem invoke_pipeline {prep : OpsM (Pipeline OpsCmd OpsCmd.Reply Manager)} {msg : String}
    (h : env.invoke (do let p ← prep; runPipeline p msg) w = (.ok ⟨⟩, w')) :
    ∃ p m₀ w₀ completed' m',
      Session.exec env.handler prep { nodesPerShard := 0 } w = ((.ok p, m₀), w₀) ∧
      p.Completes env.handler p.steps p.completed m₀ w₀ completed' m' w' := by
  rw [OpsEnv.invoke, Session.exec_bind] at h
  rcases hprep : Session.exec env.handler prep { nodesPerShard := 0 } w with ⟨⟨e | p, m₀⟩, w₀⟩
  · rw [hprep] at h
    cases h
  rw [hprep] at h
  simp only [exec_runPipeline] at h
  rcases p.completes_or_fails_or_panics (H := env.handler) m₀ w₀ with
    ⟨completed', m', w₁, hc⟩ | ⟨i, completed', m', w₁, hf⟩ | ⟨i, hpanic⟩
  · rw [hc.exec_run] at h
    cases h
    exact ⟨p, m₀, w₀, completed', m', rfl, hc⟩
  · obtain ⟨step, err, -, hrun⟩ := hf.exec_run
    rw [hrun, Session.exec_bind] at h
    generalize Session.exec env.handler (p.rollback (p.steps.take i).reverse completed') m'
      (p.failed env.handler step w₁) = r at h
    rcases r with ⟨⟨e | c, m₂⟩, w₂⟩ <;> cases h
  · obtain ⟨err, m', w₁, hrun⟩ := hpanic.exec_run
    rw [hrun] at h
    cases h

/-- A step that succeeds when it is first tried is not tried again. -/
theorem action_of_tryAt {prep : OpsM (Pipeline OpsCmd OpsCmd.Reply Manager)} {i : ℕ}
    {p : Pipeline OpsCmd OpsCmd.Reply Manager} {m₀ m₁ m₂ : Manager} {w₀ w₁ w₂ : World ρ}
    {completed : String → Bool} {step : Step OpsCmd OpsCmd.Reply Manager}
    (htry : (env.invoke (do let p ← prep; p.tryAt i) w).1 = .ok ⟨⟩)
    (hprep : Session.exec env.handler prep { nodesPerShard := 0 } w = ((.ok p, m₀), w₀))
    (hbefore : p.Completes env.handler (p.steps.take i) p.completed m₀ w₀ completed m₁ w₁)
    (hget : p.steps[i]? = some step) (hretry : 0 ≤ step.retry)
    (hexec : Session.exec env.handler (Pipeline.executeStep step) m₁
      (p.started env.handler step w₁) = ((.ok (.ok ⟨⟩), m₂), w₂)) :
    Session.exec env.handler step.action m₁ (p.started env.handler step w₁) =
      ((.ok ⟨⟩, m₂), w₂) := by
  rw [OpsEnv.invoke, Session.exec_bind_of_ok hprep, hbefore.exec_tryAt hget] at htry
  rcases hr : Session.exec env.handler step.action m₁ (p.started env.handler step w₁) with
    ⟨⟨e | _, m₃⟩, w₃⟩
  · rw [hr] at htry
    cases htry
  · rw [Pipeline.executeStep_of_ok hretry hr] at hexec
    cases hexec
    rfl

section Prepare

variable (hstore : ∀ n c, env.storeError n c = none) {cfg : RuntimeConfig}
  (hdb : cfg.dbPath ≠ "") {clusterName : String} {m₀ : Manager} {w₀ : World ρ}
  {p : Pipeline OpsCmd OpsCmd.Reply Manager}

include hstore hdb

theorem Create.prepare_ok {shardCount nodesPerShard : ℤ}
    (h : Session.exec env.handler (Create.prepare cfg shardCount nodesPerShard clusterName) m w =
      ((.ok p, m₀), w₀)) :
    p = { name := Create.pipelineName clusterName
          steps := Create.steps cfg shardCount nodesPerShard clusterName (some storePersister)
          persist := some storePersister
          completed := fun s => s ∈ w.store.loadPipelineSteps (Create.pipelineName clusterName) } ∧
      m₀ = newClusterManager cfg nodesPerShard ∧ w₀ = { w with clock := w.clock + 1 + 1 } := by
  rw [Create.prepare] at h
  obtain ⟨_, m₁, w₁, hbackend, h₁⟩ := Session.exec_bind_ok h
  obtain ⟨rfl, rfl⟩ := Session.orFail_ok _ _ _ hbackend
  rw [Session.exec_bind, Session.exec_set] at h₁
  simp only [exec_makePipeline_ok hstore hdb _ _ _ _ (fun _ _ => Create.steps_retry _ _ _ _)] at h₁
  cases h₁
  exact ⟨rfl, rfl, rfl⟩

/-- The pipeline of a scale-out, by the saved settings. -/
theorem Scale.exec_prepare_of_read (additionalShards : ℤ) {saved : RedisClusterConfig}
    (hbackend : newNodeManager cfg = .ok ())
    (hread : (env.handler w (.file (.readFromYAMLFile
      (cfg.clusterRuntimeConfigPath clusterName)))).1 = .ok saved) :
    Session.exec env.handler (Scale.prepare cfg additionalShards clusterName) m w =
      ((.ok { name := Scale.pipelineName clusterName
              steps := Scale.steps (Scale.savedConfig cfg saved) additionalShards
                saved.nodesPerShard clusterName (some storePersister)
              persist := some storePersister
              completed := fun s =>
                s ∈ w.store.loadPipelineSteps (Scale.pipelineName clusterName) },
          newClusterManager (Scale.savedConfig cfg saved) saved.nodesPerShard),
        { w with clock := w.clock + 1 + 1 + 1 }) := by
  have hw : (env.handler w (.file (.readFromYAMLFile
      (cfg.clusterRuntimeConfigPath clusterName)))).2 = { w with clock := w.clock + 1 } :=
    handler_file_of_effect rfl
  rw [Scale.prepare, hbackend, Session.exec_bind, Session.exec_orFail_ok]
  dsimp only
  rw [Session.exec_bind, OpsM.exec_file, hread, hw]
  simp only [Session.exec_bind, Session.exec_orFail_ok, Session.exec_set]
  exact exec_makePipeline_ok hstore (show (Scale.savedConfig cfg saved).dbPath ≠ "" from hdb)
    (newClusterManager (Scale.savedConfig cfg saved) saved.nodesPerShard)
    { w with clock := w.clock + 1 } (Scale.pipelineName clusterName)
    (Scale.steps (Scale.savedConfig cfg saved) additionalShards saved.nodesPerShard clusterName)
    fun _ _ => Scale.steps_retry _ _ _ _

theorem Scale.prepare_ok {additionalShards : ℤ}
    (h : Session.exec env.handler (Scale.prepare cfg additionalShards clusterName) m w =
      ((.ok p, m₀), w₀)) :
    ∃ saved,
      (newNodeManager cfg = .ok () ∧ (env.handler w (.file (.readFromYAMLFile
        (cfg.clusterRuntimeConfigPath clusterName)))).1 = .ok saved) ∧
      p = { name := Scale.pipelineName clusterName
            steps := Scale.steps (Scale.savedConfig cfg saved) additionalShards
              saved.nodesPerShard clusterName (some storePersister)
            persist := some storePersister
            completed := fun s => s ∈ w.store.loadPipelineSteps (Scale.pipelineName clusterName) } ∧
      m₀ = newClusterManager (Scale.savedConfig cfg saved) saved.nodesPerShard ∧
      w₀ = { w with clock := w.clock + 1 + 1 + 1 } := by
  obtain ⟨saved, hbackend, hread⟩ : ∃ saved, newNodeManager cfg = .ok () ∧
      (env.handler w (.file (.readFromYAMLFile
        (cfg.clusterRuntimeConfigPath clusterName)))).1 = .ok saved := by
    rw [Scale.prepare] at h
    obtain ⟨_, m₁, w₁, hbackend, h₁⟩ := Session.exec_bind_ok h
    obtain ⟨_, m₂, w₂, hread, h₂⟩ := Session.exec_bind_ok h₁
    obtain ⟨saved, m₃, w₃, hsaved, -⟩ := Session.exec_bind_ok h₂
    rw [OpsM.exec_file] at hread
    rcases hb : newNodeManager cfg with err | _
    · rw [hb] at hbackend
      cases hbackend
    rw [hb] at hbackend
    cases hbackend
    cases hread
    refine ⟨saved, rfl, ?_⟩
    rcases hr : (env.handler w (.file (.readFromYAMLFile
      (cfg.clusterRuntimeConfigPath clusterName)))).1 with err | data
    · rw [hr] at hsaved
      cases hsaved
    · rw [hr] at hsaved
      cases hsaved
      rfl
  cases (Scale.exec_prepare_of_read hstore hdb additionalShards hbackend hread).symm.trans h
  exact ⟨saved, ⟨hbackend, hread⟩, rfl, rfl, rfl⟩

theorem Delete.prepare_ok
    (h : Session.exec env.handler (Delete.prepare cfg clusterName) m w = ((.ok p, m₀), w₀)) :
    p = { name := Delete.pipelineName clusterName
          steps := Delete.steps cfg clusterName (some storePersister)
          persist := some storePersister
          completed := fun s => s ∈ w.store.loadPipelineSteps (Delete.pipelineName clusterName) } ∧
      m₀ = m ∧ w₀ = { w with clock := w.clock + 1 + 1 } := by
  rw [Delete.prepare] at h
  obtain ⟨_, m₁, w₁, hbackend, h₁⟩ := Session.exec_bind_ok h
  obtain ⟨rfl, rfl⟩ := Session.orFail_ok _ _ _ hbackend
  rw [exec_makePipeline_ok hstore hdb _ _ _ _ (fun _ _ => Delete.steps_retry _ _)] at h₁
  cases h₁
  exact ⟨rfl, rfl, rfl⟩

end Prepare

end ClusterManager
