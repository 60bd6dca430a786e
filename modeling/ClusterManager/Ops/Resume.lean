import Mathlib.Data.Set.Card
import Mathlib.Order.Interval.Finset.Nat
import ClusterManager.Ops.History
import ClusterManager.Ops.Rollback
import ClusterManager.Pipeline.Moments

/-!
# A scale-out that is begun again

A scale-out records its steps, so that another process can go on where one has died. But the
steps hand on what they have found in the memory of the process: the nodes of the cluster, the
topology, the new masters. A new process has the records and not the memory. It skips `validate`,
which lists the nodes, and finds no node to log in to; or it creates containers from the first
index on, as if the cluster had none; or it comes to `persist-db` and writes a row with no shards.

So a scale-out can be begun again as long as nothing has been recorded, and no longer
(`Scale.resumes_iff`).
-/

namespace ClusterManager

/-! ### A process that dies -/

variable {ρ : Type}

namespace OpsEnv

variable {α : Type} (env : OpsEnv ρ) (x : OpsM α) (w : World ρ)

/-- The requests of an operation in a new process, and the world in which each is sent. -/
def requests : List (OpsCmd × World ρ) := Session.sent env.handler x { nodesPerShard := 0 } w

/-- What is left when the process of an operation dies after `k` requests. -/
def crash (k : ℕ) : World ρ := ((x.program { nodesPerShard := 0 }).runFor env.handler k w).2

theorem crash_eq (k : ℕ) :
    env.crash x w k = env.handler.after (((env.requests x w).take k).map Prod.fst) w := by
  rw [crash, Program.runFor_snd, List.map_take]
  rfl

/-- Podman does what it is asked to do. -/
def podmanOk (q : OpsCmd × World ρ) : Bool :=
  match q.1 with
  | .podman c => c.succeeds (podmanHandler env.podman q.2.podman c).1
  | .redis _ | .store _ | .file _ | .mapOrder _ => true

/-- Podman does what an operation asks it to do. -/
def PodmanSucceeds : Prop := ∀ q ∈ env.requests x w, env.podmanOk q

end OpsEnv

instance {α : Type} (env : OpsEnv ρ) (x : OpsM α) (w : World ρ) :
    Decidable (env.PodmanSucceeds x w) :=
  inferInstanceAs (Decidable (∀ q ∈ env.requests x w, env.podmanOk q))

/-- The request notes that a step has failed. -/
def OpsCmd.notesFailure : OpsCmd → Bool
  | .store (.failPipelineStep _ _) => true
  | _ => false

/-- The world as it was, at the time of another one. -/
def World.atTimeOf (w t : World ρ) : World ρ :=
  { w with podman := { w.podman with clock := t.podman.clock }, clock := t.clock }

/-- The indices of the containers of a cluster. -/
def nodeSet (clusterName : String) (cs : List Container) : Set ℕ :=
  {i | containerName clusterName i ∈ cs.map Container.name}

section NodeSet

variable {clusterName : String} {cs cs' : List Container}

theorem nodeSet_finite (clusterName : String) (cs : List Container) :
    (nodeSet clusterName cs).Finite :=
  (List.finite_toSet (cs.map Container.name)).preimage fun _ _ _ _ h => containerName_inj.mp h

theorem ncard_nodeSet_le (h : ∀ c ∈ cs, c ∈ cs') :
    (nodeSet clusterName cs).ncard ≤ (nodeSet clusterName cs').ncard := by
  refine Set.ncard_le_ncard (fun i hi => ?_) (nodeSet_finite _ _)
  obtain ⟨c, hc, hname⟩ := List.mem_map.mp hi
  exact List.mem_map.mpr ⟨c, h c hc, hname⟩

variable {start n : ℕ} {base base' : BaseNodeManager} {s s' : PodmanState}

theorem Created.nodeSet_eq (h : Created clusterName start n base base' s s') :
    nodeSet clusterName s'.containers =
      nodeSet clusterName s.containers ∪ Finset.Ico start (start + n) := by
  obtain ⟨new, hnew, hnames⟩ := h.containers
  ext i
  show containerName clusterName i ∈ s'.containers.map Container.name ↔ _
  rw [hnew, List.map_append, List.mem_append, hnames]
  refine or_congr Iff.rfl ?_
  simp only [List.mem_map, List.mem_range, containerName_inj, Finset.coe_Ico, Set.mem_Ico]
  constructor
  · rintro ⟨k, hk, rfl⟩
    omega
  · rintro ⟨hle, hlt⟩
    exact ⟨i - start, by omega, by omega⟩

/-- Creating `n` containers adds `n` nodes. -/
theorem Created.ncard_nodeSet (h : Created clusterName start n base base' s s') :
    (nodeSet clusterName s'.containers).ncard = (nodeSet clusterName s.containers).ncard + n := by
  rw [h.nodeSet_eq, Set.ncard_union_eq _ (nodeSet_finite _ _) (Finset.finite_toSet _),
    Set.ncard_coe_finset, Nat.card_Ico, Nat.add_sub_cancel_left]
  refine Set.disjoint_right.mpr fun i hi hold => ?_
  rw [Finset.coe_Ico, Set.mem_Ico] at hi
  obtain ⟨k, rfl⟩ : ∃ k, i = start + k := ⟨i - start, by omega⟩
  exact h.fresh k (by omega) hold

end NodeSet

namespace Scale

/-- Two worlds in which a cluster has the same nodes, Redis is the same as far as `view` shows,
and the same number of shards is recorded. -/
structure SameCluster {V : Type} (view : ρ → V) (clusterName : String) (w w' : World ρ) : Prop where
  nodes : nodeSet clusterName w.podman.containers = nodeSet clusterName w'.podman.containers
  redis : view w.redis = view w'.redis
  shards : (w.store.getCluster clusterName).map ClusterRecord.shards =
    (w'.store.getCluster clusterName).map ClusterRecord.shards

section Defs

variable (env : OpsEnv ρ) {V : Type} (view : ρ → V) (cfg : RuntimeConfig) (additionalShards : ℤ)
  (clusterName : String)

/-- A second process, begun in `t`, comes to what an uninterrupted run would have come to. -/
def Resumes (w t : World ρ) : Prop :=
  (env.invoke (scaleClusterAction cfg additionalShards clusterName) t).1 = .ok ⟨⟩ ∧
    SameCluster view clusterName
      (env.invoke (scaleClusterAction cfg additionalShards clusterName) t).2
      (env.invoke (scaleClusterAction cfg additionalShards clusterName) (w.atTimeOf t)).2

/-- Nothing of a scale-out has been recorded, and no container has been created. -/
def Untouched (w t : World ρ) : Prop :=
  t.store.loadPipelineSteps (pipelineName clusterName) = [] ∧
    t.podman.containers = w.podman.containers

end Defs

/-! ### Where the process can have died -/

section Moments

variable {env : OpsEnv ρ} {cfg : RuntimeConfig} {additionalShards : ℤ} {clusterName : String}
  {w : World ρ}

theorem sent_runPipeline (p : Pipeline OpsCmd OpsCmd.Reply Manager) (msg : String) (m : Manager)
    (w : World ρ) :
    Session.sent env.handler (runPipeline p msg) m w = Session.sent env.handler p.run m w := by
  rw [runPipeline, Session.sent_bind]
  rcases Session.exec env.handler p.run m w with ⟨⟨e | ⟨err | _, completed⟩, m'⟩, w'⟩ <;>
    exact List.append_nil _

variable (hstore : ∀ n c, env.storeError n c = none) (hdb : cfg.dbPath ≠ "")

include hstore hdb

theorem sent_makePipeline (m : Manager) (w : World ρ) (name : String)
    (steps : Option (Persister OpsCmd OpsCmd.Reply) → List (Step OpsCmd OpsCmd.Reply Manager)) :
    Session.sent env.handler (makePipeline cfg name steps) m w =
      [(.store (.openStore cfg.dbPath), w),
        (.store (.loadPipelineSteps name), { w with clock := w.clock + 1 })] := by
  have hopen : Session.sent env.handler (openPersister cfg) m w =
      [(.store (.openStore cfg.dbPath), w)] := by
    rw [openPersister, if_neg hdb, Session.sent_bind, OpsM.exec_store, handler_store_ok hstore]
    rfl
  have hload : ∀ w : World ρ, (storePersister.loadPipelineSteps name).run env.handler w =
      env.handler w (.store (.loadPipelineSteps name)) := fun _ => rfl
  rw [makePipeline, Session.sent_bind_of_ok (exec_openPersister_ok hstore hdb m w), hopen]
  simp only [Session.sent_bind, Session.sent_lift, Session.exec_lift, Pipeline.new,
    Program.trace_bind, hload, handler_store_ok hstore, Store.reply]
  rfl

/-- What is sent before the first step. -/
theorem sent_prepare (m : Manager) (w : World ρ) :
    ∀ x ∈ Session.sent env.handler (prepare cfg additionalShards clusterName) m w,
      x.1 = .file (.readFromYAMLFile (cfg.clusterRuntimeConfigPath clusterName)) ∨
        x.1 = .store (.openStore cfg.dbPath) ∨
          x.1 = .store (.loadPipelineSteps (pipelineName clusterName)) := by
  rw [prepare, Session.sent_bind, Session.sent_orFail, List.nil_append]
  rcases newNodeManager cfg with err | _
  · exact List.forall_mem_nil _
  rw [Session.exec_orFail_ok]
  dsimp only
  rw [Session.sent_bind, OpsM.exec_file, List.forall_mem_append]
  refine ⟨fun x hx => Or.inl ?_, ?_⟩
  · rw [List.mem_singleton.mp hx]
  rcases (env.handler w (.file (.readFromYAMLFile (cfg.clusterRuntimeConfigPath clusterName)))).1
    with err | saved
  · exact List.forall_mem_nil _
  simp only [Session.sent_bind, Session.exec_orFail_ok, Session.sent_orFail, Session.exec_set,
    Session.sent_set, List.nil_append]
  show ∀ x ∈ Session.sent env.handler (makePipeline (savedConfig cfg saved) _ _) _ _, _
  rw [sent_makePipeline hstore (show (savedConfig cfg saved).dbPath ≠ "" from hdb)]
  simp [savedConfig]

/-- The process dies before the first step, or in the run of the pipeline. -/
theorem crash_cases (additionalShards : ℤ) (clusterName : String) (w : World ρ) (k : ℕ) :
    (∃ n, env.crash (scaleClusterAction cfg additionalShards clusterName) w k =
        { w with clock := n }) ∨
      ∃ p m₀ w₀ k', Session.exec env.handler (prepare cfg additionalShards clusterName)
          { nodesPerShard := 0 } w = ((.ok p, m₀), w₀) ∧
        (∀ x ∈ (Session.sent env.handler p.run m₀ w₀).take k',
          x ∈ (env.requests (scaleClusterAction cfg additionalShards clusterName) w).take k) ∧
        env.crash (scaleClusterAction cfg additionalShards clusterName) w k =
          env.handler.after (((Session.sent env.handler p.run m₀ w₀).take k').map Prod.fst) w₀ := by
  have hticks : ∀ j, ∃ n, env.handler.after (((Session.sent env.handler
      (prepare cfg additionalShards clusterName) { nodesPerShard := 0 } w).take j).map Prod.fst) w =
        { w with clock := n } := by
    refine fun j => Handler.after_inv (I := fun w' => ∃ n, w' = { w with clock := n }) ?_
      ⟨w.clock, rfl⟩
    rintro _ c hc ⟨n, rfl⟩
    obtain ⟨x, hx, rfl⟩ := List.mem_map.mp hc
    rcases sent_prepare hstore hdb _ w x (List.mem_of_mem_take hx) with h | h | h
    · exact ⟨_, h ▸ handler_file_of_effect rfl⟩
    · exact ⟨_, h ▸ handler_store_of_effect rfl⟩
    · exact ⟨_, h ▸ handler_store_of_effect rfl⟩
  rw [OpsEnv.crash_eq, OpsEnv.requests, scaleClusterAction, Session.sent_bind, List.take_append]
  rcases hprep : Session.exec env.handler (prepare cfg additionalShards clusterName)
    { nodesPerShard := 0 } w with ⟨⟨e | p, m₀⟩, w₀⟩
  · refine Or.inl ?_
    rw [List.take_nil, List.append_nil]
    exact hticks k
  dsimp only
  rw [sent_runPipeline]
  rcases Nat.le_total k (Session.sent env.handler (prepare cfg additionalShards clusterName)
    { nodesPerShard := 0 } w).length with hk | hk
  · refine Or.inl ?_
    rw [Nat.sub_eq_zero_of_le hk, List.take_zero, List.append_nil]
    exact hticks k
  · refine Or.inr ⟨p, m₀, w₀, _, rfl, fun x hx => List.mem_append_right _ hx, ?_⟩
    rw [List.map_append, Handler.after_append, List.take_of_length_le hk, Session.after_sent, hprep]

end Moments

/-! ### What the first process has done -/

section First

variable {env : OpsEnv ρ} {cfg : RuntimeConfig} {saved : RedisClusterConfig} {additionalShards : ℤ}
  {clusterName : String} {p : Pipeline OpsCmd OpsCmd.Reply Manager}
  {completed completed' : String → Bool} {m m' : Manager} {w w' : World ρ}

/-- The steps, with the settings that were saved. -/
abbrev savedSteps (cfg : RuntimeConfig) (saved : RedisClusterConfig) (additionalShards : ℤ)
    (clusterName : String) : List (Step OpsCmd OpsCmd.Reply Manager) :=
  steps (savedConfig cfg saved) additionalShards saved.nodesPerShard clusterName
    (some storePersister)

/-- A run that creates the containers adds a node for each. -/
theorem ncard_nodeSet_of_completes (hp : p.persist = some storePersister)
    {post : List (Step OpsCmd OpsCmd.Reply Manager)}
    (hpost : ∀ step ∈ post, step ∈ savedSteps cfg saved additionalShards clusterName)
    (h : p.Completes env.handler ((savedSteps cfg saved additionalShards clusterName).take 2 ++
      createContainers (savedConfig cfg saved) additionalShards saved.nodesPerShard clusterName ::
        post) completed m w completed' m' w') (hnot : ¬ completed "create-containers") :
    (nodeSet clusterName w.podman.containers).ncard +
      (additionalShards * saved.nodesPerShard).toNat ≤
        (nodeSet clusterName w'.podman.containers).ncard := by
  obtain ⟨c₁, m₁, w₁, m₂, w₂, hbefore, hcreate, hafter⟩ := h.at_step _ hnot
    (by decide : "create-containers" ∉ ["validate", "sync-state"])
  obtain ⟨j, -, htry, -⟩ := Pipeline.executeStep_ok hcreate
  obtain ⟨-, -, hcreated⟩ := createPodsForCluster_ok htry
  have hmem : createContainers (savedConfig cfg saved) additionalShards saved.nodesPerShard
      clusterName ∈ savedSteps cfg saved additionalShards clusterName := by
    simp [steps]
  have hold : ∀ c ∈ w.podman.containers, c ∈ (Pipeline.beforeTry env.handler
      (createContainers (savedConfig cfg saved) additionalShards saved.nodesPerShard clusterName)
        j m₁
      (p.started env.handler (createContainers (savedConfig cfg saved) additionalShards
        saved.nodesPerShard clusterName) w₁)).2.podman.containers := by
    intro c hc
    refine Pipeline.beforeTry_inv (I := Kept c) (containers_kept (Or.inr rfl) hmem) j ?_
    refine (tell_keeps (Or.inr hp)).started _ m₁ w₁ (hbefore.inv (I := Kept c)
      (tell_keeps (Or.inr hp)) (fun step hstep => ?_) hc)
    exact containers_kept (Or.inr rfl) (List.mem_of_mem_take hstep)
  have hnew : ∀ c ∈ w₂.podman.containers, c ∈ w'.podman.containers := fun c hc =>
    hafter.inv (I := Kept c) (tell_keeps (Or.inr hp))
      (fun step hstep => containers_kept (Or.inr rfl) (hpost step hstep))
      ((tell_keeps (Or.inr hp)).saved _ m₂ w₂ hc)
  calc (nodeSet clusterName w.podman.containers).ncard +
        (additionalShards * saved.nodesPerShard).toNat
    _ ≤ _ := Nat.add_le_add_right (ncard_nodeSet_le hold) _
    _ = (nodeSet clusterName w₂.podman.containers).ncard := hcreated.ncard_nodeSet.symm
    _ ≤ _ := ncard_nodeSet_le hnew

theorem mem_nodeSet_podmanHandler {penv : PodmanEnv} {s : PodmanState} {c : PodmanCmd} {i start : ℕ}
    (hi : i ∈ nodeSet clusterName s.containers) (hlt : i < start)
    (hc : c.RemovesFrom clusterName start) :
    i ∈ nodeSet clusterName (podmanHandler penv s c).2.containers := by
  obtain ⟨x, hx, hname⟩ := List.mem_map.mp hi
  refine List.mem_map.mpr ⟨x, ?_, hname⟩
  rcases containers_podmanHandler penv s c with h | h
  · rw [h]
    cases c with
    | run spec =>
      rw [PodmanState.effect]
      split
      · exact hx
      · exact List.mem_append_left _ hx
    | rm name =>
      obtain ⟨j, hj, rfl⟩ := hc name rfl
      refine List.mem_filter.mpr ⟨hx, decide_eq_true fun heq => ?_⟩
      have := containerName_inj.mp (hname.symm.trans heq)
      omega
    | _ => exact hx
  · rw [h]
    exact hx

theorem sent_createPodsForCluster (cfg : RuntimeConfig) (clusterName : String) (sum : ℤ)
    (m : Manager)
    (w : World ρ) :
    Session.sent env.handler (createPodsForCluster cfg clusterName sum) m w =
      ((createPods cfg m.nodeManager sum clusterName).trace (podmanHandler env.podman) w.podman).map
        fun x => (.podman x.1, { w with podman := x.2 }) := by
  rw [createPodsForCluster, Session.sent_bind, Session.exec_get, Session.sent_get, List.nil_append]
  dsimp only
  rw [Session.sent_bind, OpsM.sent_podman, OpsM.exec_podman]
  dsimp only
  rw [Session.sent_bind, Session.sent_modify, Session.exec_modify, List.nil_append]
  dsimp only
  rw [Session.sent_bind, Session.sent_orFail, List.nil_append]
  rcases (createPods cfg m.nodeManager sum clusterName).run (podmanHandler env.podman) w.podman
    with ⟨⟨err | _, base⟩, s⟩ <;> exact List.append_nil _

/-- Creating containers for a cluster that has some never removes the first one. -/
theorem first_mem_nodeSet (hnum : m.nodeManager.num ≠ 0)
    (hfirst : 1 ∈ nodeSet clusterName w.podman.containers) {stmt : StoreCmd} (k : ℕ) :
    1 ∈ nodeSet clusterName (env.handler.after ((((OpsCmd.store stmt, w) ::
      Session.sent env.handler (Pipeline.executeStep (createContainers cfg additionalShards
        saved.nodesPerShard clusterName)) m w').take k).map Prod.fst) w).podman.containers := by
  have hsent : ∀ x ∈ Session.sent env.handler (Pipeline.executeStep (createContainers cfg
      additionalShards saved.nodesPerShard clusterName)) m w',
      ∃ c, x.1 = .podman c ∧ c.RemovesFrom clusterName 2 := by
    refine Pipeline.sent_executeStep_forall (I := fun m _ => m.nodeManager.num ≠ 0) ?_ ?_ hnum
    · intro m w hm hzero
      have hle : m.nodeManager.num ≤ (Session.exec env.handler (createPodsForCluster cfg clusterName
          (additionalShards * saved.nodesPerShard)) m w).1.2.nodeManager.num := by
        rw [exec_createPodsForCluster]
        exact (createPodsFrom_num _ _ _).run
      exact hm (Nat.le_zero.mp (hzero ▸ hle))
    · intro m w hm x hx
      rw [createContainers, sent_createPodsForCluster] at hx
      obtain ⟨y, hy, rfl⟩ := List.mem_map.mp hx
      refine ⟨y.1, rfl, fun name hname => ?_⟩
      obtain ⟨j, hj, hname⟩ := (createPodsFrom_removes _ _ _).trace y hy name hname
      exact ⟨j, by omega, hname⟩
  refine Handler.after_inv (I := fun w : World ρ => 1 ∈ nodeSet clusterName w.podman.containers)
    (fun w₁ c hc hw₁ => ?_) hfirst
  obtain ⟨x, hx, rfl⟩ := List.mem_map.mp hc
  rcases List.mem_cons.mp (List.mem_of_mem_take hx) with rfl | hx
  · rw [handler_store_eq]
    exact hw₁
  · obtain ⟨c, hxc, hremoves⟩ := hsent x hx
    rw [hxc]
    exact mem_nodeSet_podmanHandler hw₁ (by decide) hremoves

/-! #### The records -/

variable (hstore : ∀ n c, env.storeError n c = none)

/-- The store of the world. -/
def storeIn : StoreIn env.handler where
  send := OpsCmd.store
  answer _ r := r
  get := World.store
  reply w c := by rw [handler_store_ok hstore]
  effect w c := by rw [handler_store_ok hstore]

theorem leaves_of_toRedis {c : OpsCmd} (hc : c.ToRedis) (name : String) :
    (storeIn hstore).Leaves name c := by
  intro w n
  rcases c with c | c | c | c | l
  · exact hc.elim
  · exact Iff.rfl
  · exact hc.elim
  · exact hc.elim
  · exact Iff.rfl

theorem leaves_of_toPodman {c : OpsCmd} (hc : c.ToPodman) (name : String) :
    (storeIn hstore).Leaves name c := by
  intro w n
  rcases c with c | c | c | c | l
  · exact Iff.rfl
  · exact hc.elim
  · exact hc.elim
  · exact hc.elim
  · exact hc.elim

omit hstore in
/-- The steps before the last one speak to Redis and to podman. -/
theorem steps_sends {Q : OpsCmd → Prop} (hredis : ∀ c, OpsCmd.ToRedis c → Q c)
    (hpodman : ∀ c, OpsCmd.ToPodman c → Q c) {step : Step OpsCmd OpsCmd.Reply Manager}
    (hstep : step ∈ (savedSteps cfg saved additionalShards clusterName).take 7) :
    Session.Sends Q step.action := by
  simp only [savedSteps, steps, List.take_succ_cons, List.take_zero, List.mem_cons,
    List.not_mem_nil, or_false] at hstep
  rcases hstep with rfl | rfl | rfl | rfl | rfl | rfl | rfl
  · exact validate_sends.mono hpodman
  · exact syncState_sends.mono hredis
  · exact (sends_createPodsForCluster _ _ _).mono hpodman
  · exact meetNodesStep_sends.mono hredis
  · exact updateTopology_sends.mono hredis
  · exact setRoles_sends.mono hredis
  · exact (sends_manager _).mono hredis

/-- They do not touch the records. -/
theorem steps_leave (name : String) {step : Step OpsCmd OpsCmd.Reply Manager}
    (hstep : step ∈ (savedSteps cfg saved additionalShards clusterName).take 7) :
    Session.Sends ((storeIn hstore).Leaves name) step.action :=
  steps_sends (fun _ hc => leaves_of_toRedis hstore hc name)
    (fun _ hc => leaves_of_toPodman hstore hc name) hstep

/-- A request that leaves the records of a pipeline alone, or deletes them all. -/
def LeavesOrDeletes (name : String) (c : OpsCmd) : Prop :=
  ∃ stmt, c = .store stmt ∧ ((storeIn hstore).Leaves name c ∨ stmt = .deletePipeline name)

theorem persistDb_leavesOrDeletes :
    Session.Sends (LeavesOrDeletes hstore (pipelineName clusterName))
      (persistDb cfg additionalShards saved.nodesPerShard clusterName
        (some storePersister)).action := by
  have hleaves : ∀ stmt : StoreCmd, (∀ s : Store, (s.effect stmt).pipelineRuns = s.pipelineRuns) →
      Session.Sends (LeavesOrDeletes hstore (pipelineName clusterName)) (OpsM.store stmt) := by
    refine fun stmt hstmt => Session.Sends.lift (Program.Sends.send ⟨stmt, rfl, Or.inl ?_⟩)
    intro w n
    rw [handler_store_ok hstore]
    show n ∈ (w.store.effect stmt).loadPipelineSteps _ ↔ n ∈ w.store.loadPipelineSteps _
    rw [Store.loadPipelineSteps, hstmt, Store.loadPipelineSteps]
  simp only [persistDb]
  split
  · exact Session.Sends.pure _
  refine (hleaves _ fun _ => rfl).bind fun r => (Session.Sends.orFail _ _).bind fun _ =>
    Session.Sends.get.bind fun c => (hleaves _ fun _ => rfl).bind fun _ =>
      Session.Sends.bind ?_ fun _ => Session.Sends.bind (hleaves _ fun _ => rfl) fun _ => ?_
  · exact Session.Sends.get.bind fun _ => Session.Sends.forM fun _ _ =>
      (hleaves _ fun _ => rfl).bind fun _ => Session.Sends.pure _
  · exact (Session.Sends.lift (Program.Sends.send ⟨_, rfl, Or.inr rfl⟩)).bind fun _ =>
      Session.Sends.pure _

include hstore

/-- A process that dies in a step before the last one leaves the records of the steps before. -/
theorem mem_recorded_busy {step : Step OpsCmd OpsCmd.Reply Manager} {name : String}
    (hstep : step ∈ (savedSteps cfg saved additionalShards clusterName).take 7)
    (k : ℕ) (n : String) :
    n ∈ (env.handler.after ((((OpsCmd.store (.startPipelineStep name step.name), w) ::
        Session.sent env.handler (Pipeline.executeStep step) m w').take k).map Prod.fst)
        w).store.loadPipelineSteps name ↔ n ∈ w.store.loadPipelineSteps name := by
  refine Handler.after_inv (I := fun w' : World ρ => ∀ n, n ∈ w'.store.loadPipelineSteps name ↔
    n ∈ w.store.loadPipelineSteps name) ?_ (fun _ => Iff.rfl) n
  intro w₁ c hc hw₁ n
  obtain ⟨x, hx, rfl⟩ := List.mem_map.mp hc
  refine Iff.trans ?_ (hw₁ n)
  rcases List.mem_cons.mp (List.mem_of_mem_take hx) with rfl | hx
  · exact StoreIn.leaves_start (s := storeIn hstore) name step.name w₁ n
  · exact Pipeline.sent_executeStep_of_sends (steps_leave hstore name hstep) m w' x hx w₁ n

/-- A process that dies in the last step leaves all records or none, and the containers. -/
theorem recorded_persistDb (m : Manager) (w w' : World ρ) (k : ℕ) :
    let step := persistDb (savedConfig cfg saved) additionalShards saved.nodesPerShard clusterName
      (some storePersister)
    let t := env.handler.after ((((OpsCmd.store
      (.startPipelineStep (pipelineName clusterName) step.name), w) ::
        Session.sent env.handler (Pipeline.executeStep step) m w').take k).map Prod.fst) w
    t.podman.containers = w.podman.containers ∧
      ((∀ n, n ∈ t.store.loadPipelineSteps (pipelineName clusterName) ↔
          n ∈ w.store.loadPipelineSteps (pipelineName clusterName)) ∨
        ∀ n, n ∉ t.store.loadPipelineSteps (pipelineName clusterName)) := by
  intro step t
  refine Handler.after_inv (I := fun t : World ρ => t.podman.containers = w.podman.containers ∧
    ((∀ n, n ∈ t.store.loadPipelineSteps (pipelineName clusterName) ↔
        n ∈ w.store.loadPipelineSteps (pipelineName clusterName)) ∨
      ∀ n, n ∉ t.store.loadPipelineSteps (pipelineName clusterName))) ?_
    ⟨rfl, Or.inl fun _ => Iff.rfl⟩
  rintro w₁ c hc ⟨hcontainers, hrecords⟩
  have hok : LeavesOrDeletes hstore (pipelineName clusterName) c := by
    obtain ⟨x, hx, rfl⟩ := List.mem_map.mp hc
    rcases List.mem_cons.mp (List.mem_of_mem_take hx) with rfl | hx
    · exact ⟨_, rfl, Or.inl (StoreIn.leaves_start (s := storeIn hstore) _ _)⟩
    · exact Pipeline.sent_executeStep_of_sends (persistDb_leavesOrDeletes hstore) m w' x hx
  obtain ⟨stmt, rfl, hleaves | rfl⟩ := hok
  · refine ⟨by rw [handler_store_ok hstore]; exact hcontainers, ?_⟩
    rcases hrecords with hrecords | hrecords
    · exact Or.inl fun n => (hleaves w₁ n).trans (hrecords n)
    · exact Or.inr fun n hn => hrecords n ((hleaves w₁ n).mp hn)
  · refine ⟨by rw [handler_store_ok hstore]; exact hcontainers, Or.inr fun n hn => ?_⟩
    rw [handler_store_ok hstore] at hn
    exact (Store.recorded_deletePipeline.mp (Store.mem_loadPipelineSteps.mp hn)).2 rfl

omit hstore in
theorem validate_reads :
    Session.Sends (fun c => ∃ c', c = .podman c' ∧ c'.Reads)
      (validate cfg additionalShards clusterName).action := by
  simp only [validate, Session.fail_bind]
  split
  · exact Session.Sends.fail _
  refine Session.Sends.bind ?_ fun r => (Session.Sends.orFail _ _).bind fun _ =>
    Session.Sends.get.bind fun c => ?_
  · exact Session.Sends.get.bind fun _ =>
      (Session.Sends.lift (listPodsByCluster_reads.embed fun c hc => ⟨c, rfl, hc⟩)).bind fun _ =>
        (Session.Sends.modify _).bind fun _ => Session.Sends.pure _
  split
  · exact Session.Sends.fail _
  · exact Session.Sends.pure _

omit hstore in
theorem handler_podman_of_reads (env : OpsEnv ρ) (w : World ρ) {c : PodmanCmd} (hc : c.Reads) :
    ∃ n, (env.handler w (.podman c)).2 = { w with podman := { w.podman with clock := n } } := by
  have hstate : (podmanHandler env.podman w.podman c).2 =
      { w.podman with clock := (podmanHandler env.podman w.podman c).2.clock } := by
    dsimp only
    rw [← podmanHandler_reads env.podman w.podman hc]
  exact ⟨_, congrArg (fun s => { w with podman := s }) hstate⟩

/-- A process that dies in the first step has changed the clocks, and noted the step as running. -/
theorem after_validate (w : World ρ) (name : String) (k : ℕ) :
    ∃ n n' s, (s = w.store ∨ s = w.store.startPipelineStep name "validate") ∧
      env.handler.after ((((OpsCmd.store (.startPipelineStep name "validate"), w) ::
        Session.sent env.handler
          (Pipeline.executeStep (validate cfg additionalShards clusterName)) m
          w').take k).map Prod.fst) w =
        { w with podman := { w.podman with clock := n }, store := s, clock := n' } := by
  rcases k with _ | k
  · exact ⟨w.podman.clock, w.clock, w.store, Or.inl rfl, rfl⟩
  rw [List.take_succ_cons, List.map_cons]
  show ∃ n n' s, _ ∧ env.handler.after _ (env.handler w _).2 = _
  rw [handler_store_ok hstore]
  suffices hpodman : ∃ n, env.handler.after (((Session.sent env.handler (Pipeline.executeStep
      (validate cfg additionalShards clusterName)) m w').take k).map Prod.fst)
      { w with store := w.store.startPipelineStep name "validate", clock := w.clock + 1 } =
      { w with
        podman := { w.podman with clock := n }
        store := w.store.startPipelineStep name "validate"
        clock := w.clock + 1 } by
    obtain ⟨n, hn⟩ := hpodman
    exact ⟨n, w.clock + 1, _, Or.inr rfl, hn⟩
  refine Handler.after_inv (I := fun t => ∃ n, t = { w with
    podman := { w.podman with clock := n }
    store := w.store.startPipelineStep name "validate"
    clock := w.clock + 1 }) ?_ ⟨w.podman.clock, rfl⟩
  rintro t c hc ⟨n, ht⟩
  obtain ⟨x, hx, rfl⟩ := List.mem_map.mp hc
  obtain ⟨c', hc', hreads⟩ := Pipeline.sent_executeStep_of_sends validate_reads m w' x
    (List.mem_of_mem_take hx)
  obtain ⟨n', hn'⟩ := handler_podman_of_reads env t hreads
  exact ⟨n', by rw [hc', hn', ht]⟩

omit hstore in
/-- No step writes a file. -/
theorem steps_noFile {step : Step OpsCmd OpsCmd.Reply Manager}
    (hstep : step ∈ savedSteps cfg saved additionalShards clusterName) :
    Session.Sends (fun c => ¬ c.ToFile) step.action := by
  have hredis : ∀ c : OpsCmd, c.ToRedis → ¬ c.ToFile := by
    rintro (_ | _ | _ | _ | _) hc hf <;> first | exact hc | exact hf
  have hpodman : ∀ c : OpsCmd, c.ToPodman → ¬ c.ToFile := by
    rintro (_ | _ | _ | _ | _) hc hf <;> first | exact hc | exact hf
  have hstore : ∀ c : OpsCmd, c.ToStore → ¬ c.ToFile := by
    rintro (_ | _ | _ | _ | _) hc hf <;> first | exact hc | exact hf
  rw [← List.take_append_drop 7 (savedSteps _ _ _ _), List.mem_append] at hstep
  rcases hstep with hstep | hstep
  · exact steps_sends hredis hpodman hstep
  · obtain rfl := List.mem_singleton.mp hstep
    exact (persistDb_sends (Or.inr rfl)).mono hstore

omit hstore in
theorem files_handler {c : OpsCmd} (hc : ¬ c.ToFile) : (env.handler w c).2.files = w.files := by
  rcases c with c | c | c | c | l
  · rfl
  · rfl
  · rw [handler_store_eq]
  · exact absurd trivial hc
  · rfl

variable (cfg saved additionalShards clusterName) in
/-- What a second process finds when a step has been recorded. -/
inductive Found (cs : List Container) (t : World ρ) : Prop
  /-- The first `j` steps are recorded. -/
  | begun (j : ℕ) (hpos : 0 < j) (hle : j ≤ 7)
      (hrecords : ∀ n, n ∈ t.store.loadPipelineSteps (pipelineName clusterName) ↔
        n ∈ ((savedSteps cfg saved additionalShards clusterName).take j).map Step.name)
      (hfirst : j = 2 → 1 ∈ nodeSet clusterName cs → 1 ∈ nodeSet clusterName t.podman.containers)
  /-- The records have been deleted again, and the containers are there. -/
  | done (hrecords : ∀ n ∈ t.store.loadPipelineSteps (pipelineName clusterName), n = "persist-db")
      (hgrown : (nodeSet clusterName cs).ncard + (additionalShards * saved.nodesPerShard).toNat ≤
        (nodeSet clusterName t.podman.containers).ncard)

theorem found_through (hp : p.persist = some storePersister)
    (hname : p.name = pipelineName clusterName)
    (hdb : cfg.dbPath ≠ "") (hnone : ∀ n, ¬ completed n)
    (h : p.Completes env.handler (savedSteps cfg saved additionalShards clusterName) completed m w
      completed' m' w') : Found cfg saved additionalShards clusterName w.podman.containers w' := by
  refine .done (fun n hn => ?_) (ncard_nodeSet_of_completes hp
    (fun step hstep => List.mem_of_mem_drop (i := 3) hstep) h (hnone _))
  -- the records are deleted by the last step, which is recorded afterwards
  obtain ⟨c₁, m₁, w₁, m₂, w₂, -, hrows, hend⟩ := h.at_step
    ((savedSteps cfg saved additionalShards clusterName).take 7) (hnone _)
    (by decide : "persist-db" ∉ ["validate", "sync-state", "create-containers", "meet-nodes",
      "update-topology", "set-roles", "migrate-slots"])
  cases hend
  obtain ⟨r, n', hexec⟩ := exec_persistDb hstore (show (savedConfig cfg saved).dbPath ≠ "" from hdb)
    additionalShards saved.nodesPerShard clusterName m₁ (p.started env.handler _ w₁)
  cases hexec.symm.trans (Pipeline.action_of_executeStep_ok rfl hrows)
  rw [saved_eq hstore hp, hname] at hn
  rcases Store.recorded_savePipelineStep.mp (Store.mem_loadPipelineSteps.mp hn) with hn | hn
  · exact absurd rfl (Store.recorded_deletePipeline.mp hn).2
  · exact hn.2

/-- The containers that are tracked when they are created. -/
theorem num_of_completes (hp : p.persist = some storePersister) (hnone : ∀ n, ¬ completed n)
    (h : p.Completes env.handler
      ((savedSteps cfg saved additionalShards clusterName).take 2) completed
      m w completed' m' w') :
    m'.nodeManager.num ≠ 0 ∧ w'.podman.containers = w.podman.containers := by
  obtain ⟨m₁, w₁, hval, hsync⟩ := h.cons_inv (hnone _)
  obtain ⟨-, -, hnum, -, -, hcontainers⟩ :=
    validate_ok (Pipeline.action_of_executeStep_ok rfl hval)
  have hsync := hsync.inv (tell_unchanged hstore hp) (fun step hstep =>
    unchanged additionalShards saved.nodesPerShard clusterName
      (by rw [List.mem_singleton.mp hstep]; simp)) (Unchanged.refl _ _)
  refine ⟨by rwa [hsync.nodeManager], ?_⟩
  rw [hsync.containers, saved_podman hstore hp, hcontainers, started_podman hstore hp]

theorem found_busy (hp : p.persist = some storePersister)
    (hname : p.name = pipelineName clusterName)
    (hnone : ∀ n, ¬ completed n)
    (hfresh : ∀ n, n ∉ w.store.loadPipelineSteps (pipelineName clusterName))
    {pre post : List (Step OpsCmd OpsCmd.Reply Manager)} {step : Step OpsCmd OpsCmd.Reply Manager}
    (hsteps : savedSteps cfg saved additionalShards clusterName = pre ++ step :: post)
    (hpos : pre ≠ [])
    (h : p.Completes env.handler pre completed m w completed' m' w') (k : ℕ) :
    Found cfg saved additionalShards clusterName w.podman.containers
      (env.handler.after ((((OpsCmd.store (.startPipelineStep p.name step.name), w') ::
        Session.sent env.handler (Pipeline.executeStep step) m'
          (p.started env.handler step w')).take k).map Prod.fst) w') := by
  have hpre : (savedSteps cfg saved additionalShards clusterName).take pre.length = pre := by
    rw [hsteps, List.take_left]
  have hdrop : (savedSteps cfg saved additionalShards clusterName).drop pre.length =
      step :: post := by
    rw [hsteps, List.drop_left]
  have hlen : pre.length + (post.length + 1) = 8 := by
    have := congrArg List.length hsteps
    rw [List.length_append, List.length_cons] at this
    exact this.symm
  have hpos' : 0 < pre.length := List.length_pos_iff.mpr hpos
  have hrecorded : ∀ n, n ∈ w'.store.loadPipelineSteps (pipelineName clusterName) ↔
      n ∈ pre.map Step.name := by
    intro n
    rw [← hname]
    refine h.mem_recorded_iff (s := storeIn hstore) hp (fun step' hstep' => ?_) hnone
      (fun n hn => hfresh n (hname ▸ hn)) n
    rw [← hpre] at hstep'
    exact steps_leave hstore p.name (List.take_subset_take_left _ (by omega) hstep')
  rw [hname]
  rcases Nat.lt_or_ge pre.length 7 with hlt | hge
  · have hstep : step ∈ (savedSteps cfg saved additionalShards clusterName).take 7 := by
      rw [hsteps, List.take_append]
      refine List.mem_append_right _ ?_
      obtain ⟨i, hi⟩ : ∃ i, 7 - pre.length = i + 1 := ⟨6 - pre.length, by omega⟩
      rw [hi, List.take_succ_cons]
      exact List.mem_cons_self
    refine .begun pre.length hpos' (by omega) (fun n => ?_) fun htwo hfirst => ?_
    · rw [mem_recorded_busy hstore hstep, hrecorded, hpre]
    · rw [htwo] at hpre
      subst hpre
      rw [htwo] at hdrop
      obtain ⟨rfl, -⟩ := List.cons.inj hdrop
      obtain ⟨hnum, hcontainers⟩ := num_of_completes hstore hp hnone h
      rw [← hcontainers] at hfirst
      exact first_mem_nodeSet hnum hfirst k
  · obtain hseven : pre.length = 7 := by omega
    rw [hseven] at hpre hdrop
    subst hpre
    obtain ⟨rfl, -⟩ := List.cons.inj hdrop
    obtain ⟨hcontainers, hsame | hdeleted⟩ := recorded_persistDb hstore m' w'
      (p.started env.handler _ w') k
    · exact .begun 7 (by decide) (by decide) (fun n => (hsame n).trans (hrecorded n)) nofun
    · refine .done (fun n hn => absurd hn (hdeleted n)) ?_
      rw [hcontainers]
      exact ncard_nodeSet_of_completes hp (fun step hstep =>
        List.mem_of_mem_take (i := 7) (List.mem_of_mem_drop (i := 3) hstep)) h (hnone _)

/-- **What is left when a process dies** before any step has failed. -/
theorem crash_found (hdb : cfg.dbPath ≠ "")
    (hfresh : w.store.loadPipelineSteps (pipelineName clusterName) = []) {k : ℕ}
    (hrunning : ∀ x ∈ (env.requests (scaleClusterAction cfg additionalShards clusterName) w).take k,
      ¬ x.1.notesFailure) :
    (∃ n n' s, (s = w.store ∨ s = w.store.startPipelineStep (pipelineName clusterName) "validate") ∧
      env.crash (scaleClusterAction cfg additionalShards clusterName) w k =
        { w with podman := { w.podman with clock := n }, store := s, clock := n' }) ∨
    ∃ saved, (env.handler w (.file (.readFromYAMLFile
        (cfg.clusterRuntimeConfigPath clusterName)))).1 = .ok saved ∧
      (env.crash (scaleClusterAction cfg additionalShards clusterName) w k).files = w.files ∧
      Found cfg saved additionalShards clusterName w.podman.containers
        (env.crash (scaleClusterAction cfg additionalShards clusterName) w k) := by
  rcases crash_cases hstore hdb additionalShards clusterName w k with
    ⟨n, hn⟩ | ⟨p, m₀, w₀, k', hprep, hmem, hcrash⟩
  · exact Or.inl ⟨w.podman.clock, n, w.store, Or.inl rfl, hn⟩
  obtain ⟨saved, ⟨-, hread⟩, hp, rfl, rfl⟩ := prepare_ok hstore hdb hprep
  have hpersist : p.persist = some storePersister := by rw [hp]
  have hname : p.name = pipelineName clusterName := by rw [hp]
  have hnone : ∀ n, ¬ p.completed n := by
    rw [hp]
    simp [hfresh]
  have hsteps : p.steps = savedSteps cfg saved additionalShards clusterName := by rw [hp]
  have hstands := Pipeline.stands_runFrom (s := storeIn hstore) hpersist [] p.steps p.completed
    (newClusterManager (savedConfig cfg saved) saved.nodesPerShard)
    { w with clock := w.clock + 1 + 1 + 1 } k'
  change Pipeline.Stands _ _ _ _ _ _ ((Session.sent env.handler p.run _ _).take k') at hstands
  rw [hsteps] at hstands
  generalize (Session.sent env.handler p.run _ _).take k' = l at hstands hmem hcrash
  have hrunning' : ∀ n, (storeIn hstore).send (.failPipelineStep p.name n) ∉ l.map Prod.fst := by
    intro n hn
    obtain ⟨x, hx, hxn⟩ := List.mem_map.mp hn
    refine hrunning x (hmem x hx) ?_
    rw [hxn]
    rfl
  have hfiles := hstands.inv hpersist hrunning' (P := fun c => ¬ c.ToFile) (fun _ h => h)
    (fun step hstep => steps_noFile hstep) (J := fun t => t.files = w.files)
    (fun t c hc ht => (files_handler hc).trans ht) rfl
  rw [hcrash]
  cases hstands with
  | failed step hfailed => exact absurd hfailed (hrunning' _)
  | through completed' m' w' hall hafter hsaved =>
    rw [hafter] at hfiles ⊢
    have hfound := found_through hstore hpersist hname hdb hnone hall
    exact Or.inr ⟨saved, hread, hfiles, hfound⟩
  | busy pre post step completed₁ m₁ w₁ l₀ k₀ hpost hpre hnot hl hafter hsaved =>
    rw [hl, List.map_append, Handler.after_append, hafter] at hfiles ⊢
    by_cases hpos : pre = []
    · -- the process has died in the first step
      subst hpos
      obtain ⟨rfl, -⟩ := List.cons.inj hpost
      cases hpre
      obtain ⟨n, n', s, hs, ht⟩ := after_validate hstore { w with clock := w.clock + 1 + 1 + 1 }
        p.name k₀
      exact Or.inl ⟨n, n', s, hname ▸ hs, ht⟩
    · have hfound := found_busy hstore hpersist hname hnone (fun n hn => by simp [hfresh] at hn)
        hpost hpos hpre k₀
      exact Or.inr ⟨saved, hread, hfiles, hfound⟩

end First

/-! ### What the second process does -/

section Second

variable {env : OpsEnv ρ} {cfg : RuntimeConfig} {additionalShards : ℤ} {clusterName : String}
  {u : World ρ} (hstore : ∀ n c, env.storeError n c = none) (hdb : cfg.dbPath ≠ "")

theorem fst_handler_file (env : OpsEnv ρ) (w : World ρ) (c : FileCmd) :
    (env.handler w (.file c)).1 = match env.fileError w.clock c with
      | none => w.files.reply c
      | some err => Files.failure err c (w.files.reply c) := by
  simp only [OpsEnv.handler]
  cases env.fileError w.clock c <;> rfl

include hstore

theorem exec_runPipeline_started {p : Pipeline OpsCmd OpsCmd.Reply Manager}
    {saved : RedisClusterConfig}
    (hsteps : p.steps = savedSteps cfg saved additionalShards clusterName)
    (hp : p.persist = some storePersister) (hname : p.name = pipelineName clusterName)
    (hnot : ¬ p.completed "validate") (msg : String) (m : Manager) (u : World ρ) :
    Session.exec env.handler (runPipeline p msg) m
        { u with store := u.store.startPipelineStep (pipelineName clusterName) "validate" } =
      Session.exec env.handler (runPipeline p msg) m u := by
  have hrun : Session.exec env.handler p.run m
      { u with store := u.store.startPipelineStep (pipelineName clusterName) "validate" } =
        Session.exec env.handler p.run m u := by
    rw [Pipeline.run, hsteps]
    refine Pipeline.exec_runFrom_congr hnot ?_ _ _ _
    rw [started_eq hstore hp, started_eq hstore hp, hname]
    exact congrArg (fun s => { u with store := s, clock := u.clock + 1 })
      Store.startPipelineStep_startPipelineStep
  rw [runPipeline, Session.exec_bind, Session.exec_bind, hrun]

include hdb

/-- That the first step is noted as running makes no difference. -/
theorem invoke_started (hfresh : u.store.loadPipelineSteps (pipelineName clusterName) = [])
    (hok : (env.invoke (scaleClusterAction cfg additionalShards clusterName) u).1 = .ok ⟨⟩) :
    env.invoke (scaleClusterAction cfg additionalShards clusterName)
        { u with store := u.store.startPipelineStep (pipelineName clusterName) "validate" } =
      env.invoke (scaleClusterAction cfg additionalShards clusterName) u := by
  obtain ⟨p, m₀, w₀, -, -, hprep, -⟩ := invoke_pipeline
    (Prod.ext hok rfl : env.invoke (scaleClusterAction cfg additionalShards clusterName) u = (_, _))
  obtain ⟨saved, ⟨hbackend, hread⟩, hp, rfl, rfl⟩ := prepare_ok hstore hdb hprep
  have hread' : (env.handler
      { u with store := u.store.startPipelineStep (pipelineName clusterName) "validate" }
      (.file (.readFromYAMLFile (cfg.clusterRuntimeConfigPath clusterName)))).1 = .ok saved := by
    rw [fst_handler_file] at hread ⊢
    exact hread
  have hrecords : (fun n => decide (n ∈ (u.store.startPipelineStep (pipelineName clusterName)
      "validate").loadPipelineSteps (pipelineName clusterName))) =
      fun n => decide (n ∈ u.store.loadPipelineSteps (pipelineName clusterName)) := by
    refine funext fun n => decide_eq_decide.mpr ?_
    rw [Store.mem_loadPipelineSteps, Store.recorded_startPipelineStep, Store.mem_loadPipelineSteps]
  have hprep' := exec_prepare_of_read (m := { nodesPerShard := 0 }) hstore hdb additionalShards
    hbackend hread'
  rw [hrecords, ← hp] at hprep'
  rw [OpsEnv.invoke, OpsEnv.invoke, scaleClusterAction, Session.exec_bind_of_ok hprep',
    Session.exec_bind_of_ok hprep]
  have hsteps : p.steps = savedSteps cfg saved additionalShards clusterName := by rw [hp]
  exact congrArg (fun r => (r.1.1, r.2)) (exec_runPipeline_started hstore hsteps (by rw [hp])
    (by rw [hp]) (by simp [hp, hfresh]) _ _ { u with clock := u.clock + 1 + 1 + 1 })

omit hstore hdb in
/-- Podman that does its work creates the containers when it is first asked to. -/
theorem createContainers_of_podmanSucceeds {saved : RedisClusterConfig}
    {p : Pipeline OpsCmd OpsCmd.Reply Manager} {completed : String → Bool} {m₀ m₁ : Manager}
    {w₀ w₁ : World ρ}
    (hpodman : env.PodmanSucceeds (scaleClusterAction cfg additionalShards clusterName) u)
    (hprep : Session.exec env.handler (prepare cfg additionalShards clusterName)
      { nodesPerShard := 0 } u = ((.ok p, m₀), w₀))
    (hpersist : ∃ s : StoreIn env.handler, p.persist = some s.persister)
    (hsteps : p.steps = savedSteps cfg saved additionalShards clusterName)
    (hbefore : p.Completes env.handler ((savedSteps cfg saved additionalShards clusterName).take 2)
      p.completed m₀ w₀ completed m₁ w₁) (hnot : ¬ completed "create-containers") :
    (Session.exec env.handler (createPodsForCluster (savedConfig cfg saved) clusterName
      (additionalShards * saved.nodesPerShard)) m₁ (p.started env.handler (createContainers
        (savedConfig cfg saved) additionalShards saved.nodesPerShard clusterName) w₁)).1.1 =
      .ok ⟨⟩ := by
  obtain ⟨s, hpersist⟩ := hpersist
  have hanswered : (createPods (savedConfig cfg saved) m₁.nodeManager
      (additionalShards * saved.nodesPerShard) clusterName).Answered (podmanHandler env.podman)
      (fun c r => c.succeeds r) (p.started env.handler (createContainers (savedConfig cfg saved)
        additionalShards saved.nodesPerShard clusterName) w₁).podman := by
    intro x hx
    -- the request is one of those of the whole run
    have hmem : (OpsCmd.podman x.1,
      { p.started env.handler (createContainers (savedConfig cfg saved)
        additionalShards saved.nodesPerShard clusterName) w₁ with podman := x.2 }) ∈
        env.requests (scaleClusterAction cfg additionalShards clusterName) u := by
      rw [OpsEnv.requests, scaleClusterAction, Session.sent_bind_of_ok hprep, sent_runPipeline,
        Pipeline.run, hsteps]
      refine List.mem_append_right _ (hbefore.sent_executeStep hpersist hnot [] _ ?_)
      refine Pipeline.sent_executeStep_of_action (by decide : (0 : ℤ) ≤ 1) ?_
      rw [createContainers, sent_createPodsForCluster]
      exact List.mem_map.mpr ⟨x, hx, rfl⟩
    exact hpodman _ hmem
  have hok := createPodsFrom_of_answered _ hanswered
  rw [exec_createPodsForCluster]
  simp only [createPods, hok]

/-- How an uninterrupted run ends. -/
theorem whole_ok (hfresh : u.store.loadPipelineSteps (pipelineName clusterName) = [])
    (hok : (env.invoke (scaleClusterAction cfg additionalShards clusterName) u).1 = .ok ⟨⟩)
    (hpodman : env.PodmanSucceeds (scaleClusterAction cfg additionalShards clusterName) u) :
    ∃ (saved : RedisClusterConfig) (start masters : ℕ),
      (env.handler u (.file (.readFromYAMLFile
        (cfg.clusterRuntimeConfigPath clusterName)))).1 = .ok saved ∧
      0 < additionalShards * saved.nodesPerShard ∧ 2 ≤ start ∧ 0 < masters ∧
      nodeSet clusterName
          (env.invoke (scaleClusterAction cfg additionalShards clusterName) u).2.podman.containers =
        nodeSet clusterName u.podman.containers ∪
          Finset.Ico start (start + (additionalShards * saved.nodesPerShard).toNat) ∧
      (nodeSet clusterName
          (env.invoke (scaleClusterAction cfg additionalShards clusterName)
            u).2.podman.containers).ncard =
        (nodeSet clusterName u.podman.containers).ncard +
          (additionalShards * saved.nodesPerShard).toNat ∧
      ((env.invoke (scaleClusterAction cfg additionalShards clusterName) u).2.store.getCluster
        clusterName).map ClusterRecord.shards = some (masters : ℤ) := by
  have hinvoke : env.invoke (scaleClusterAction cfg additionalShards clusterName) u =
      (.ok ⟨⟩, (env.invoke (scaleClusterAction cfg additionalShards clusterName) u).2) :=
    Prod.ext hok rfl
  have hbackend : (Op.scale cfg additionalShards clusterName).CreatesAtOnce env u := by
    obtain ⟨p, m₀, w₀, completed', m', hprep, hrun⟩ := invoke_pipeline hinvoke
    obtain ⟨saved, -, hp, -, -⟩ := prepare_ok hstore hdb hprep
    have hpersist : p.persist = some storePersister := by rw [hp]
    have hsteps : p.steps = savedSteps cfg saved additionalShards clusterName := by rw [hp]
    have hnot : ¬ p.completed "create-containers" := by
      rw [hp]
      simp [hfresh]
    rw [hsteps] at hrun
    obtain ⟨c₁, m₁, w₁, m₂, w₂, hbefore, -, -⟩ := hrun.at_step
      ((savedSteps cfg saved additionalShards clusterName).take 2) hnot
      (by decide : "create-containers" ∉ ["validate", "sync-state"])
    have hnot₁ : ¬ c₁ "create-containers" := by
      rwa [hbefore.completed_of_notMem
        (by decide : "create-containers" ∉ ["validate", "sync-state"])]
    have hcreate := createContainers_of_podmanSucceeds hpodman hprep
      ⟨storeIn hstore, hpersist⟩ hsteps
      hbefore hnot₁
    rw [← hsteps] at hbefore
    rw [Op.CreatesAtOnce, OpsEnv.invoke, Session.exec_bind_of_ok hprep,
      hbefore.exec_tryAt (by rw [hsteps]; rfl)]
    exact hcreate
  obtain ⟨saved, base, m, s, s', hread, hnum, hsum, hmasters, hcreated, hs, hs', hwrites, -⟩ :=
    run_ok hstore hdb hbackend hfresh hinvoke
  obtain ⟨r, hr, hshards, -⟩ := hwrites.cluster
  refine ⟨saved, base.num + 1, m.topo.masterIDs.length, hread, hsum, by omega,
    List.length_pos_iff.mpr hmasters, ?_, ?_, ?_⟩
  · rw [hs', hcreated.nodeSet_eq, hs]
  · rw [hs', hcreated.ncard_nodeSet, hs]
  · exact Option.map_eq_some_iff.mpr ⟨r, hr, hshards⟩

omit hstore hdb in
/-- A new process has nothing to go on with: it has no node to log in to, no new nodes to give
roles to, and no master that waits for slots. -/
theorem not_executeStep_of_new {saved : RedisClusterConfig} {j : ℕ} {m' : Manager} {w w' : World ρ}
    {step : Step OpsCmd OpsCmd.Reply Manager}
    (hget : (savedSteps cfg saved additionalShards clusterName)[j]? = some step) (hpos : 0 < j)
    (htwo : j ≠ 2) (hlt : j < 7) (hsum : 0 < additionalShards * saved.nodesPerShard)
    (h : Session.exec env.handler (Pipeline.executeStep step)
      (newClusterManager (savedConfig cfg saved) saved.nodesPerShard) w =
        ((.ok (.ok ⟨⟩), m'), w')) :
    False := by
  obtain rfl | rfl | rfl | rfl | rfl : j = 1 ∨ j = 3 ∨ j = 4 ∨ j = 5 ∨ j = 6 := by omega
  · cases hget
    cases Pipeline.action_of_executeStep_ok rfl h
  · cases hget
    cases Pipeline.action_of_executeStep_ok rfl h
  · cases hget
    cases Pipeline.action_of_executeStep_ok rfl h
  · cases hget
    obtain ⟨hle, -⟩ := setRoles_inv (Pipeline.action_of_executeStep_ok rfl h)
    exact absurd hsum (not_lt.mpr hle)
  · cases hget
    exact (migrateSlots_ok h).1 rfl

omit hstore hdb in
/-- Settings that are read are in the file. -/
theorem reply_of_read {path : String} {saved : RedisClusterConfig}
    (h : (env.handler u (.file (.readFromYAMLFile path))).1 = .ok saved) :
    u.files.reply (.readFromYAMLFile path) = .ok saved := by
  rw [fst_handler_file] at h
  cases hr : env.fileError u.clock (.readFromYAMLFile path) with
  | none =>
    rw [hr] at h
    exact h
  | some err =>
    rw [hr] at h
    cases h

omit hdb in
/-- A new process that has not listed the containers creates the first one. -/
theorem creates_first {saved : RedisClusterConfig} {p : Pipeline OpsCmd OpsCmd.Reply Manager}
    {completed' : String → Bool} {m₀ m' : Manager} {w₀ w' : World ρ}
    (hpodman : env.PodmanSucceeds (scaleClusterAction cfg additionalShards clusterName) u)
    (hprep : Session.exec env.handler (prepare cfg additionalShards clusterName)
      { nodesPerShard := 0 } u = ((.ok p, m₀), w₀)) (hp : p.persist = some storePersister)
    (hsteps : p.steps = savedSteps cfg saved additionalShards clusterName)
    (hsum : 0 < additionalShards * saved.nodesPerShard)
    (hskip : p.Completes env.handler ((savedSteps cfg saved additionalShards clusterName).take 2)
      p.completed m₀ w₀ p.completed m₀ w₀) (hnot : ¬ p.completed "create-containers")
    (hnum : m₀.nodeManager.num = 0)
    (hrun : p.Completes env.handler ((savedSteps cfg saved additionalShards clusterName).drop 2)
      p.completed m₀ w₀ completed' m' w') :
    1 ∉ nodeSet clusterName w₀.podman.containers ∧
      1 ∈ nodeSet clusterName w'.podman.containers := by
  have hpos : 0 < (additionalShards * saved.nodesPerShard).toNat := by omega
  obtain ⟨m₁, w₁, hexec, hrest⟩ := hrun.cons_inv hnot
  have htry := createContainers_of_podmanSucceeds hpodman hprep
    ⟨storeIn hstore, hp⟩ hsteps hskip hnot
  rcases hr : Session.exec env.handler (createPodsForCluster (savedConfig cfg saved) clusterName
    (additionalShards * saved.nodesPerShard)) m₀ (p.started env.handler (createContainers
      (savedConfig cfg saved) additionalShards saved.nodesPerShard clusterName) w₀)
    with ⟨⟨r, m₂⟩, w₂⟩
  rw [hr] at htry
  obtain rfl : r = .ok ⟨⟩ := htry
  cases (Pipeline.executeStep_of_ok (by decide : (0 : ℤ) ≤ 1) hr).symm.trans hexec
  obtain ⟨-, -, hcreated⟩ := createPodsForCluster_ok hr
  rw [hnum] at hcreated
  constructor
  · have hfresh := hcreated.fresh 0 hpos
    rw [started_podman hstore hp] at hfresh
    exact hfresh
  · have hmem : 1 ∈ nodeSet clusterName w₁.podman.containers := by
      rw [hcreated.nodeSet_eq]
      refine Or.inr ?_
      rw [Finset.coe_Ico, Set.mem_Ico]
      omega
    obtain ⟨c, hc, hname⟩ := List.mem_map.mp hmem
    refine List.mem_map.mpr ⟨c, ?_, hname⟩
    refine hrest.inv (I := Kept c) (tell_keeps (Or.inr hp)) (fun step hstep => ?_)
      ((tell_keeps (Or.inr hp)).saved _ m₁ w₁ hc)
    exact containers_kept (Or.inr rfl) (List.mem_of_mem_drop (i := 3) hstep)

/-- A new process that has not read the roles records no shards. -/
theorem shards_of_new {saved : RedisClusterConfig} {p : Pipeline OpsCmd OpsCmd.Reply Manager}
    {completed' : String → Bool} {m₀ m' : Manager} {w₀ w' : World ρ}
    (hp : p.persist = some storePersister) (hnot : ¬ p.completed "persist-db")
    (hmasters : m₀.topo.masterIDs = [])
    (hrun : p.Completes env.handler ((savedSteps cfg saved additionalShards clusterName).drop 7)
      p.completed m₀ w₀ completed' m' w') :
    (w'.store.getCluster clusterName).map ClusterRecord.shards = some 0 := by
  obtain ⟨m₁, w₁, hexec, hrest⟩ := hrun.cons_inv hnot
  cases hrest
  obtain ⟨r, n, hrows⟩ := exec_persistDb hstore (show (savedConfig cfg saved).dbPath ≠ "" from hdb)
    additionalShards saved.nodesPerShard clusterName m₀ (p.started env.handler _ w₀)
  cases hrows.symm.trans (Pipeline.action_of_executeStep_ok rfl hexec)
  obtain ⟨row, hrow, hshards, -⟩ := Store.exists_getCluster_recordCluster
    (s := (p.started env.handler (persistDb (savedConfig cfg saved) additionalShards
      saved.nodesPerShard clusterName (some storePersister)) w₀).store)
    (clusterRecord (savedConfig cfg saved) clusterName m₀.topo.masterIDs.length saved.nodesPerShard)
    (containerRecords m₀ clusterName)
  rw [(saved_sameRows hstore hp _ _).getCluster]
  refine Option.map_eq_some_iff.mpr ⟨row, hrow, hshards.trans ?_⟩
  rw [hmasters]
  rfl

/-- **A second process that finds records does not come to the same.** -/
theorem not_resumes_of_found {V : Type} {view : ρ → V} {saved : RedisClusterConfig} {w t : World ρ}
    (hfresh : w.store.loadPipelineSteps (pipelineName clusterName) = [])
    (hread : (env.handler w (.file (.readFromYAMLFile
      (cfg.clusterRuntimeConfigPath clusterName)))).1 = .ok saved)
    (hfiles : t.files = w.files)
    (hfound : Found cfg saved additionalShards clusterName w.podman.containers t)
    (hwhole : (env.invoke (scaleClusterAction cfg additionalShards clusterName)
      (w.atTimeOf t)).1 = .ok ⟨⟩)
    (hpodman : env.PodmanSucceeds (scaleClusterAction cfg additionalShards clusterName)
      (w.atTimeOf t))
    (hpodman' : env.PodmanSucceeds (scaleClusterAction cfg additionalShards clusterName) t) :
    ¬ Resumes env view cfg additionalShards clusterName w t := by
  rintro ⟨hok, hsame⟩
  obtain ⟨saved', start, masters, hread', hsum, hstart, hmasters, hnodes, hcard, hshards⟩ :=
    whole_ok hstore hdb (u := w.atTimeOf t) hfresh hwhole hpodman
  obtain ⟨p, m₀, w₀, completed', m', hprep, hrun⟩ := invoke_pipeline
    (Prod.ext hok rfl : env.invoke (scaleClusterAction cfg additionalShards clusterName) t = (_, _))
  obtain ⟨saved'', ⟨-, hread''⟩, hp, rfl, rfl⟩ := prepare_ok hstore hdb hprep
  -- the three processes read the same file
  have hfile := reply_of_read hread
  have hfile' := reply_of_read hread'
  have hfile'' := reply_of_read hread''
  rw [hfiles] at hfile''
  obtain rfl : saved' = saved := Except.ok.inj (hfile'.symm.trans hfile)
  obtain rfl : saved'' = saved' := Except.ok.inj (hfile''.symm.trans hfile)
  have hpersist : p.persist = some storePersister := by rw [hp]
  have hsteps : p.steps = savedSteps cfg saved'' additionalShards clusterName := by rw [hp]
  have hcompleted : ∀ n, p.completed n ↔
      n ∈ t.store.loadPipelineSteps (pipelineName clusterName) := by
    intro n
    rw [hp]
    exact decide_eq_true_iff
  rw [hsteps] at hrun
  cases hfound with
  | done hrecords hgrown =>
    -- it creates the containers once more
    have hnot : ¬ p.completed "create-containers" := fun h =>
      absurd (hrecords _ ((hcompleted _).mp h)) (by decide)
    have hmore := ncard_nodeSet_of_completes hpersist (fun step hstep =>
      List.mem_of_mem_drop (i := 3) hstep) hrun hnot
    rw [hsame.nodes, hcard] at hmore
    have hw : (w.atTimeOf t).podman.containers = w.podman.containers := rfl
    rw [hw] at hmore
    dsimp only at hmore
    omega
  | begun j hpos hle hrecords hfirst =>
    -- it passes over the recorded steps and has not their memory
    rw [← List.take_append_drop j (savedSteps cfg saved'' additionalShards clusterName)] at hrun
    obtain ⟨c₁, m₁, w₁, hskip, hrest⟩ := hrun.append_inv
    obtain ⟨rfl, rfl, rfl⟩ := hskip.eq_of_completed fun step hstep =>
      (hcompleted _).mpr ((hrecords _).mpr (List.mem_map_of_mem hstep))
    obtain ⟨step, hget⟩ : ∃ step,
        (savedSteps cfg saved'' additionalShards clusterName)[j]? = some step :=
      ⟨_, List.getElem?_eq_getElem (show j < 8 by omega)⟩
    have hnames : (p.steps.map Step.name).Nodup := by
      rw [hsteps]
      exact (by decide : ["validate", "sync-state", "create-containers", "meet-nodes",
        "update-topology", "set-roles", "migrate-slots", "persist-db"].Nodup)
    have hnot : ¬ p.completed step.name :=
      fun h => Pipeline.name_notMem_take hnames (Nat.le_refl j) (by rw [hsteps]; exact hget)
      (by rw [hsteps]; exact (hrecords _).mp ((hcompleted _).mp h))
    by_cases htwo : j = 2
    · subst htwo
      cases hget
      obtain ⟨hno, hyes⟩ := creates_first hstore hpodman' hprep hpersist hsteps hsum hskip hnot rfl
        hrest
      rw [hsame.nodes, hnodes] at hyes
      refine hno (hfirst rfl (hyes.resolve_right fun h => ?_))
      rw [Finset.coe_Ico, Set.mem_Ico] at h
      omega
    by_cases hseven : j = 7
    · subst hseven
      cases hget
      have hzero := shards_of_new hstore hdb hpersist hnot rfl hrest
      rw [hsame.shards, hshards] at hzero
      have := Option.some.inj hzero
      omega
    · have hdrop : (savedSteps cfg saved'' additionalShards clusterName).drop j =
          step :: (savedSteps cfg saved'' additionalShards clusterName).drop (j + 1) := by
        obtain ⟨hj, rfl⟩ := List.getElem?_eq_some_iff.mp hget
        rw [List.getElem_cons_drop]
      rw [hdrop] at hrest
      obtain ⟨m₂, w₂, hexec, -⟩ := hrest.cons_inv hnot
      exact not_executeStep_of_new hget hpos htwo (by omega) hsum hexec

omit hstore hdb in
/-- What has been recorded, or created, can be seen. -/
theorem Found.not_untouched {saved : RedisClusterConfig} {w t : World ρ}
    (h : Found cfg saved additionalShards clusterName w.podman.containers t)
    (hsum : 0 < additionalShards * saved.nodesPerShard) : ¬ Untouched clusterName w t := by
  rintro ⟨hnone, hsame⟩
  cases h with
  | begun j hpos _ hrecords _ =>
    have hmem : "validate" ∈ t.store.loadPipelineSteps (pipelineName clusterName) := by
      refine (hrecords _).mpr ?_
      obtain ⟨i, rfl⟩ : ∃ i, j = i + 1 := ⟨j - 1, by omega⟩
      exact List.mem_cons_self
    rw [hnone] at hmem
    cases hmem
  | done _ hgrown =>
    rw [hsame] at hgrown
    omega

/-- **A scale-out can be begun again as long as nothing has been recorded, and no longer.** A
process dies after `k` requests, before any of its steps has failed, and a second one is begun in
what it has left, where podman and the store do what they are asked to do. -/
theorem resumes_iff {V : Type} (view : ρ → V) {w : World ρ}
    (hfresh : w.store.loadPipelineSteps (pipelineName clusterName) = []) {k : ℕ}
    (hrunning : ∀ x ∈ (env.requests (scaleClusterAction cfg additionalShards clusterName) w).take k,
      ¬ x.1.notesFailure)
    (hwhole : (env.invoke (scaleClusterAction cfg additionalShards clusterName) (w.atTimeOf
      (env.crash (scaleClusterAction cfg additionalShards clusterName) w k))).1 = .ok ⟨⟩)
    (hpodman : env.PodmanSucceeds (scaleClusterAction cfg additionalShards clusterName) (w.atTimeOf
      (env.crash (scaleClusterAction cfg additionalShards clusterName) w k)))
    (hpodman' : env.PodmanSucceeds (scaleClusterAction cfg additionalShards clusterName)
      (env.crash (scaleClusterAction cfg additionalShards clusterName) w k)) :
    Resumes env view cfg additionalShards clusterName w
        (env.crash (scaleClusterAction cfg additionalShards clusterName) w k) ↔
      Untouched clusterName w
        (env.crash (scaleClusterAction cfg additionalShards clusterName) w k) := by
  have hcrash := crash_found hstore hdb hfresh hrunning
  generalize env.crash (scaleClusterAction cfg additionalShards clusterName) w k = t at *
  rcases hcrash with ⟨n, n', s, hs, ht⟩ | ⟨saved, hread, hfiles, hfound⟩
  · have heq : t = { w.atTimeOf t with store := s } := by
      rw [ht]
      rfl
    have hsame : env.invoke (scaleClusterAction cfg additionalShards clusterName) t =
        env.invoke (scaleClusterAction cfg additionalShards clusterName) (w.atTimeOf t) := by
      rcases hs with rfl | rfl
      · exact congrArg _ heq
      · exact (congrArg _ heq).trans (invoke_started hstore hdb hfresh hwhole)
    refine iff_of_true ⟨by rw [hsame, hwhole], ?_⟩ ⟨?_, by rw [ht]⟩
    · rw [hsame]
      exact ⟨rfl, rfl, rfl⟩
    · rw [ht]
      refine List.eq_nil_iff_forall_not_mem.mpr fun name hname => ?_
      rcases hs with rfl | rfl
      · exact absurd hname (by simp [hfresh])
      · rw [Store.mem_loadPipelineSteps, Store.recorded_startPipelineStep,
          ← Store.mem_loadPipelineSteps, hfresh] at hname
        cases hname
  · obtain ⟨saved', -, -, hread', hsum, -⟩ := whole_ok hstore hdb (u := w.atTimeOf t) hfresh hwhole
      hpodman
    have hfile := reply_of_read hread
    have hfile' := reply_of_read hread'
    obtain rfl : saved' = saved := Except.ok.inj (hfile'.symm.trans hfile)
    exact iff_of_false (not_resumes_of_found hstore hdb hfresh hread hfiles hfound hwhole hpodman
      hpodman') (hfound.not_untouched hsum)

end Second

/-! ### A cluster of one node -/

/-- Podman without failures; a new container is ready at once. -/
def onePodman : PodmanEnv where
  regex := dotMatch
  create _ spec := { name := spec.name, id := spec.name, ip := "h2", ports := [(6379, 40002)] }

/-- A master with a slot, and a second one without as soon as there is a container for it. -/
def growingEnv : OpsEnv Unit where
  podman := onePodman
  redis cs := frozenRedis (if cs.length < 2 then "x h1:6379@16379 master - 0 0 1 connected 0"
    else "x h1:6379@16379 master - 0 0 1 connected 0\n" ++
      "y h2:6379@16379 master - 0 0 2 connected")

/-- The cluster `a`. -/
def oneNode : World Unit where
  podman := { containers := [
    { name := "a-redis-1", id := "a1", ip := "h1", ports := [(6379, 40001)] }] }
  redis := ()
  files := { rows := [("/srv/runtime/run_time_config.yaml", some ⟨1, 6379⟩)] }

/-- What is left by a process that has died when the first step had been recorded. -/
def afterValidate : World Unit := growingEnv.crash (scaleClusterAction plainConfig 1 "a") oneNode 9

/-- The uninterrupted run comes through, and the one that is begun in what is left does not: it
sends nothing to Redis. All that podman is asked to do is done in both. -/
theorem runs_oneNode :
    ((growingEnv.invoke (scaleClusterAction plainConfig 1 "a")
        (oneNode.atTimeOf afterValidate)).1.isOk ∧
      growingEnv.PodmanSucceeds (scaleClusterAction plainConfig 1 "a")
        (oneNode.atTimeOf afterValidate)) ∧
    (returnsError (growingEnv.invoke (scaleClusterAction plainConfig 1 "a") afterValidate).1 ∧
      growingEnv.PodmanSucceeds (scaleClusterAction plainConfig 1 "a") afterValidate ∧
      ∀ q ∈ growingEnv.requests (scaleClusterAction plainConfig 1 "a") afterValidate,
        ¬ q.1.ToRedis) ∧
    ∀ x ∈ (growingEnv.requests (scaleClusterAction plainConfig 1 "a") oneNode).take 9,
      ¬ x.1.notesFailure := by
  -- in one evaluation, since the parts run the same operation
  decide +kernel

/-- The theorem at this moment. -/
theorem resumes_iff_afterValidate :
    Resumes growingEnv id plainConfig 1 "a" oneNode afterValidate ↔
      Untouched "a" oneNode afterValidate := by
  obtain ⟨⟨hwhole, hpodman⟩, ⟨-, hpodman', -⟩, hrunning⟩ := runs_oneNode
  exact resumes_iff (fun _ _ => rfl) (by decide) id (List.isEmpty_iff.mp rfl) hrunning
    (eq_ok_of_isOk hwhole) hpodman hpodman'

/-- **The second process finds that the first step is done, and does not know a single node.** All
that podman and the store are asked to do is done, and an uninterrupted run would have come
through. -/
theorem not_resumes_afterValidate :
    (growingEnv.invoke (scaleClusterAction plainConfig 1 "a")
        (oneNode.atTimeOf afterValidate)).1 = .ok ⟨⟩ ∧
      growingEnv.PodmanSucceeds (scaleClusterAction plainConfig 1 "a") afterValidate ∧
      (∀ q ∈ growingEnv.requests (scaleClusterAction plainConfig 1 "a") afterValidate,
        ¬ q.1.ToRedis) ∧
      ¬ Resumes growingEnv id plainConfig 1 "a" oneNode afterValidate := by
  obtain ⟨⟨hwhole, -⟩, ⟨hfails, hpodman, hredis⟩, -⟩ := runs_oneNode
  refine ⟨eq_ok_of_isOk hwhole, hpodman, hredis, fun h => ?_⟩
  rw [h.1] at hfails
  cases hfails

end Scale

end ClusterManager
