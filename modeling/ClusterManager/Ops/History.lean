import ClusterManager.Lib.Runs
import ClusterManager.Ops.Shards

/-!
# What the store says after a history of operations

A history is a list of operations on one store, each of which has returned without an
error. `Op.Agrees` is what the rows should say after one of them.

Whether they do hangs on the records of the pipelines. The step `persist-db` deletes the
records of its own pipeline, and is itself recorded as completed afterwards, when it has
returned. So the next time the same operation is called for the same cluster, `persist-db`
is skipped, and no row is written or deleted. `store_agrees` says that nothing else goes
wrong with the operations themselves: in a history no operation of which finds a record of
its own pipeline, the rows are right after each of them. What `scale` writes also depends
on Redis, since it records the masters that the last reply has shown (`rolesShown`).
-/

namespace ClusterManager

variable {ρ : Type}

/-- An operation on a cluster. -/
inductive Op where
  | create (cfg : RuntimeConfig) (shardCount nodesPerShard : ℤ) (clusterName : String)
  | scale (cfg : RuntimeConfig) (additionalShards : ℤ) (clusterName : String)
  | delete (cfg : RuntimeConfig) (clusterName : String)

/-- How many masters of the cluster the last reply shows that a scale-out has read when it
sets the roles. -/
def Scale.rolesShown (env : OpsEnv ρ) (cfg : RuntimeConfig) (additionalShards : ℤ)
    (clusterName : String) (w : World ρ) : Option ℕ :=
  match Session.exec env.handler (do
      let p ← Scale.prepare cfg additionalShards clusterName
      p.reach 5
      return p.steps[5]?) { nodesPerShard := 0 } w with
  | ((.ok (some step), m), w) =>
    (lastShown (env.redis w.podman.containers)
      (redisSent (Session.sent env.handler step.action m w))).map
        (shownMasters m.nodeManager clusterName)
  | _ => none

namespace Op

def cfg : Op → RuntimeConfig
  | create cfg _ _ _ | scale cfg _ _ | delete cfg _ => cfg

def clusterName : Op → String
  | create _ _ _ clusterName | scale _ _ clusterName | delete _ clusterName => clusterName

def pipelineName : Op → String
  | create _ _ _ clusterName => Create.pipelineName clusterName
  | scale _ _ clusterName => Scale.pipelineName clusterName
  | delete _ clusterName => Delete.pipelineName clusterName

def action : Op → OpsM PUnit
  | create cfg shardCount nodesPerShard clusterName =>
    createClusterAction cfg shardCount nodesPerShard clusterName
  | scale cfg additionalShards clusterName => scaleClusterAction cfg additionalShards clusterName
  | delete cfg clusterName => deleteAllContainers cfg clusterName

/-- One more operation of a history: it has to return without an error. -/
def step (env : OpsEnv ρ) (w : World ρ) (op : Op) : Option (World ρ) :=
  match env.invoke op.action w with
  | (.ok _, w') => some w'
  | (.error _, _) => none

/-- The backend creates the containers when it is first asked to. -/
def CreatesAtOnce (env : OpsEnv ρ) (w : World ρ) : Op → Prop
  | create cfg shardCount nodesPerShard clusterName =>
    (env.invoke (do
      let p ← Create.prepare cfg shardCount nodesPerShard clusterName
      p.tryAt 1) w).1 = .ok ⟨⟩
  | scale cfg additionalShards clusterName =>
    (env.invoke (do
      let p ← Scale.prepare cfg additionalShards clusterName
      p.tryAt 2) w).1 = .ok ⟨⟩
  | delete _ _ => True

/-- The operation finds no record of its pipeline, and nothing else is in its way: a cluster
that is created has no rows of other containers, and a cluster that is scaled has, when the
roles are set, as many masters more as it is scaled by. -/
def Fresh (env : OpsEnv ρ) (w : World ρ) (op : Op) : Prop :=
  w.store.loadPipelineSteps op.pipelineName = [] ∧
  match op with
  | create _ shardCount nodesPerShard clusterName =>
    ∀ name ∈ w.store.containerNames clusterName,
      ∃ i < (shardCount * nodesPerShard).toNat, name = containerName clusterName (i + 1)
  | scale cfg additionalShards clusterName =>
    ∀ r, w.store.getCluster clusterName = some r →
      ∃ n : ℕ, Scale.rolesShown env cfg additionalShards clusterName w = some n ∧
        (n : ℤ) = r.shards + additionalShards
  | delete _ _ => True

/-- The rows of the cluster say what has been done. -/
def Recorded (w w' : World ρ) : Op → Prop
  | create _ shardCount nodesPerShard clusterName =>
    (∃ r, w'.store.getCluster clusterName = some r ∧ r.shards = shardCount ∧
      r.nodesPerShard = nodesPerShard) ∧
    ∃ new, w'.podman.containers = w.podman.containers ++ new ∧
      (new.length : ℤ) = shardCount * nodesPerShard ∧
      (w'.store.containerNames clusterName).Perm (new.map Container.name)
  | scale _ additionalShards clusterName =>
    (∀ r, w.store.getCluster clusterName = some r →
      ∃ r', w'.store.getCluster clusterName = some r' ∧ r'.shards = r.shards + additionalShards) ∧
    ∃ new, w'.podman.containers = w.podman.containers ++ new ∧
      ∀ c ∈ new, c.name ∈ w'.store.containerNames clusterName
  | delete _ clusterName =>
    w'.store.getCluster clusterName = none ∧ w'.store.listContainersByCluster clusterName = []

/-- The rows say what has been done, and those of other clusters are as before. -/
def Agrees (w w' : World ρ) (op : Op) : Prop :=
  op.Recorded w w' ∧ ∀ other, other ≠ op.clusterName →
    w'.store.getCluster other = w.store.getCluster other ∧
      w'.store.listContainersByCluster other = w.store.listContainersByCluster other

end Op

/-- The reply that a run has read when it comes to set the roles. -/
theorem Scale.rolesShown_eq {env : OpsEnv ρ} {cfg : RuntimeConfig} {additionalShards : ℤ}
    {clusterName : String} {p : Pipeline OpsCmd OpsCmd.Reply Manager}
    {step : Step OpsCmd OpsCmd.Reply Manager} {completed : String → Bool} {m₀ m : Manager}
    {w w₀ w₁ : World ρ}
    (hprep : Session.exec env.handler (Scale.prepare cfg additionalShards clusterName)
      { nodesPerShard := 0 } w = ((.ok p, m₀), w₀))
    (hbefore : p.Completes env.handler (p.steps.take 5) p.completed m₀ w₀ completed m w₁)
    (hget : p.steps[5]? = some step) :
    Scale.rolesShown env cfg additionalShards clusterName w =
      (lastShown (env.redis (p.started env.handler step w₁).podman.containers)
        (redisSent (Session.sent env.handler step.action m (p.started env.handler step w₁)))).map
          (shownMasters m.nodeManager clusterName) := by
  have hreach : Session.exec env.handler (do
      let p ← Scale.prepare cfg additionalShards clusterName
      p.reach 5
      return p.steps[5]?) { nodesPerShard := 0 } w =
      ((.ok (some step), m), p.started env.handler step w₁) := by
    rw [Session.exec_bind_of_ok hprep, Session.exec_bind_of_ok (hbefore.exec_reach hget), hget]
    rfl
  rw [Scale.rolesShown, hreach]

section Steps

variable {env : OpsEnv ρ} {w w' : World ρ} (hstore : ∀ n c, env.storeError n c = none)
  {cfg : RuntimeConfig} (hdb : cfg.dbPath ≠ "") {clusterName : String}

include hstore hdb

/-- How a `create` that finds no records goes. -/
theorem Create.run_ok {shardCount nodesPerShard : ℤ}
    (hbackend : (Op.create cfg shardCount nodesPerShard clusterName).CreatesAtOnce env w)
    (hrecords : w.store.loadPipelineSteps (Create.pipelineName clusterName) = [])
    (h : env.invoke (createClusterAction cfg shardCount nodesPerShard clusterName) w =
      (.ok ⟨⟩, w')) :
    ∃ (base : BaseNodeManager) (m : Manager) (s s' : PodmanState),
      0 < shardCount ∧ 2 ≤ nodesPerShard ∧ base.nodes = [] ∧
      Created clusterName 1 (shardCount * nodesPerShard).toNat base m.nodeManager s s' ∧
      s.containers = w.podman.containers ∧ w'.podman.containers = s'.containers ∧
      Store.Writes (clusterRecord cfg clusterName shardCount nodesPerShard)
        ((containerRecords m clusterName).map ContainerRecord.name) w.store w'.store := by
  obtain ⟨p, m₀, w₀, completed', m', hprep, hrun⟩ := invoke_pipeline h
  obtain ⟨hp, rfl, rfl⟩ := Create.prepare_ok hstore hdb hprep
  have hpersist : p.persist = some storePersister := by rw [hp]
  have hsteps : p.steps =
      Create.steps cfg shardCount nodesPerShard clusterName (some storePersister) := by rw [hp]
  have hnone : ∀ name, ¬ p.completed name := by
    rw [hp]
    simp [hrecords]
  rw [hsteps] at hrun
  -- the steps that matter, the last one first
  obtain ⟨c₁, m₁, w₁, m₂, w₂, hbefore, hrows, hprint⟩ := Pipeline.Completes.at_step
    ((Create.steps cfg shardCount nodesPerShard clusterName (some storePersister)).take 7) hrun
    (hnone _) (by decide : "persist-db" ∉ ["validate", "create-containers", "meet-nodes",
      "update-topology", "set-roles", "alloc-slots", "persist-config"])
  obtain ⟨c₃, m₃, w₃, m₄, w₄, hvalidate, hcreate, hbetween⟩ := Pipeline.Completes.at_step
    ((Create.steps cfg shardCount nodesPerShard clusterName (some storePersister)).take 1) hbefore
    (hnone _) (by decide : "create-containers" ∉ ["validate"])
  have hcreate := action_of_tryAt hbackend hprep (by rw [hsteps]; exact hvalidate)
    (by rw [hsteps]; rfl) (by decide : (0 : ℤ) ≤ 1) hcreate
  obtain ⟨m₅, w₅, hval, hnil⟩ := hvalidate.cons_inv (hnone _)
  cases hnil
  obtain ⟨hshards, hnodes, hempty, hnum, -, hw₅, hcontainers₅⟩ :=
    Create.validate_ok (Pipeline.action_of_executeStep_ok rfl hval)
  obtain ⟨-, hw₄, hcreated⟩ := createPodsForCluster_ok hcreate
  -- the others change nothing that is recorded
  have hbetween := hbetween.inv (tell_unchanged hstore hpersist)
    (fun step hstep => Create.unchanged cfg clusterName
      (List.mem_append_left [Create.printInfo] hstep)) (Unchanged.refl _ _)
  have hprint := hprint.inv (tell_unchanged hstore hpersist)
    (fun step hstep => Create.unchanged cfg clusterName
      (by rw [List.mem_singleton.mp hstep]; simp)) (Unchanged.refl _ _)
  obtain ⟨r, n, hdbexec⟩ := Create.exec_persistDb hstore hdb shardCount nodesPerShard clusterName m₁
    (p.started env.handler (Create.persistDb cfg shardCount nodesPerShard clusterName
      (some storePersister)) w₁)
  cases hdbexec.symm.trans (Pipeline.action_of_executeStep_ok rfl hrows)
  rw [hnum] at hcreated
  refine ⟨m₃.nodeManager, m₁, _, w₄.podman, hshards, hnodes, hempty,
    hbetween.nodeManager ▸ hcreated,
    ?_, ?_, ?_⟩
  · rw [started_podman hstore hpersist, saved_podman hstore hpersist, hcontainers₅,
      started_podman hstore hpersist]
  · rw [hprint.containers, saved_podman hstore hpersist]
    show (p.started env.handler _ w₁).podman.containers = _
    rw [started_podman hstore hpersist, hbetween.containers, saved_podman hstore hpersist]
  · have hsame : SameRows w (p.started env.handler (Create.persistDb cfg shardCount nodesPerShard
        clusterName (some storePersister)) w₁) :=
      calc SameRows w { w with clock := w.clock + 1 + 1 } := SameRows.of_store_eq rfl
        SameRows _ (p.started env.handler _ _) := started_sameRows hstore hpersist _ _
        SameRows _ w₅ := SameRows.of_podman hw₅
        SameRows _ (p.saved env.handler _ w₅) := saved_sameRows hstore hpersist _ _
        SameRows _ (p.started env.handler _ _) := started_sameRows hstore hpersist _ _
        SameRows _ w₄ := SameRows.of_podman hw₄
        SameRows _ (p.saved env.handler _ w₄) := saved_sameRows hstore hpersist _ _
        SameRows _ w₁ := hbetween.rows
        SameRows _ _ := started_sameRows hstore hpersist _ _
    have hafter := (saved_sameRows hstore hpersist _ _).trans hprint.rows
    exact (Store.writes_recordCluster _ containerRecords_clusterName).congr hsame.clusters.symm
      hsame.containers.symm hafter.clusters hafter.containers

/-- **What `create` writes.** -/
theorem Create.agrees {shardCount nodesPerShard : ℤ}
    (hbackend : (Op.create cfg shardCount nodesPerShard clusterName).CreatesAtOnce env w)
    (hfresh : (Op.create cfg shardCount nodesPerShard clusterName).Fresh env w)
    (h : env.invoke (createClusterAction cfg shardCount nodesPerShard clusterName) w =
      (.ok ⟨⟩, w')) :
    (Op.create cfg shardCount nodesPerShard clusterName).Agrees w w' := by
  obtain ⟨base, m, s, s', hshards, hnodes, hempty, hcreated, hs, hs', hwrites⟩ :=
    Create.run_ok hstore hdb hbackend hfresh.1 h
  obtain ⟨new, hnew, hnames⟩ := hcreated.containers
  have hpos : 0 ≤ shardCount * nodesPerShard := by positivity
  refine ⟨⟨hwrites.cluster, new, by rw [hs', hnew, hs], ?_, ?_⟩, hwrites.others⟩
  · have := congrArg List.length hnames
    simp only [List.length_map, List.length_range] at this
    omega
  · -- each list is without duplicates, and they have the same members
    refine (List.perm_ext_iff_of_nodup (Store.nodup_containerNames _) ?_).mpr fun name => ?_
    · rw [hnames]
      exact hcreated.nodup
    rw [hnames]
    refine (hwrites.containers name).trans ?_
    rw [containerRecords_name, hcreated.mem_names, hempty]
    simp only [List.filter_nil, List.map_nil, List.not_mem_nil, false_or, List.mem_map,
      List.mem_range]
    constructor
    · rintro (hold | ⟨i, hi, rfl⟩)
      · obtain ⟨i, hi, rfl⟩ := hfresh.2 name hold
        exact ⟨i, hi, by rw [Nat.add_comm]⟩
      · exact ⟨i, hi, rfl⟩
    · rintro ⟨i, hi, rfl⟩
      exact Or.inr ⟨i, hi, rfl⟩

/-- How a `scale` that finds no records goes. -/
theorem Scale.run_ok {additionalShards : ℤ}
    (hbackend : (Op.scale cfg additionalShards clusterName).CreatesAtOnce env w)
    (hrecords : w.store.loadPipelineSteps (Scale.pipelineName clusterName) = [])
    (h : env.invoke (scaleClusterAction cfg additionalShards clusterName) w = (.ok ⟨⟩, w')) :
    ∃ (saved : RedisClusterConfig) (base : BaseNodeManager) (m : Manager) (s s' : PodmanState),
      (env.handler w (.file (.readFromYAMLFile
        (cfg.clusterRuntimeConfigPath clusterName)))).1 = .ok saved ∧
      base.num ≠ 0 ∧ 0 < additionalShards * saved.nodesPerShard ∧ m.topo.masterIDs ≠ [] ∧
      Created clusterName (base.num + 1) (additionalShards * saved.nodesPerShard).toNat base
        m.nodeManager s s' ∧
      s.containers = w.podman.containers ∧ w'.podman.containers = s'.containers ∧
      Store.Writes (clusterRecord (Scale.savedConfig cfg saved) clusterName
          m.topo.masterIDs.length saved.nodesPerShard)
        ((containerRecords m clusterName).map ContainerRecord.name) w.store w'.store ∧
      ∀ n, Scale.rolesShown env cfg additionalShards clusterName w = some n →
        m.topo.masterIDs.length = n := by
  obtain ⟨p, m₀, w₀, completed', m', hprep, hrun⟩ := invoke_pipeline h
  obtain ⟨saved, ⟨-, hread⟩, hp, rfl, rfl⟩ := Scale.prepare_ok hstore hdb hprep
  have hpersist : p.persist = some storePersister := by rw [hp]
  have hsteps : p.steps = Scale.steps (Scale.savedConfig cfg saved) additionalShards
      saved.nodesPerShard clusterName (some storePersister) := by rw [hp]
  have hnone : ∀ name, ¬ p.completed name := by
    rw [hp]
    simp [hrecords]
  rw [hsteps] at hrun
  -- the steps that matter, the last one first
  obtain ⟨c₁, m₁, w₁, m₂, w₂, hbefore, hrows, hend⟩ := Pipeline.Completes.at_step
    ((Scale.steps (Scale.savedConfig cfg saved) additionalShards saved.nodesPerShard clusterName
      (some storePersister)).take 7) hrun (hnone _)
    (by decide : "persist-db" ∉ ["validate", "sync-state", "create-containers", "meet-nodes",
      "update-topology", "set-roles", "migrate-slots"])
  cases hend
  obtain ⟨c₃, m₃, w₃, m₄, w₄, hknown, hroles, hmigrate⟩ := Pipeline.Completes.at_step
    ((Scale.steps (Scale.savedConfig cfg saved) additionalShards saved.nodesPerShard clusterName
      (some storePersister)).take 5) hbefore (hnone _)
    (by decide : "set-roles" ∉ ["validate", "sync-state", "create-containers", "meet-nodes",
      "update-topology"])
  obtain ⟨c₅, m₅, w₅, m₆, w₆, hsynced, hcreate, hbetween⟩ := Pipeline.Completes.at_step
    ((Scale.steps (Scale.savedConfig cfg saved) additionalShards saved.nodesPerShard clusterName
      (some storePersister)).take 2) hknown (hnone _)
    (by decide : "create-containers" ∉ ["validate", "sync-state"])
  have hcreate := action_of_tryAt hbackend hprep (by rw [hsteps]; exact hsynced)
    (by rw [hsteps]; rfl) (by decide : (0 : ℤ) ≤ 1) hcreate
  obtain ⟨m₇, w₇, hval, hsync⟩ := hsynced.cons_inv (hnone _)
  obtain ⟨-, htracks, hnum, -, hw₇, hcontainers₇⟩ :=
    Scale.validate_ok (Pipeline.action_of_executeStep_ok rfl hval)
  obtain ⟨-, hw₆, hcreated⟩ := createPodsForCluster_ok hcreate
  have hnot : ¬ Function.update c₃ "set-roles" true "migrate-slots" := by
    rw [Function.update_of_ne (by decide), hknown.completed_of_notMem (by decide :
      "migrate-slots" ∉ ["validate", "sync-state", "create-containers", "meet-nodes",
        "update-topology"])]
    exact hnone _
  obtain ⟨m₈, w₈, hslots, -⟩ := hmigrate.cons_inv hnot
  obtain ⟨hempty, hmasterIDs⟩ := Scale.migrateSlots_ok hslots
  have hroles := Pipeline.action_of_executeStep_ok rfl hroles
  -- the others change nothing that is recorded
  have hsync := hsync.inv (tell_unchanged hstore hpersist) (fun step hstep =>
    Scale.unchanged additionalShards saved.nodesPerShard clusterName
      (by rw [List.mem_singleton.mp hstep]; simp)) (Unchanged.refl _ _)
  have hbetween := hbetween.inv (tell_unchanged hstore hpersist) (fun step hstep =>
    Scale.unchanged additionalShards saved.nodesPerShard clusterName
      (List.mem_cons_of_mem _ (List.mem_append_left
        [Scale.setRoles additionalShards saved.nodesPerShard clusterName,
          Scale.migrateSlots clusterName] hstep))) (Unchanged.refl _ _)
  have hset : Unchanged m₃ (p.started env.handler
      (Scale.setRoles additionalShards saved.nodesPerShard clusterName) w₃) m₄ w₄ := by
    have hkeeps : (Scale.setRoles additionalShards saved.nodesPerShard clusterName).Keeps
        env.handler (Unchanged m₃ (p.started env.handler
          (Scale.setRoles additionalShards saved.nodesPerShard clusterName) w₃)) :=
      Scale.unchanged additionalShards saved.nodesPerShard clusterName (by simp)
    have hafter := hkeeps m₃ _ (Unchanged.refl _ _)
    rwa [hroles] at hafter
  have hmig := hmigrate.inv (tell_unchanged hstore hpersist) (fun step hstep =>
    Scale.unchanged additionalShards saved.nodesPerShard clusterName
      (by rw [List.mem_singleton.mp hstep]; simp)) (Unchanged.refl _ _)
  have hmasters : m₁.topo.masterIDs = m₄.topo.masterIDs := by
    refine hmigrate.inv (I := fun (m : Manager) (_ : World ρ) => m.topo.masterIDs = _)
      ⟨fun _ _ _ h => h, fun _ _ _ h => h, fun _ _ _ h => h⟩ (fun step hstep m w hm => ?_) rfl
    rw [List.mem_singleton.mp hstep]
    exact (migrateSlotsToEmptyNode_masterIDs clusterName _).embed.exec hm
  have hbase : m₁.nodeManager = m₆.nodeManager := by
    rw [hmig.nodeManager, hset.nodeManager, hbetween.nodeManager]
  obtain ⟨r, n, hdbexec⟩ := Scale.exec_persistDb hstore
    (show (Scale.savedConfig cfg saved).dbPath ≠ "" from hdb)
    additionalShards saved.nodesPerShard clusterName m₁
    (p.started env.handler (Scale.persistDb (Scale.savedConfig cfg saved) additionalShards
      saved.nodesPerShard clusterName (some storePersister)) w₁)
  cases hdbexec.symm.trans (Pipeline.action_of_executeStep_ok rfl hrows)
  have hnum₅ : m₅.nodeManager.num ≠ 0 := by rwa [hsync.nodeManager]
  have hsum : 0 < additionalShards * saved.nodesPerShard := by
    -- without new nodes there would have been nothing to migrate
    by_contra hsum
    refine hempty (Scale.setRoles_empty ?_ hroles)
    rw [hbetween.nodeManager, Scale.newNodes]
    split
    · rfl
    obtain ⟨new, hnodes, hnames, -⟩ := hcreated.nodes
    have hlen := congrArg List.length hnames
    have hlen₅ : m₅.nodeManager.num = m₅.nodeManager.nodes.length := by
      rw [hsync.nodeManager, htracks.num]
    simp only [List.length_map, List.length_range] at hlen
    refine List.drop_eq_nil_of_le ?_
    rw [hcreated.num, hnodes, List.length_append]
    omega
  refine ⟨saved, m₅.nodeManager, m', _, w₆.podman, hread, hnum₅, hsum, hmasters ▸ hmasterIDs,
    hbase ▸ hcreated, ?_, ?_, ?_, ?_⟩
  · rw [started_podman hstore hpersist, hsync.containers, saved_podman hstore hpersist,
      hcontainers₇, started_podman hstore hpersist]
  · rw [saved_podman hstore hpersist]
    show (p.started env.handler _ w₁).podman.containers = _
    rw [started_podman hstore hpersist, hmig.containers, saved_podman hstore hpersist,
      hset.containers, started_podman hstore hpersist, hbetween.containers,
      saved_podman hstore hpersist]
  · have hsame : SameRows w (p.started env.handler (Scale.persistDb (Scale.savedConfig cfg saved)
        additionalShards saved.nodesPerShard clusterName (some storePersister)) w₁) :=
      calc SameRows w { w with clock := w.clock + 1 + 1 + 1 } := SameRows.of_store_eq rfl
        SameRows _ (p.started env.handler _ _) := started_sameRows hstore hpersist _ _
        SameRows _ w₇ := SameRows.of_podman hw₇
        SameRows _ (p.saved env.handler _ w₇) := saved_sameRows hstore hpersist _ _
        SameRows _ w₅ := hsync.rows
        SameRows _ (p.started env.handler _ w₅) := started_sameRows hstore hpersist _ _
        SameRows _ w₆ := SameRows.of_podman hw₆
        SameRows _ (p.saved env.handler _ w₆) := saved_sameRows hstore hpersist _ _
        SameRows _ w₃ := hbetween.rows
        SameRows _ (p.started env.handler _ w₃) := started_sameRows hstore hpersist _ _
        SameRows _ w₄ := hset.rows
        SameRows _ (p.saved env.handler _ w₄) := saved_sameRows hstore hpersist _ _
        SameRows _ w₁ := hmig.rows
        SameRows _ _ := started_sameRows hstore hpersist _ _
    have hafter := saved_sameRows hstore hpersist
    exact (Store.writes_recordCluster _ containerRecords_clusterName).congr hsame.clusters.symm
      hsame.containers.symm (hafter _ _).clusters (hafter _ _).containers
  · intro n hn
    rw [Scale.rolesShown_eq hprep (by rw [hsteps]; exact hknown) (by rw [hsteps]; rfl)] at hn
    obtain ⟨text, hlast, hn⟩ := Option.map_eq_some_iff.mp hn
    rw [← hn, hmasters]
    refine Scale.setRoles_ok ?_ hroles hlast
    rw [hbetween.nodeManager, hcreated.num]
    omega

/-- **What `scale` writes.** -/
theorem Scale.agrees {additionalShards : ℤ}
    (hbackend : (Op.scale cfg additionalShards clusterName).CreatesAtOnce env w)
    (hfresh : (Op.scale cfg additionalShards clusterName).Fresh env w)
    (h : env.invoke (scaleClusterAction cfg additionalShards clusterName) w = (.ok ⟨⟩, w')) :
    (Op.scale cfg additionalShards clusterName).Agrees w w' := by
  obtain ⟨saved, base, m, s, s', -, -, -, -, hcreated, hs, hs', hwrites, hmasters⟩ :=
    Scale.run_ok hstore hdb hbackend hfresh.1 h
  obtain ⟨new, hnew, hnames⟩ := hcreated.containers
  refine ⟨⟨fun r hr => ?_, new, by rw [hs', hnew, hs], fun c hc => ?_⟩, hwrites.others⟩
  · obtain ⟨n, hshown, hn⟩ := hfresh.2 r hr
    obtain ⟨r', hr', hshards, -⟩ := hwrites.cluster
    refine ⟨r', hr', hshards.trans ?_⟩
    rw [← hn, ← hmasters n hshown]
    rfl
  · refine (hwrites.containers c.name).mpr (Or.inr ?_)
    rw [containerRecords_name, hcreated.mem_names]
    have hmem := List.mem_map_of_mem (f := Container.name) hc
    rw [hnames] at hmem
    obtain ⟨i, hi, heq⟩ := List.mem_map.mp hmem
    exact Or.inr ⟨i, List.mem_range.mp hi, heq.symm⟩

/-- **What `delete` deletes.** -/
theorem Delete.agrees (hfresh : (Op.delete cfg clusterName).Fresh env w)
    (h : env.invoke (deleteAllContainers cfg clusterName) w = (.ok ⟨⟩, w')) :
    (Op.delete cfg clusterName).Agrees w w' := by
  obtain ⟨p, m₀, w₀, completed', m', hprep, hrun⟩ := invoke_pipeline h
  obtain ⟨hp, rfl, rfl⟩ := Delete.prepare_ok hstore hdb hprep
  have hpersist : p.persist = some storePersister := by rw [hp]
  have hsteps : p.steps = Delete.steps cfg clusterName (some storePersister) := by rw [hp]
  have hnone : ∀ name, ¬ p.completed name := by
    have hrecords : w.store.loadPipelineSteps (Delete.pipelineName clusterName) = [] := hfresh.1
    rw [hp]
    simp [hrecords]
  rw [hsteps] at hrun
  obtain ⟨c₁, m₁, w₁, m₂, w₂, hbefore, hrows, hafter⟩ := Pipeline.Completes.at_step
    ((Delete.steps cfg clusterName (some storePersister)).take 2) hrun (hnone _)
    (by decide : "persist-db" ∉ ["delete-config", "delete-resources"])
  have hkept := hbefore.inv (tell_sameRows hstore hpersist) (fun step hstep =>
    Delete.sameRows cfg clusterName
      (List.mem_append_left [Delete.cleanupState cfg clusterName] hstep)) ⟨rfl, rfl⟩
  have hleft := hafter.inv (tell_sameRows hstore hpersist) (fun step hstep =>
    Delete.sameRows cfg clusterName (by rw [List.mem_singleton.mp hstep]; simp)) ⟨rfl, rfl⟩
  obtain ⟨r, n, hdbexec⟩ := Delete.exec_persistDb hstore hdb clusterName m₁
    (p.started env.handler (Delete.persistDb cfg clusterName (some storePersister)) w₁)
  cases hdbexec.symm.trans (Pipeline.action_of_executeStep_ok rfl hrows)
  have hsame : SameRows w (p.started env.handler
      (Delete.persistDb cfg clusterName (some storePersister)) w₁) :=
    SameRows.trans ⟨hkept.clusters, hkept.containers⟩ (started_sameRows hstore hpersist _ _)
  have hend := (saved_sameRows hstore hpersist _ _).trans hleft
  refine ⟨⟨?_, ?_⟩, fun other hother => ⟨?_, ?_⟩⟩
  · rw [hend.getCluster]
    exact Store.getCluster_deleteClusterRow clusterName
  · rw [hend.listContainersByCluster]
    exact Store.listContainersByCluster_deleteContainers clusterName
  · rw [hend.getCluster, ← hsame.getCluster]
    exact Store.getCluster_deleteClusterRow_of_ne hother
  · rw [hend.listContainersByCluster, ← hsame.listContainersByCluster]
    exact Store.listContainersByCluster_deleteContainers_of_ne hother

end Steps

/-! ### Histories -/

/-- One operation of a history. -/
theorem Op.agrees_of_fresh {env : OpsEnv ρ} {w w' : World ρ}
    (hstore : ∀ n c, env.storeError n c = none) {op : Op} (hdb : op.cfg.dbPath ≠ "")
    (hbackend : op.CreatesAtOnce env w) (hfresh : op.Fresh env w)
    (h : Op.step env w op = some w') : op.Agrees w w' := by
  have hinvoke : env.invoke op.action w = (.ok ⟨⟩, w') := by
    rw [Op.step] at h
    rcases hr : env.invoke op.action w with ⟨e | _, w₁⟩
    · rw [hr] at h
      cases h
    · rw [hr] at h
      cases h
      rfl
  cases op with
  | create cfg shardCount nodesPerShard clusterName =>
    exact Create.agrees hstore hdb hbackend hfresh hinvoke
  | scale cfg additionalShards clusterName =>
    exact Scale.agrees hstore hdb hbackend hfresh hinvoke
  | delete cfg clusterName => exact Delete.agrees hstore hdb hfresh hinvoke

/-- **When the rows agree with a history.** On a store that executes every statement, and
with a backend that does what it is asked, the rows are right after each operation that
finds no record of its own pipeline. -/
theorem store_agrees (env : OpsEnv ρ) (w : World ρ) (ops : List Op) (dbPath : String)
    (hdb : dbPath ≠ "") (hone : ∀ op ∈ ops, op.cfg.dbPath = dbPath)
    (hstore : ∀ n c, env.storeError n c = none)
    (hbackend : Runs.EachStep (Op.step env) (fun w op => op.CreatesAtOnce env w) w ops)
    (hfresh : Runs.EachStep (Op.step env) (fun w op => op.Fresh env w) w ops) :
    Runs.EachStep (Op.step env) (fun w op => ∀ w', Op.step env w op = some w' → op.Agrees w w')
      w ops := by
  intro before op hop w₁ hw₁ w' hw'
  have hmem : op ∈ ops := hop.subset (List.mem_append_right _ (List.mem_singleton_self _))
  exact Op.agrees_of_fresh hstore (hone op hmem ▸ hdb) (hbackend before op hop w₁ hw₁)
    (hfresh before op hop w₁ hw₁) hw'

/-! ### A cluster that is created again -/

/-- Redis and podman without failures; there is one cluster of two nodes. -/
def steadyEnv : OpsEnv Unit where
  podman :=
    { regex := dotMatch
      create := fun _ spec =>
        { name := spec.name, id := spec.name, ip := spec.name, ports := [(6379, 40001)] } }
  redis _ := fun s c =>
    match c with
    | .clusterNodes _ => (.ok ("n1 a-redis-1:6379@16379 master - 0 0 1 connected 0-16383\n" ++
        "n2 a-redis-2:6379@16379 slave n1 0 0 1 connected"), s)
    | .clusterMeet _ _ _ | .clusterReplicate _ _ | .clusterForget _ _ | .clusterAddSlots _ _ =>
      (.ok (), s)
    | .migrateSlots _ => ([], s)
    | .invalidateSlots _ _ => ((), s)

/-- Nothing has been done yet. -/
def bareWorld : World Unit where
  podman := { containers := [] }
  redis := ()

def createA : Op := .create plainConfig 1 2 "a"

def deleteA : Op := .delete plainConfig "a"

/-- The world after a history that can be gone through. -/
def worldAfter (ops : List Op) : World Unit :=
  (Runs.exec (Op.step steadyEnv) bareWorld ops).getD bareWorld

theorem eq_worldAfter {ops : List Op} {w : World Unit}
    (h : Runs.exec (Op.step steadyEnv) bareWorld ops = some w) : w = worldAfter ops := by
  rw [worldAfter, h]
  rfl

theorem eq_worldAfter_one {op : Op} {w : World Unit}
    (h : Op.step steadyEnv bareWorld op = some w) : w = worldAfter [op] := by
  refine eq_worldAfter ?_
  rw [Runs.exec_cons, h]
  rfl

theorem eq_worldAfter_two {op op' : Op} {w w' : World Unit}
    (h : Op.step steadyEnv bareWorld op = some w) (h' : Op.step steadyEnv w op' = some w') :
    w' = worldAfter [op, op'] := by
  refine eq_worldAfter ?_
  rw [Runs.exec_cons, h, Option.bind_some, Runs.exec_cons, h']
  rfl

theorem eq_ok_of_isOk {r : Except Failure PUnit} (h : r.isOk) : r = .ok ⟨⟩ := by
  cases r with
  | error e => cases h
  | ok a => rfl

/-- Each container is there when it is first asked for, both times. There is no record for the
`delete`, and no row after the second `create`. -/
theorem runs_createA :
    ((steadyEnv.invoke (do
        let p ← Create.prepare plainConfig 1 2 "a"
        p.tryAt 1) bareWorld).1.isOk ∧
      (steadyEnv.invoke (do
        let p ← Create.prepare plainConfig 1 2 "a"
        p.tryAt 1) (worldAfter [createA, deleteA])).1.isOk) ∧
    ((worldAfter [createA]).store.loadPipelineSteps (Delete.pipelineName "a")).isEmpty ∧
    (Runs.exec (Op.step steadyEnv) bareWorld [createA, deleteA, createA]).map
      (fun w => (w.store.getCluster "a").isSome) = some false := by
  decide +kernel

/-- Creating a cluster and deleting it. -/
theorem store_agrees_create_delete :
    Runs.EachStep (Op.step steadyEnv)
      (fun w op => ∀ w', Op.step steadyEnv w op = some w' → op.Agrees w w')
      bareWorld [createA, deleteA] := by
  have hfirst : ∀ name ∈ bareWorld.store.containerNames "a",
      ∃ i < ((1 : ℤ) * 2).toNat, name = containerName "a" (i + 1) := by
    intro name hname
    cases hname
  obtain ⟨⟨hcreate, -⟩, hsecond, -⟩ := runs_createA
  have hpath : plainConfig.dbPath ≠ "" := by decide
  refine store_agrees steadyEnv bareWorld [createA, deleteA] plainConfig.dbPath hpath ?_
    (fun _ _ => rfl) ?_ ?_
  · intro op hop
    rcases List.mem_pair.mp hop with rfl | rfl <;> rfl
  · refine Runs.eachStep_cons.mpr ⟨eq_ok_of_isOk hcreate, fun w hw => ?_⟩
    exact Runs.eachStep_cons.mpr ⟨trivial, fun _ _ => Runs.eachStep_nil⟩
  · refine Runs.eachStep_cons.mpr ⟨⟨rfl, hfirst⟩, fun w hw => ?_⟩
    rw [eq_worldAfter_one hw]
    exact Runs.eachStep_cons.mpr
      ⟨⟨List.isEmpty_iff.mp hsecond, trivial⟩, fun _ _ => Runs.eachStep_nil⟩

/-- The second time, `persist-db` is skipped, and the cluster has no row. -/
theorem not_store_agrees_create_delete_create :
    (Runs.exec (Op.step steadyEnv) bareWorld [createA, deleteA, createA]).isSome ∧
      Runs.EachStep (Op.step steadyEnv) (fun w op => op.CreatesAtOnce steadyEnv w)
        bareWorld [createA, deleteA, createA] ∧
      ¬ Runs.EachStep (Op.step steadyEnv)
        (fun w op => ∀ w', Op.step steadyEnv w op = some w' → op.Agrees w w')
        bareWorld [createA, deleteA, createA] := by
  obtain ⟨⟨hcreate, hagain⟩, -, hrow⟩ := runs_createA
  obtain ⟨w₃, hw₃, hnone⟩ := Option.map_eq_some_iff.mp hrow
  refine ⟨by rw [hw₃]; rfl, ?_, fun hagree => ?_⟩
  · refine Runs.eachStep_cons.mpr ⟨eq_ok_of_isOk hcreate, fun w hw => ?_⟩
    refine Runs.eachStep_cons.mpr ⟨trivial, fun w₁ hw₁ => ?_⟩
    rw [eq_worldAfter_two hw hw₁]
    exact Runs.eachStep_cons.mpr ⟨eq_ok_of_isOk hagain, fun _ _ => Runs.eachStep_nil⟩
  · have hthird := hw₃
    rw [show [createA, deleteA, createA] = [createA, deleteA] ++ [createA] from rfl,
      Runs.exec_concat] at hthird
    obtain ⟨w₂, hw₂, hlast⟩ := Option.bind_eq_some_iff.mp hthird
    obtain ⟨⟨⟨r, hr, -⟩, -⟩, -⟩ :=
      hagree [createA, deleteA] createA (List.prefix_refl _) w₂ hw₂ w₃ hlast
    rw [hr] at hnone
    cases hnone

end ClusterManager
