import ClusterManager.Ops.Frames

/-!
# What a failed scale-out leaves of the cluster

No step of a scale-out removes a container that was there before (`containers_kept`). What
removes them is the rollback: the only step with an undo is `create-containers`, and its
undo deletes whatever podman lists for the cluster, not only what the step has created. So
a run that fails in one of the first three steps leaves the cluster alone, and one that
fails in a later step deletes it. `scale_keepsContainers_iff` says so.
-/

namespace ClusterManager

namespace Scale

variable {ρ : Type} {env : OpsEnv ρ} {cfg : RuntimeConfig} {additionalShards : ℤ}
  {clusterName : String} {w : World ρ}

/-- The step at `i` of the scale-out is tried and fails. -/
def FailsAt (env : OpsEnv ρ) (cfg : RuntimeConfig) (additionalShards : ℤ) (clusterName : String)
    (w : World ρ) (i : ℕ) : Prop :=
  ∃ p m₀ w₀ completed' m' w',
    Session.exec env.handler (prepare cfg additionalShards clusterName) { nodesPerShard := 0 } w =
      ((.ok p, m₀), w₀) ∧
    p.FailsAt env.handler m₀ w₀ i completed' m' w'

/-- If the scale-out returns an error, every container of the cluster is still there. -/
def KeepsContainers (env : OpsEnv ρ) (cfg : RuntimeConfig) (additionalShards : ℤ)
    (clusterName : String) (w : World ρ) : Prop :=
  ∀ err, (env.invoke (scaleClusterAction cfg additionalShards clusterName) w).1 =
      .error (.error err) →
    ∀ c ∈ w.podman.containers, c.OfCluster clusterName →
      c ∈ (env.invoke (scaleClusterAction cfg additionalShards clusterName) w).2.podman.containers

/-- The pipeline of a scale-out, when there is one, and what has been changed before its
first step. -/
theorem exec_prepare (env : OpsEnv ρ) (cfg : RuntimeConfig) (additionalShards : ℤ)
    (clusterName : String) (m : Manager) (w : World ρ) :
    (∃ err m' n, Session.exec env.handler (prepare cfg additionalShards clusterName) m w =
        ((.error (.error err), m'), { w with clock := n })) ∨
      ∃ p n saved,
        Session.exec env.handler (prepare cfg additionalShards clusterName) m w =
          ((.ok p, newClusterManager (savedConfig cfg saved) saved.nodesPerShard),
            { w with clock := n }) ∧
        p.name = pipelineName clusterName ∧
        (p.persist = none ∨ p.persist = some storePersister) ∧
        p.steps = steps (savedConfig cfg saved) additionalShards saved.nodesPerShard clusterName
          p.persist := by
  rw [prepare]
  rcases newNodeManager cfg with err | _
  · exact Or.inl ⟨_, m, w.clock, rfl⟩
  rw [Session.exec_bind, Session.exec_orFail_ok]
  simp only
  rw [Session.exec_bind, OpsM.exec_file]
  have hw : (env.handler w (.file (.readFromYAMLFile
      (cfg.clusterRuntimeConfigPath clusterName)))).2 = { w with clock := w.clock + 1 } :=
    handler_file_of_effect rfl
  rcases hr : env.handler w (.file (.readFromYAMLFile (cfg.clusterRuntimeConfigPath clusterName)))
    with ⟨err | saved, w'⟩
  · rw [hr] at hw
    exact Or.inl ⟨_, m, w.clock + 1, by rw [← hw]; rfl⟩
  rw [hr] at hw
  obtain rfl : w' = { w with clock := w.clock + 1 } := hw
  obtain ⟨p, n, hmake, hname, hpersist, hsteps⟩ := exec_makePipeline env
    (newClusterManager (savedConfig cfg saved) saved.nodesPerShard)
    { w with clock := w.clock + 1 } (savedConfig cfg saved) (pipelineName clusterName)
    (steps (savedConfig cfg saved) additionalShards saved.nodesPerShard clusterName)
    fun _ _ => steps_retry _ _ _ _
  refine Or.inr ⟨p, n, saved, ?_, hname, hpersist, hsteps⟩
  simp only [Session.exec_bind, Session.exec_orFail_ok, Session.exec_set]
  exact hmake

/-! ### No step removes a container -/

section Steps

variable {nodesPerShard : ℤ} {q : Option (Persister OpsCmd OpsCmd.Reply)} {c : Container}

/-- The container is still there. -/
def Kept (c : Container) (_ : Manager) (w : World ρ) : Prop := c ∈ w.podman.containers

theorem containers_validate (m : Manager) (w : World ρ) :
    (Session.exec env.handler (validate cfg additionalShards clusterName).action m
      w).2.podman.containers = w.podman.containers := by
  -- the step lists the containers, and then looks only at what it has found
  have hlist : (Session.exec env.handler (listPods cfg clusterName) m w).2.podman.containers =
      w.podman.containers := by
    rw [exec_listPods]
    exact containers_run_of_reads listPodsByCluster_reads
  simp only [validate, Session.fail_bind]
  split
  · rfl
  rw [Session.exec_bind]
  rcases hr : Session.exec env.handler (listPods cfg clusterName) m w with ⟨⟨e | r | _, m'⟩, w'⟩
  · rw [hr] at hlist
    exact hlist
  · rw [hr] at hlist
    exact hlist
  · rw [hr] at hlist
    simp only [Session.exec_bind, Session.exec_orFail_ok, Session.exec_get]
    split <;> exact hlist

/-- One step changes the containers. -/
theorem creates_or_leaves (env : OpsEnv ρ) (hq : q = none ∨ q = some storePersister)
    {step : Step OpsCmd OpsCmd.Reply Manager}
    (hstep : step ∈ steps cfg additionalShards nodesPerShard clusterName q) :
    step = createContainers cfg additionalShards nodesPerShard clusterName ∨
      ∀ (m : Manager) (w : World ρ),
        (Session.exec env.handler step.action m w).2.podman.containers =
        w.podman.containers := by
  simp only [steps, List.mem_cons, List.not_mem_nil, or_false] at hstep
  rcases hstep with rfl | rfl | rfl | rfl | rfl | rfl | rfl | rfl
  · exact Or.inr containers_validate
  · exact Or.inr fun m w => by rw [exec_of_toRedis syncState_sends]
  · exact Or.inl rfl
  · exact Or.inr fun m w => by rw [exec_of_toRedis meetNodesStep_sends]
  · exact Or.inr fun m w => by rw [exec_of_toRedis updateTopology_sends]
  · exact Or.inr fun m w => by rw [exec_of_toRedis setRoles_sends]
  · exact Or.inr fun m w => by rw [migrateSlots, exec_of_toRedis (sends_manager _)]
  · exact Or.inr fun m w => by rw [exec_of_toStore (persistDb_sends hq)]

/-- **No step removes a container.** -/
theorem containers_kept (hq : q = none ∨ q = some storePersister)
    {step : Step OpsCmd OpsCmd.Reply Manager}
    (hstep : step ∈ steps cfg additionalShards nodesPerShard clusterName q) :
    step.Keeps env.handler (Kept (ρ := ρ) c) := by
  intro m w hc
  rcases creates_or_leaves env hq hstep with rfl | hleaves
  · show c ∈ (Session.exec env.handler (createPodsForCluster _ _ _) m w).2.podman.containers
    rw [exec_createPodsForCluster]
    exact createPods_keeps hc _
  · rw [Kept, hleaves]
    exact hc

theorem tell_keeps {p : Pipeline OpsCmd OpsCmd.Reply Manager}
    (hp : p.persist = none ∨ p.persist = some storePersister) :
    p.TellKeeps env.handler (Kept (ρ := ρ) c) where
  started step m w hc := by
    rw [Kept, Pipeline.started, told_eq hp (c := .startPipelineStep p.name step.name) fun _ => rfl]
    exact hc
  saved step m w hc := by
    rw [Kept, Pipeline.saved, told_eq hp (c := .savePipelineStep p.name step.name) fun _ => rfl]
    exact hc
  failed step m w hc := by
    rw [Kept, Pipeline.failed, told_eq hp (c := .failPipelineStep p.name step.name) fun _ => rfl]
    exact hc

end Steps

/-! ### What the rollback removes -/

section Undo

variable {nodesPerShard : ℤ} {q : Option (Persister OpsCmd OpsCmd.Reply)}
  {p : Pipeline OpsCmd OpsCmd.Reply Manager} {completed : String → Bool} {m : Manager}

/-- Before the containers are created there is nothing to undo. -/
theorem rollback_of_lt {i : ℕ} (hi : i < 3) :
    p.rollback ((steps cfg additionalShards nodesPerShard clusterName q).take i).reverse completed =
      pure completed := by
  obtain rfl | rfl | rfl : i = 0 ∨ i = 1 ∨ i = 2 := by omega
  · rfl
  · rfl
  · rfl

/-- Afterwards the containers that are listed for the cluster are deleted. -/
theorem exec_rollback_of_ge {i : ℕ} (hi : 3 ≤ i)
    (hp : p.persist = none ∨ p.persist = some storePersister)
    (hps : ∀ n, env.podman.error n (.ps true (clusterName ++ "-redis")) = none)
    (hrm : ∀ n name, env.podman.error n (.rm name) = none) :
    ∃ completed' w', Session.exec env.handler (p.rollback
        ((steps cfg additionalShards nodesPerShard clusterName q).take i).reverse completed) m w =
        ((.ok completed', m), w') ∧
      w'.podman.containers = w.podman.containers.filter fun c =>
        c.name ∉ (w.podman.listed env.podman true (clusterName ++ "-redis")).filter (· ≠ "") := by
  have hlater : ∀ step ∈ (((steps cfg additionalShards nodesPerShard clusterName q).drop 3).take
      (i - 3)).reverse, step.undo = none := by
    intro step hstep
    have hmem := List.mem_of_mem_take (List.mem_reverse.mp hstep)
    simp only [steps, List.drop_succ_cons, List.drop_zero, List.mem_cons, List.not_mem_nil,
      or_false] at hmem
    rcases hmem with rfl | rfl | rfl | rfl | rfl <;> rfl
  have htake : ((steps cfg additionalShards nodesPerShard clusterName q).take i).reverse =
      (((steps cfg additionalShards nodesPerShard clusterName q).drop 3).take (i - 3)).reverse ++
        ((steps cfg additionalShards nodesPerShard clusterName q).take 3).reverse := by
    rw [← List.reverse_append, ← List.take_append_drop 3 (List.take i _), List.take_take,
      List.drop_take, Nat.min_eq_left hi]
  have hcontainers : ((deleteResources clusterName).run (podmanHandler env.podman)
      w.podman).2.containers = _ := deleteResources_containers fun x hx => by
      rcases deleteResources_sends.trace x hx with h | ⟨name, h⟩
      · rw [h]
        exact hps _
      · rw [h]
        exact hrm _ _
  rw [htake, Pipeline.rollback_append_of_no_undo hlater]
  show ∃ completed' w',
    Session.exec env.handler ((deletePods clusterName).reflect >>= _) m w = _ ∧ _
  rw [Session.exec_bind, Session.exec_reflect, exec_deletePods]
  generalize (deleteResources clusterName).run (podmanHandler env.podman) w.podman = r
    at hcontainers ⊢
  refine ⟨Function.update completed "create-containers" false,
    p.told env.handler (fun persist => persist.deletePipeline) { w with podman := r.2 }, ?_, ?_⟩
  · rcases r with ⟨err | _, s⟩ <;>
    · simp only [Session.exec_bind, Pipeline.exec_tell]
      rfl
  · rw [told_eq hp (c := .deletePipeline p.name) fun _ => rfl]
    exact hcontainers

end Undo

/-! ### How a failed run ends -/

/-- What podman lists for the cluster. -/
def listed (env : OpsEnv ρ) (clusterName : String) (s : PodmanState) : List String :=
  (s.listed env.podman true (clusterName ++ "-redis")).filter (· ≠ "")

section Ends

variable (hps : ∀ n, env.podman.error n (.ps true (clusterName ++ "-redis")) = none)
  (hrm : ∀ n name, env.podman.error n (.rm name) = none)

include hps hrm

/-- What is left when the step at `i` has failed. -/
theorem FailsAt.invoke {i : ℕ} (h : FailsAt env cfg additionalShards clusterName w i) :
    ∃ err w', ∃ s : PodmanState,
      env.invoke (scaleClusterAction cfg additionalShards clusterName) w =
        (.error (.error err), w') ∧
      (∀ c ∈ w.podman.containers, c ∈ s.containers) ∧
      w'.podman.containers = if i < 3 then s.containers
        else s.containers.filter fun c => c.name ∉ listed env clusterName s := by
  obtain ⟨p, m₀, w₀, completed', m', w', hprep, hfail⟩ := h
  have hp := exec_prepare env cfg additionalShards clusterName { nodesPerShard := 0 } w
  rw [hprep] at hp
  obtain ⟨err, m'', n, hp⟩ | ⟨p', n, saved, hp, -, hpersist, hsteps⟩ := hp
  · cases hp
  obtain ⟨⟨rfl, rfl⟩, rfl⟩ : (p = p' ∧ m₀ = _) ∧ w₀ = _ := by
    simpa [Prod.ext_iff] using hp
  -- the containers at the failure
  have hkept : ∀ c ∈ w.podman.containers, c ∈ w'.podman.containers := by
    intro c hc
    refine hfail.inv (I := Kept c) (tell_keeps hpersist) (fun step hstep => ?_) hc
    rw [hsteps] at hstep
    exact containers_kept hpersist hstep
  obtain ⟨step, err, -, hrun⟩ := hfail.exec_run
  have hfailed : (p.failed env.handler step w').podman = w'.podman := by
    rw [Pipeline.failed, told_eq hpersist (c := .failPipelineStep p.name step.name) fun _ => rfl]
  have hinvoke : env.invoke (scaleClusterAction cfg additionalShards clusterName) w =
      ((Session.exec env.handler (runPipeline p s!"scale cluster {clusterName}: ")
        (newClusterManager (savedConfig cfg saved) saved.nodesPerShard) { w with clock := n }).1.1,
        (Session.exec env.handler (runPipeline p s!"scale cluster {clusterName}: ")
        (newClusterManager (savedConfig cfg saved) saved.nodesPerShard)
          { w with clock := n }).2) := by
    rw [OpsEnv.invoke, scaleClusterAction, Session.exec_bind, hprep]
  rw [hinvoke, exec_runPipeline, hrun, Session.exec_bind, hsteps]
  by_cases hi : i < 3
  · rw [rollback_of_lt hi]
    refine ⟨_, _, w'.podman, rfl, hkept, ?_⟩
    rw [if_pos hi]
    exact congrArg PodmanState.containers hfailed
  · obtain ⟨completed'', w'', hroll, hcontainers⟩ :=
      exec_rollback_of_ge (w := p.failed env.handler step w') (Nat.not_lt.mp hi) hpersist hps hrm
    rw [hroll]
    refine ⟨_, w'', w'.podman, rfl, hkept, ?_⟩
    rw [if_neg hi, hcontainers, hfailed]
    rfl

omit hps hrm in
/-- A scale-out that returns an error has failed in one of its steps, or before them. -/
theorem failsAt_of_error {err : String}
    (h : (env.invoke (scaleClusterAction cfg additionalShards clusterName) w).1 =
      .error (.error err)) :
    (env.invoke (scaleClusterAction cfg additionalShards clusterName) w).2.podman = w.podman ∨
      ∃ i, FailsAt env cfg additionalShards clusterName w i := by
  rw [OpsEnv.invoke, scaleClusterAction, Session.exec_bind] at h ⊢
  obtain ⟨err', m', n, hp⟩ | ⟨p, n, saved, hp, -, -, -⟩ :=
    exec_prepare env cfg additionalShards clusterName { nodesPerShard := 0 } w
  · rw [hp]
    exact Or.inl rfl
  refine Or.inr ?_
  rw [hp] at h
  simp only [exec_runPipeline] at h
  rcases p.completes_or_fails_or_panics (H := env.handler)
    (newClusterManager (savedConfig cfg saved) saved.nodesPerShard) { w with clock := n } with
    ⟨completed', m', w', hc⟩ | ⟨i, completed', m', w', hf⟩ | ⟨i, hpanic⟩
  · rw [hc.exec_run] at h
    cases h
  · exact ⟨i, p, _, _, completed', m', w', hp, hf⟩
  · obtain ⟨err'', m', w', hrun⟩ := hpanic.exec_run
    rw [hrun] at h
    cases h

end Ends

/-- **When a failed scale-out leaves the cluster alone.** No step from `meet-nodes` on
fails, or podman does not list the containers of the cluster for it. -/
theorem scale_keepsContainers_iff (env : OpsEnv ρ) (cfg : RuntimeConfig) (additionalShards : ℤ)
    (clusterName : String) (w : World ρ)
    (hps : ∀ n, env.podman.error n (.ps true (clusterName ++ "-redis")) = none)
    (hrm : ∀ n name, env.podman.error n (.rm name) = none) :
    KeepsContainers env cfg additionalShards clusterName w ↔
      (∀ i, FailsAt env cfg additionalShards clusterName w i → i < 3) ∨
        ∀ c ∈ w.podman.containers, c.OfCluster clusterName →
          ¬ env.podman.regex (clusterName ++ "-redis") c.name := by
  constructor
  · intro hkeep
    by_contra hcon
    obtain ⟨⟨i, hfail, hi⟩, c, hc, hname, hre⟩ : (∃ i, FailsAt env cfg additionalShards clusterName
        w i ∧ ¬ i < 3) ∧ ∃ c ∈ w.podman.containers, c.OfCluster clusterName ∧
          env.podman.regex (clusterName ++ "-redis") c.name := by
      simpa using hcon
    obtain ⟨err, w', s, hinvoke, hkept, hcontainers⟩ := hfail.invoke hps hrm
    have hstill := hkeep err (by rw [hinvoke]) c hc hname
    rw [hinvoke, hcontainers, if_neg hi] at hstill
    refine of_decide_eq_true (List.mem_filter.mp hstill).2 (List.mem_filter.mpr ⟨?_, ?_⟩)
    · exact mem_listed.mpr ⟨c, hkept c hc, Or.inl rfl, hre, rfl⟩
    · obtain ⟨j, hj⟩ := hname
      rw [hj]
      simpa using containerName_ne_empty clusterName j
  · intro h err herr c hc hname
    rcases failsAt_of_error herr with hsame | ⟨i, hfail⟩
    · rwa [hsame]
    obtain ⟨err', w', s, hinvoke, hkept, hcontainers⟩ := hfail.invoke hps hrm
    rw [hinvoke, hcontainers]
    by_cases hi : i < 3
    · rw [if_pos hi]
      exact hkept c hc
    rw [if_neg hi]
    refine List.mem_filter.mpr ⟨hkept c hc, decide_eq_true fun hlisted => ?_⟩
    obtain ⟨c', -, -, hre, hcname⟩ := mem_listed.mp (List.mem_of_mem_filter hlisted)
    rcases h with h | h
    · exact hi (h i hfail)
    · exact h c hc hname (hcname ▸ hre)

/-! ### A cluster of two nodes -/

/-- Podman without failures; a new container is ready at once. -/
def readyPodman : PodmanEnv where
  regex := dotMatch
  create _ spec :=
    { name := spec.name, id := spec.name, ip := "10.88.0.9", ports := [(6379, 40009)] }

/-- Redis nodes that no other node can meet. -/
def aloofRedis : Handler RedisCmd RedisCmd.Reply Unit := fun s c =>
  match c with
  | .clusterNodes _ => (.ok "", s)
  | .clusterMeet _ _ _ => (.error "i/o timeout", s)
  | .clusterReplicate _ _ | .clusterForget _ _ | .clusterAddSlots _ _ => (.ok (), s)
  | .migrateSlots _ => ([], s)
  | .invalidateSlots _ _ => ((), s)

def aloofEnv : OpsEnv Unit where
  podman := readyPodman
  redis _ := aloofRedis

/-- The cluster `a`, with the settings in `files`. -/
def twoNodes (files : Files) : World Unit where
  podman := { containers := [
    { name := "a-redis-1", id := "a1", ip := "10.88.0.2", ports := [(6379, 40001)] },
    { name := "a-redis-2", id := "a2", ip := "10.88.0.3", ports := [(6379, 40002)] }] }
  redis := ()
  files := files

/-- Without its settings the cluster is not touched. -/
theorem keepsContainers_without_settings :
    KeepsContainers aloofEnv plainConfig 1 "a" (twoNodes {}) := by
  refine (scale_keepsContainers_iff aloofEnv plainConfig 1 "a" (twoNodes {}) (fun _ => rfl)
    fun _ _ => rfl).mpr (Or.inl fun i hfail => ?_)
  obtain ⟨p, m₀, w₀, completed', m', w', hprep, -⟩ := hfail
  have herr : returnsError (Session.exec aloofEnv.handler (prepare plainConfig 1 "a")
      { nodesPerShard := 0 } (twoNodes {})).1.1 := by decide +kernel
  rw [hprep] at herr
  cases herr

/-- The new nodes cannot be met, and all containers of the cluster are deleted. -/
theorem not_keepsContainers_of_failed_meet :
    ¬ KeepsContainers aloofEnv plainConfig 1 "a"
      (twoNodes { rows := [("/srv/runtime/run_time_config.yaml", some ⟨2, 6379⟩)] }) := by
  intro hkeep
  have herr : returnsError (aloofEnv.invoke (scaleClusterAction plainConfig 1 "a")
      (twoNodes { rows := [("/srv/runtime/run_time_config.yaml", some ⟨2, 6379⟩)] })).1 := by
    decide +kernel
  have hgone : (aloofEnv.invoke (scaleClusterAction plainConfig 1 "a")
      (twoNodes { rows := [("/srv/runtime/run_time_config.yaml", some ⟨2, 6379⟩)] })
        ).2.podman.containers
        = [] := by
    decide +kernel
  obtain ⟨err, herr⟩ := returnsError_iff.mp herr
  have hstill := hkeep err herr _ List.mem_cons_self ⟨1, by decide⟩
  rw [hgone] at hstill
  cases hstill

end Scale

end ClusterManager
