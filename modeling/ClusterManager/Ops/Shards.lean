import ClusterManager.Ops.Steps

/-!
# The number of shards that a scale-out records

A scale-out records as many shards as it knows masters at its end. It does not count them
itself: each replica that is given its role makes it read the roles of all nodes again,
and it knows the masters of the last reply. `setRoles_ok` says so of the step that sets the
roles; `rolesShown` is how many masters that reply shows.
-/

namespace ClusterManager

variable {ρ : Type} {env : OpsEnv ρ} {m m' : Manager} {w w' : World ρ}

/-- The requests to Redis among requests. -/
def redisSent (l : List (OpsCmd × World ρ)) : List (RedisCmd × ρ) :=
  l.filterMap fun x => match x with
    | (.redis c, w) => some (c, w.redis)
    | _ => none

theorem redisSent_append (l l' : List (OpsCmd × World ρ)) :
    redisSent (l ++ l') = redisSent l ++ redisSent l' := List.filterMap_append

/-- An operation of the cluster manager sends its requests to Redis. -/
theorem redisSent_manager {α : Type} (x : ManagerM α) (m : Manager) (w : World ρ) :
    redisSent (Session.sent env.handler (OpsM.manager x) m w) =
      Session.sent (env.redis w.podman.containers) x m w.redis := by
  rw [OpsM.manager, Session.sent_embed env.redisPart, redisSent, List.filterMap_map]
  exact List.filterMap_some

/-- The masters that are known after `x` are those of the last reply it has had; if it has
had none, there are as many as before. -/
def AsShown (env : OpsEnv ρ) (cs : List Container) (base : BaseNodeManager) (clusterName : String)
    (x : OpsM PUnit) : Prop :=
  ∀ m w m' w', m.nodeManager = base → w.podman.containers = cs →
    Session.exec env.handler x m w = ((.ok ⟨⟩, m'), w') →
    m'.nodeManager = base ∧ w'.podman.containers = cs ∧
    match lastShown (env.redis cs) (redisSent (Session.sent env.handler x m w)) with
    | none => m'.topo.masterIDs.length = m.topo.masterIDs.length
    | some text => m'.topo.masterIDs.length = shownMasters base clusterName text

section AsShown

variable {cs : List Container} {base : BaseNodeManager} {clusterName : String}

theorem asShown_setNodeAsSlave (hnum : base.num ≠ 0) (masterIP slaveIP : String) :
    AsShown env cs base clusterName
      (OpsM.manager (setNodeAsSlave masterIP slaveIP clusterName)) := by
  rintro m w m' w' rfl rfl hok
  rw [redisSent_manager]
  rw [OpsM.exec_manager] at hok
  have hkeeps := (setNodeAsSlave_keepsNodes masterIP slaveIP clusterName m.nodeManager).exec
    (h := env.redis w.podman.containers) (s := w.redis) rfl
  generalize hr : Session.exec (env.redis w.podman.containers)
    (setNodeAsSlave masterIP slaveIP clusterName) m w.redis = r at hok hkeeps
  obtain ⟨⟨e, m₁⟩, s₁⟩ := r
  cases hok
  obtain ⟨text, hlast, hlen⟩ := setNodeAsSlave_ok hnum hr
  rw [hlast]
  exact ⟨hkeeps, rfl, hlen⟩

theorem asShown_forM {α : Type} {f : α → OpsM PUnit} {l : List α}
    (hf : ∀ a ∈ l, AsShown env cs base clusterName (f a)) :
    AsShown env cs base clusterName (forM l f) := by
  induction l with
  | nil =>
    rintro m w m' w' hm hw hok
    cases hok
    exact ⟨hm, hw, rfl⟩
  | cons a l ih =>
    intro m w m' w' hm hw hok
    rw [List.forM_cons] at hok ⊢
    obtain ⟨_, m₁, w₁, hfirst, hrest⟩ := Session.exec_bind_ok hok
    obtain ⟨hm₁, hw₁, hlen₁⟩ := hf a List.mem_cons_self m w m₁ w₁ hm hw hfirst
    obtain ⟨hm', hw', hlen'⟩ := ih (fun b hb => hf b (List.mem_cons_of_mem _ hb)) m₁ w₁ m' w' hm₁
      hw₁ hrest
    refine ⟨hm', hw', ?_⟩
    rw [Session.sent_bind_of_ok hfirst, redisSent_append, lastShown_append]
    -- the rest decides, and if it has read nothing, the first does
    cases hlast : lastShown (env.redis cs)
      (redisSent (Session.sent env.handler (forM l f) m₁ w₁)) with
    | none =>
      rw [hlast] at hlen'
      rw [Option.none_or, hlen']
      exact hlen₁
    | some text =>
      rw [hlast] at hlen'
      exact hlen'

end AsShown

namespace Scale

theorem sent_assignNewRoles {σ : Type} {h : Handler RedisCmd RedisCmd.Reply σ} {s : σ}
    (nodesPerShard : ℤ) (nodes : List RuntimeNode) (r : NewRoles) :
    Session.sent h (assignNewRoles nodesPerShard nodes r) m s = [] := by
  have key : ∀ r, Session.Sends (fun _ => False) (assignNewRoles nodesPerShard nodes r) := by
    induction nodes with
    | nil => exact fun r => Session.Sends.pure _
    | cons node nodes ih =>
      refine fun r => Session.Sends.get.bind fun c => ?_
      dsimp only
      exact Session.Sends.ite ((Session.Sends.modify _).bind fun _ => ih _) (ih _)
  exact (key r).sent_eq_nil

/-- The nodes that get a role: the last ones. -/
def newNodes (additionalShards nodesPerShard : ℤ) (base : BaseNodeManager) : List RuntimeNode :=
  if additionalShards * nodesPerShard < 0 then []
  else base.nodes.drop (base.num - (additionalShards * nodesPerShard).toNat)

/-- Make each node the replica it is to be. -/
def replicateAll (r : NewRoles) (order : List (String × List String)) (clusterName : String) :
    OpsM PUnit :=
  forM order fun (k, v) =>
    forM v fun slaveID =>
      OpsM.manager (setNodeAsSlave ((r.idToIP.lookup k).getD "")
        ((r.idToIP.lookup slaveID).getD "") clusterName)

/-- Setting the roles is dealing them out, for which nothing is sent, and a loop over the
replicas. -/
theorem setRoles_inv {additionalShards nodesPerShard : ℤ} {clusterName : String}
    (hok : Session.exec env.handler (setRoles additionalShards nodesPerShard clusterName).action
      m w = ((.ok ⟨⟩, m'), w')) :
    additionalShards * nodesPerShard ≤ m.nodeManager.num ∧ ∃ r m₂ w₂,
      Session.exec env.handler (OpsM.manager (assignNewRoles nodesPerShard
        (newNodes additionalShards nodesPerShard m.nodeManager) {}))
        { m with topo := m.topo.resetEmptyMasters } w = ((.ok r, m₂), w₂) ∧
      Session.exec env.handler (replicateAll r (env.mapOrder w₂.clock r.masterToSlave) clusterName)
        m₂ w₂ = ((.ok ⟨⟩, m'), w') ∧
      redisSent (Session.sent env.handler
        (setRoles additionalShards nodesPerShard clusterName).action m w) =
        redisSent (Session.sent env.handler
          (replicateAll r (env.mapOrder w₂.clock r.masterToSlave) clusterName) m₂ w₂) := by
  rw [setRoles] at hok ⊢
  dsimp only at hok ⊢
  obtain ⟨_, m₁, w₁, hreset, hok⟩ := Session.exec_bind_ok hok
  rw [Session.sent_bind_of_ok hreset, redisSent_append, redisSent_manager]
  cases hreset
  rw [Session.exec_bind, Session.exec_get] at hok
  rw [Session.sent_bind, Session.exec_get, Session.sent_get]
  dsimp only at hok ⊢
  simp only [Session.throw_bind] at hok ⊢
  by_cases hsum : (m.nodeManager.num : ℤ) < additionalShards * nodesPerShard
  · rw [if_pos hsum] at hok
    cases hok
  rw [if_neg hsum] at hok ⊢
  obtain ⟨r, m₂, w₂, hassign, hok⟩ := Session.exec_bind_ok hok
  refine ⟨not_lt.mp hsum, r, m₂, w₂, hassign, ?_, ?_⟩
  · rw [Session.exec_bind, OpsM.exec_mapOrder] at hok
    exact hok
  · rw [Session.sent_bind_of_ok hassign, List.nil_append, redisSent_append, redisSent_manager,
      sent_assignNewRoles, Session.sent_bind, OpsM.exec_mapOrder, redisSent_append]
    rfl

theorem asShown_replicateAll {cs : List Container} {base : BaseNodeManager} {clusterName : String}
    (hnum : base.num ≠ 0) (r : NewRoles) (order : List (String × List String)) :
    AsShown env cs base clusterName (replicateAll r order clusterName) :=
  asShown_forM fun _ _ => asShown_forM fun _ _ => asShown_setNodeAsSlave hnum _ _

/-- **The masters that are known when the roles are set are those of the last reply.** -/
theorem setRoles_ok {additionalShards nodesPerShard : ℤ} {clusterName text : String}
    (hnum : m.nodeManager.num ≠ 0)
    (hok : Session.exec env.handler (setRoles additionalShards nodesPerShard clusterName).action
      m w = ((.ok ⟨⟩, m'), w'))
    (hlast : lastShown (env.redis w.podman.containers) (redisSent (Session.sent env.handler
      (setRoles additionalShards nodesPerShard clusterName).action m w)) = some text) :
    m'.topo.masterIDs.length = shownMasters m.nodeManager clusterName text := by
  obtain ⟨-, r, m₂, w₂, hassign, hloop, hsent⟩ := setRoles_inv hok
  obtain ⟨hbase, hpodman⟩ := exec_manager_same (assignNewRoles_keepsNodes nodesPerShard _ _) hassign
  obtain ⟨-, -, hlen⟩ := asShown_replicateAll hnum r _ m₂ w₂ m' w' hbase
    (congrArg PodmanState.containers hpodman) hloop
  rw [← hsent, hlast] at hlen
  exact hlen

/-- When there are no new nodes, no node waits for slots. -/
theorem setRoles_empty {additionalShards nodesPerShard : ℤ} {clusterName : String}
    (hnew : newNodes additionalShards nodesPerShard m.nodeManager = [])
    (hok : Session.exec env.handler (setRoles additionalShards nodesPerShard clusterName).action
      m w = ((.ok ⟨⟩, m'), w')) : m'.topo.empty = [] := by
  obtain ⟨-, r, m₂, w₂, hassign, hloop, -⟩ := setRoles_inv hok
  rw [hnew] at hassign
  cases hassign
  rw [(env.mapOrder_perm _ _).eq_nil] at hloop
  cases hloop
  rfl

/-- Without a master that waits for slots, or without any, there is nothing to migrate. -/
theorem exec_migrateSlots_of_none (env : OpsEnv ρ) {clusterName : String}
    (hnone : m.topo.empty = [] ∨ m.topo.masterIDs = []) (w : World ρ) :
    ∃ err, Session.exec env.handler (migrateSlots clusterName).action m w =
      ((.error (.error err), m), w) := by
  rw [migrateSlots, OpsM.exec_manager, migrateSlotsToEmptyNode, Session.exec_bind, Session.exec_get]
  dsimp only
  simp only [Session.fail_bind]
  split
  · exact ⟨_, rfl⟩
  rename_i hempty
  rw [if_pos (hnone.resolve_left hempty)]
  exact ⟨_, rfl⟩

/-- Slots have been migrated from masters to masters. -/
theorem migrateSlots_ok {clusterName : String}
    (hok : Session.exec env.handler (Pipeline.executeStep (migrateSlots clusterName)) m w =
      ((.ok (.ok ⟨⟩), m'), w')) : m.topo.empty ≠ [] ∧ m.topo.masterIDs ≠ [] := by
  by_contra hnone
  replace hnone : m.topo.empty = [] ∨ m.topo.masterIDs = [] := by
    simpa only [not_and_or, not_not] using hnone
  -- a try that fails so leaves the memory as it is, and the next one fails again
  have hkeeps : (migrateSlots clusterName).Keeps env.handler fun m' _ => m' = m := by
    rintro _ w rfl
    obtain ⟨err, hfail⟩ := exec_migrateSlots_of_none env hnone w
    rw [hfail]
  obtain ⟨j, -, htry, -⟩ := Pipeline.executeStep_ok hok
  obtain ⟨err, hfail⟩ := exec_migrateSlots_of_none env hnone
    (Pipeline.beforeTry env.handler (migrateSlots clusterName) j m w).2
  rw [Pipeline.beforeTry_inv hkeeps j rfl, hfail] at htry
  cases htry

end Scale

end ClusterManager
