import ClusterManager.Backend.Leftovers
import ClusterManager.Ops.Create

/-!
# What a second try of `create-containers` adds

The step is tried twice, and each try asks the backend for the same number of containers. The
backend takes the next index from the number of nodes it tracks, and keeps what it tracked in
a try that has failed. So the second try does not go on where the first one has stopped: it
creates all containers once more, after those of the first.

How many nodes there are in the end is therefore decided by the first try alone. They are as
many as were asked for exactly if that try got all its containers ready, or not even the first
one (`createContainers_tracks_iff`).
-/

namespace ClusterManager

/-- Nodes of the cluster are counted. -/
theorem countByCluster_addNodes {base : BaseNodeManager} {clusterName : String}
    {new : List RuntimeNode} (hnew : ∀ node ∈ new, node.clusterName = clusterName) :
    (base.addNodes new).countByCluster clusterName =
      base.countByCluster clusterName + new.length := by
  have hall : new.filter (fun node => node.clusterName == clusterName) = new :=
    List.filter_eq_self.mpr fun node hnode => beq_iff_eq.mpr (hnew node hnode)
  rw [BaseNodeManager.countByCluster, BaseNodeManager.nodes_addNodes, List.filter_append, hall,
    List.length_append]
  rfl

/-- **A try stops short**: its first container gets ready, and not all of them do. -/
def StopsShort (env : PodmanEnv) (cfg : RuntimeConfig) (clusterName : String) (n : ℤ)
    (base : BaseNodeManager) (s : PodmanState) : Prop :=
  (∃ s₁, PodsReady env cfg clusterName [base.num + 1] s s₁) ∧
    ¬ ∃ s', PodsReady env cfg clusterName ((List.range n.toNat).map (base.num + 1 + ·)) s s'

section Tries

variable {env : PodmanEnv} {cfg : RuntimeConfig} {clusterName : String} {n : ℤ}
  {base base' : BaseNodeManager} {s s' : PodmanState}

theorem PodsReady.not_unready {i : ℕ} {s₁ s₂ : PodmanState} {l : List ℕ}
    (h : PodsReady env cfg clusterName (i :: l) s s₁) : ¬ Unready env cfg clusterName i s s₂ := by
  rintro ⟨id, s₃, r, hstart, hwait, hr⟩
  cases h with
  | cons hstart' hwait' _ =>
    cases hstart.symm.trans hstart'
    cases hwait.symm.trans hwait'
    exact hr _ _ rfl

theorem PodsReady.not_refused {i : ℕ} {s₁ s₂ : PodmanState} {l : List ℕ} {err : String}
    (h : PodsReady env cfg clusterName (i :: l) s s₁) :
    (startPod cfg clusterName i).run (podmanHandler env) s ≠ (.error err, s₂) := by
  intro hstart
  cases h with
  | cons hstart' _ _ => cases hstart.symm.trans hstart'

/-- A try that succeeds tracks what it was asked for. -/
theorem count_of_ok (h : (createPods cfg base n clusterName).run (podmanHandler env) s =
      ((.ok (), base'), s')) :
    base'.countByCluster clusterName = base.countByCluster clusterName + n.toNat ∧
      ¬ StopsShort env cfg clusterName n base s := by
  obtain ⟨k, s₁, new, hready, hnames, hcluster, rfl, hend⟩ := createPods_ends h
  have hlen : new.length = k := by simpa using congrArg List.length hnames
  cases hend with
  | done hk =>
    subst hk
    exact ⟨by rw [countByCluster_addNodes hcluster, hlen], fun hstops => hstops.2 ⟨_, hready⟩⟩

/-- A try that fails tracks something exactly if it stops short. -/
theorem count_of_error {err : String}
    (h : (createPods cfg base n clusterName).run (podmanHandler env) s =
      ((.error err, base'), s')) :
    0 < n ∧ (base'.countByCluster clusterName = base.countByCluster clusterName ↔
      ¬ StopsShort env cfg clusterName n base s) := by
  obtain ⟨k, s₁, new, hready, hnames, hcluster, rfl, hend⟩ := createPods_ends h
  have hlen : new.length = k := by simpa using congrArg List.length hnames
  have hk : k < n.toNat := by
    cases hend with
    | refused hk => exact hk
    | unready hk => exact hk
  refine ⟨by omega, ?_⟩
  rw [countByCluster_addNodes hcluster, hlen]
  rcases k with _ | k
  · -- the first container was refused, or waited for in vain
    cases hready
    refine iff_of_true rfl ?_
    rintro ⟨⟨s₂, hfirst⟩, -⟩
    cases hend with
    | refused _ hstart => exact hfirst.not_refused hstart
    | unready _ hunready => exact hfirst.not_unready hunready
  · refine iff_of_false (by omega) fun hnot => hnot ⟨?_, ?_⟩
    · rw [range_map_add_succ] at hready
      cases hready with
      | cons hstart hwait _ => exact ⟨_, .cons hstart hwait .nil⟩
    · rintro ⟨s₂, hall⟩
      obtain ⟨new', -, -, hrun⟩ := hall.createPods_ok
      cases hrun.symm.trans h

end Tries

/-- **How many nodes the step tracks** when it succeeds on a cluster without any. -/
theorem createContainers_tracks_iff {ρ : Type} (env : OpsEnv ρ) (cfg : RuntimeConfig)
    (shardCount nodesPerShard : ℤ) (clusterName : String) (m m' : Manager) (w w' : World ρ)
    (hnone : ∀ node ∈ m.nodeManager.nodes, node.clusterName ≠ clusterName)
    (hok : Session.exec env.handler
      (Pipeline.executeStep (Create.createContainers cfg shardCount nodesPerShard clusterName))
        m w =
        ((.ok (.ok ⟨⟩), m'), w')) :
    (m'.nodeManager.countByCluster clusterName : ℤ) = shardCount * nodesPerShard ↔
      0 ≤ shardCount * nodesPerShard ∧
        ¬ StopsShort env.podman cfg clusterName (shardCount * nodesPerShard) m.nodeManager
          w.podman := by
  have hzero : m.nodeManager.countByCluster clusterName = 0 := by
    rw [BaseNodeManager.countByCluster, List.length_eq_zero_iff, List.filter_eq_nil_iff]
    simpa using hnone
  obtain ⟨j, hj, haction, hfails⟩ := Pipeline.executeStep_ok hok
  have hj : j < 2 := hj
  rcases j with _ | _ | j
  · -- the first try has succeeded
    obtain ⟨-, -, hrun⟩ := createPods_of_ok haction
    obtain ⟨hcount, hnot⟩ := count_of_ok hrun
    have hcount : m'.nodeManager.countByCluster clusterName =
        (shardCount * nodesPerShard).toNat := by
      rw [hcount]
      exact (congrArg (· + _) hzero).trans (Nat.zero_add _)
    rw [hcount, Int.toNat_eq_max, max_eq_left_iff]
    exact (and_iff_left hnot).symm
  · -- the first try has failed, and the second one has created all containers once more
    obtain ⟨err, hfail⟩ := hfails 0 (by omega)
    obtain ⟨err', hrun₀⟩ := createPods_of_error hfail
    obtain ⟨hpos, hfirst⟩ := count_of_error hrun₀
    obtain ⟨-, -, hrun₁⟩ := createPods_of_ok haction
    obtain ⟨hcount, -⟩ := count_of_ok hrun₁
    refine Iff.trans ?_ (and_iff_right hpos.le).symm
    refine Iff.trans ?_ hfirst
    have hzero : (Pipeline.beforeTry env.handler (Create.createContainers cfg shardCount
        nodesPerShard clusterName) 0 m w).1.nodeManager.countByCluster clusterName = 0 := hzero
    rw [hcount, hzero, Nat.cast_add, Int.toNat_of_nonneg hpos.le, add_eq_right, Nat.cast_eq_zero]
    rfl
  · omega

/-- A world in which `podman run` fails once, as the request of the given number. -/
def stumblingEnv (t : ℕ) : OpsEnv Unit where
  podman :=
    { regex := dotMatch
      create := fun n spec => ⟨spec.name, spec.name, "10.88.0.9", true, [(6379, 40001 + n)]⟩
      create_name := slowPodman.create_name
      error := fun n c =>
        match c with
        | .run _ => if n = t then some "exit status 125" else none
        | _ => none }
  redis _ := frozenRedis ""

/-- The step for one shard of two nodes. -/
def pairStep (t : ℕ) : (Except Failure (Except String PUnit) × Manager) × World Unit :=
  Session.exec (stumblingEnv t).handler
    (Pipeline.executeStep (Create.createContainers plainConfig 1 2 "m")) { nodesPerShard := 2 }
    { podman := ⟨[], 0⟩, redis := () }

/-- The first try is refused its first container, and the second one creates both. -/
theorem createContainers_tracks_of_first :
    ((pairStep 2).1.2.nodeManager.countByCluster "m" : ℤ) = 1 * 2 := by
  refine (createContainers_tracks_iff (stumblingEnv 2) plainConfig 1 2 "m" { nodesPerShard := 2 }
    _ { podman := ⟨[], 0⟩, redis := () } (pairStep 2).2 nofun ?_).mpr ⟨by decide, ?_⟩
  · have hok : (pairStep 2).1.1 = .ok (.ok ⟨⟩) := by decide +kernel
    exact Prod.ext (Prod.ext hok rfl) rfl
  · have hrefused : (startPod plainConfig "m" 1).run (podmanHandler (stumblingEnv 2).podman)
        ⟨[], 0⟩ = (.error "failed to run container m-redis-1: exit status 125", ⟨[], 3⟩) := by
      decide +kernel
    rintro ⟨⟨s₁, hfirst⟩, -⟩
    exact hfirst.not_refused hrefused

/-- It is refused its second one, and in the end there are three. -/
theorem createContainers_surplus :
    (pairStep 9).1.1 = .ok (.ok ⟨⟩) ∧
      ((pairStep 9).1.2.nodeManager.countByCluster "m" : ℤ) ≠ 1 * 2 := by
  decide +kernel

end ClusterManager
