import ClusterManager.Backend.Tracking

/-!
# What a failed creation of containers leaves

`CreatePods` starts its containers one after the other and gives up at the first one that
cannot be started or does not get ready. Only in the second case does it remove what it
has started: there it calls `cleanupContainers`, from the first container of the call to
the one it has waited for. When the context is done, the data directory cannot be made or
`podman run` fails, it returns at once, and the containers before stay.

`PodsReady` are the passes of the loop that have gone well, `Unready` is a pass that ends
in the wait. A call goes through some of the first kind, tracks their containers, and ends
(`createPods_ends`). One that fails leaves no container of the cluster exactly if it was
refused its first container, or was waiting for one and the removals took effect
(`createPods_leavesNone_iff`).

What the call has tracked it never forgets, not even when it removes the containers. So the
tracked nodes stay backed by containers exactly if it does not wait in vain for a container
after its first one (`createPods_backed_iff`).
-/

namespace ClusterManager

section Leftovers

variable {env : PodmanEnv} {cfg : RuntimeConfig} {clusterName : String} {s s' s₁ s₂ : PodmanState}

/-! ### How a call goes -/

/-- The containers of the indices are started one after the other, and each gets ready. -/
inductive PodsReady (env : PodmanEnv) (cfg : RuntimeConfig) (clusterName : String) :
    List ℕ → PodmanState → PodmanState → Prop
  | nil {s : PodmanState} : PodsReady env cfg clusterName [] s s
  | cons {i : ℕ} {rest : List ℕ} {id ip : String} {hostPort : UInt16} {s s₁ s₂ s' : PodmanState}
      (hstart : (startPod cfg clusterName i).run (podmanHandler env) s = (.ok id, s₁))
      (hwait : (waitReady id cfg.redisContainerPort.toNat 61).run (podmanHandler env) s₁ =
        (.ready ip hostPort, s₂))
      (hrest : PodsReady env cfg clusterName rest s₂ s') :
      PodsReady env cfg clusterName (i :: rest) s s'

/-- The container of the index is started and does not get ready. -/
def Unready (env : PodmanEnv) (cfg : RuntimeConfig) (clusterName : String) (i : ℕ)
    (s s' : PodmanState) : Prop :=
  ∃ id s₁ r, (startPod cfg clusterName i).run (podmanHandler env) s = (.ok id, s₁) ∧
    (waitReady id cfg.redisContainerPort.toNat 61).run (podmanHandler env) s₁ = (r, s') ∧
    ∀ ip hostPort, r ≠ .ready ip hostPort

/-- A call of `CreatePods` for `n` containers leaves none: it is refused the first one, or
it waits for one in vain and its removals take effect. -/
def LeavesNone (env : PodmanEnv) (cfg : RuntimeConfig) (clusterName : String) (n : ℤ)
    (base : BaseNodeManager) (s : PodmanState) : Prop :=
  Refuses env cfg clusterName (base.num + 1) s ∨
    ∃ k < n.toNat, ∃ s₁ s₂,
      PodsReady env cfg clusterName ((List.range k).map (base.num + 1 + ·)) s s₁ ∧
      Unready env cfg clusterName (base.num + 1 + k) s₁ s₂ ∧
      ∀ j ≤ k, env.TakesEffect (s₂.clock + j) (.rm (containerName clusterName (base.num + 1 + j)))

/-- A container that has been started is there, under a new name. -/
theorem startPod_ok {i : ℕ} {id : String}
    (h : (startPod cfg clusterName i).run (podmanHandler env) s = (.ok id, s')) :
    ∃ new, new.name = containerName clusterName i ∧ s'.containers = s.containers ++ [new] ∧
      containerName clusterName i ∉ s.containers.map Container.name := by
  rcases run_startPod env cfg clusterName i s with
    ⟨-, err, s₁, hrun, -⟩ | ⟨-, r, s₁, hrun, hs₁, hok⟩
  · cases hrun.symm.trans h
  · cases hrun.symm.trans h
    obtain ⟨hnew, -⟩ := hok id rfl
    exact ⟨_, env.create_name _ _, hs₁.trans (if_neg hnew), hnew⟩

/-- Waiting changes no container. -/
theorem containers_waitReady {id : String} {port n : ℕ} {r : WaitResult}
    (hwait : (waitReady id port n).run (podmanHandler env) s = (r, s')) :
    s'.containers = s.containers := by
  have hrun : ((waitReady id port n).run (podmanHandler env) s).2.containers = s.containers :=
    containers_run_of_reads (waitReady_reads id port n)
  rw [hwait] at hrun
  exact hrun

/-- The containers that got ready are there, -/
theorem PodsReady.containers {l : List ℕ} (h : PodsReady env cfg clusterName l s s') :
    ∃ new, s'.containers = s.containers ++ new ∧
      new.map Container.name = l.map (containerName clusterName) := by
  induction h with
  | nil => exact ⟨[], by simp⟩
  | @cons i rest id ip hostPort s s₁ s₂ s' hstart hwait _ ih =>
    obtain ⟨c, hname, hs₁, -⟩ := startPod_ok hstart
    have hs₂ := containers_waitReady hwait
    obtain ⟨new, hs', hnames⟩ := ih
    refine ⟨c :: new, ?_, ?_⟩
    · rw [hs', hs₂, hs₁, List.append_assoc, List.singleton_append]
    · rw [List.map_cons, List.map_cons, hname, hnames]

/-- and the one that did not is there too. -/
theorem Unready.containers {i : ℕ} (h : Unready env cfg clusterName i s s') :
    ∃ new, new.name = containerName clusterName i ∧ s'.containers = s.containers ++ [new] ∧
      containerName clusterName i ∉ s.containers.map Container.name := by
  obtain ⟨id, s₁, r, hstart, hwait, -⟩ := h
  obtain ⟨new, hname, hs₁, hnew⟩ := startPod_ok hstart
  exact ⟨new, hname, (containers_waitReady hwait).trans hs₁, hnew⟩

/-- The loop goes on after the containers that got ready, and tracks them. -/
theorem PodsReady.run {l : List ℕ} (h : PodsReady env cfg clusterName l s s') :
    ∃ new, new.map RuntimeNode.name = l.map (containerName clusterName) ∧
      (∀ node ∈ new, node.clusterName = clusterName) ∧
      ∀ start rest base,
        (createPodsFrom cfg clusterName start (l ++ rest) base).run (podmanHandler env) s =
          (createPodsFrom cfg clusterName start rest (base.addNodes new)).run (podmanHandler env)
            s' := by
  induction h with
  | nil => exact ⟨[], rfl, nofun, fun _ _ _ => rfl⟩
  | @cons i l id ip hostPort s s₁ s₂ s' hstart hwait _ ih =>
    obtain ⟨new, hnames, hcluster, hrun⟩ := ih
    refine ⟨withAddress (createdNode cfg clusterName i id ip hostPort) :: new, ?_, ?_, ?_⟩
    · rw [List.map_cons, List.map_cons, hnames, withAddress_name]
      rfl
    · intro node hnode
      rcases List.mem_cons.mp hnode with rfl | hnode
      · exact withAddress_clusterName _
      · exact hcluster node hnode
    · intro start rest base
      rw [List.cons_append, createPodsFrom_eq, Program.run_bind, hstart]
      simp only [Program.run_bind, hwait]
      exact hrun start rest _

/-- A call that waits in vain removes what it has started. -/
theorem Unready.run {i : ℕ} (h : Unready env cfg clusterName i s s') (start : ℕ)
    (rest : List ℕ) (base : BaseNodeManager) :
    ∃ err, (createPodsFrom cfg clusterName start (i :: rest) base).run (podmanHandler env) s =
      ((.error err, base),
        ((cleanupContainers clusterName start i).run (podmanHandler env) s').2) := by
  obtain ⟨id, s₁, r, hstart, hwait, hr⟩ := h
  rw [createPodsFrom_eq, Program.run_bind, hstart]
  simp only [Program.run_bind, hwait]
  rcases r with ⟨ip, hostPort⟩ | _ | err
  · exact absurd rfl (hr ip hostPort)
  · exact ⟨_, Program.run_bind _ _ _ _⟩
  · exact ⟨_, Program.run_bind _ _ _ _⟩

/-- A call that cannot start a container stops there. -/
theorem run_of_startPod_error {i : ℕ} {err : String}
    (h : (startPod cfg clusterName i).run (podmanHandler env) s = (.error err, s')) (start : ℕ)
    (rest : List ℕ) (base : BaseNodeManager) :
    (createPodsFrom cfg clusterName start (i :: rest) base).run (podmanHandler env) s =
      ((.error err, base), s') := by
  rw [createPodsFrom_eq, Program.run_bind, h]
  rfl

variable (env cfg clusterName) in
/-- **How far the containers of a range get**: they all get ready, or some do and the next one
cannot be started or does not get ready. -/
theorem podsReady_or (a n : ℕ) (s : PodmanState) :
    (∃ s', PodsReady env cfg clusterName ((List.range n).map (a + ·)) s s') ∨
      ∃ k < n, ∃ s₁, PodsReady env cfg clusterName ((List.range k).map (a + ·)) s s₁ ∧
        ((∃ err s', (startPod cfg clusterName (a + k)).run (podmanHandler env) s₁ =
            (.error err, s')) ∨
          ∃ s₂, Unready env cfg clusterName (a + k) s₁ s₂) := by
  induction n generalizing s a with
  | zero => exact Or.inl ⟨s, .nil⟩
  | succ n ih =>
    rcases hstart : (startPod cfg clusterName a).run (podmanHandler env) s with ⟨err | id, s₁⟩
    · exact Or.inr ⟨0, by omega, s, .nil, Or.inl ⟨err, s₁, hstart⟩⟩
    rcases hwait : (waitReady id cfg.redisContainerPort.toNat 61).run (podmanHandler env) s₁ with
      ⟨r, s₂⟩
    by_cases hr : ∃ ip hostPort, r = .ready ip hostPort
    · obtain ⟨ip, hostPort, rfl⟩ := hr
      rcases ih (a + 1) s₂ with ⟨s', hready⟩ | ⟨k, hk, s₃, hready, hend⟩
      · rw [range_map_add_succ]
        exact Or.inl ⟨s', .cons hstart hwait hready⟩
      · have hidx : a + 1 + k = a + (k + 1) := by omega
        refine Or.inr ⟨k + 1, by omega, s₃, ?_, hidx ▸ hend⟩
        rw [range_map_add_succ]
        exact .cons hstart hwait hready
    · exact Or.inr ⟨0, by omega, s, .nil, Or.inr ⟨s₂, id, s₁, r, hstart, hwait,
        fun ip hostPort heq => hr ⟨ip, hostPort, heq⟩⟩⟩

theorem exists_range_map_add_eq {k n : ℕ} (hk : k < n) (a : ℕ) :
    ∃ rest, (List.range n).map (a + ·) = (List.range k).map (a + ·) ++ (a + k) :: rest := by
  obtain ⟨m, rfl⟩ : ∃ m, n = k + (m + 1) := ⟨n - k - 1, by omega⟩
  refine ⟨(List.range m).map (a + k + 1 + ·), ?_⟩
  rw [← range_map_add_succ, List.range_add, List.map_append, List.map_map]
  refine congrArg (_ ++ ·) (List.map_congr_left fun i _ => ?_)
  exact (Nat.add_assoc a k i).symm

/-- How a call ends whose containers get ready up to one that does not: the node manager
tracks those that did. -/
theorem PodsReady.createPods {k : ℕ} {n : ℤ} {base : BaseNodeManager} (hk : k < n.toNat)
    (h : PodsReady env cfg clusterName ((List.range k).map (base.num + 1 + ·)) s s₁) :
    ∃ new, new.map RuntimeNode.name =
        ((List.range k).map (base.num + 1 + ·)).map (containerName clusterName) ∧
      (∀ node ∈ new, node.clusterName = clusterName) ∧
      (∀ err s', (startPod cfg clusterName (base.num + 1 + k)).run (podmanHandler env) s₁ =
          (.error err, s') →
        (ClusterManager.createPods cfg base n clusterName).run (podmanHandler env) s =
          ((.error err, base.addNodes new), s')) ∧
      ∀ s₂, Unready env cfg clusterName (base.num + 1 + k) s₁ s₂ → ∃ err,
        (ClusterManager.createPods cfg base n clusterName).run (podmanHandler env) s =
          ((.error err, base.addNodes new),
            ((cleanupContainers clusterName (base.num + 1) (base.num + 1 + k)).run
              (podmanHandler env) s₂).2) := by
  obtain ⟨rest, hsplit⟩ := exists_range_map_add_eq hk (base.num + 1)
  obtain ⟨new, hnames, hcluster, hrun⟩ := h.run
  refine ⟨new, hnames, hcluster, fun err s' hstart => ?_, fun s₂ hunready => ?_⟩
  · rw [ClusterManager.createPods]
    simp only [hsplit, hrun]
    exact run_of_startPod_error hstart _ _ _
  · rw [ClusterManager.createPods]
    simp only [hsplit, hrun]
    exact hunready.run _ _ _

/-- A call all of whose containers get ready succeeds. -/
theorem PodsReady.createPods_ok {n : ℤ} {base : BaseNodeManager}
    (h : PodsReady env cfg clusterName ((List.range n.toNat).map (base.num + 1 + ·)) s s') :
    ∃ new, new.map RuntimeNode.name =
        ((List.range n.toNat).map (base.num + 1 + ·)).map (containerName clusterName) ∧
      (∀ node ∈ new, node.clusterName = clusterName) ∧
      (ClusterManager.createPods cfg base n clusterName).run (podmanHandler env) s =
        ((.ok (), base.addNodes new), s') := by
  obtain ⟨new, hnames, hcluster, hrun⟩ := h.run
  refine ⟨new, hnames, hcluster, ?_⟩
  have hend := hrun (base.num + 1) [] base
  rwa [List.append_nil] at hend

/-- The ways in which a call can end after `k` containers got ready and `s₁` was reached. -/
inductive PodsEnd (env : PodmanEnv) (cfg : RuntimeConfig) (clusterName : String) (start k n : ℕ)
    (s₁ : PodmanState) : Except String Unit → PodmanState → Prop
  | done (hk : k = n) : PodsEnd env cfg clusterName start k n s₁ (.ok ()) s₁
  | refused {err : String} {s' : PodmanState} (hk : k < n)
      (hstart : (startPod cfg clusterName (start + k)).run (podmanHandler env) s₁ =
        (.error err, s')) :
      PodsEnd env cfg clusterName start k n s₁ (.error err) s'
  | unready {err : String} {s₂ : PodmanState} (hk : k < n)
      (hunready : Unready env cfg clusterName (start + k) s₁ s₂) :
      PodsEnd env cfg clusterName start k n s₁ (.error err)
        ((cleanupContainers clusterName start (start + k)).run (podmanHandler env) s₂).2

/-- **How a call goes**: some containers get ready and are tracked, and then it ends. -/
theorem createPods_ends {n : ℤ} {base base' : BaseNodeManager} {r : Except String Unit}
    (h : (createPods cfg base n clusterName).run (podmanHandler env) s = ((r, base'), s')) :
    ∃ k s₁ new, PodsReady env cfg clusterName ((List.range k).map (base.num + 1 + ·)) s s₁ ∧
      new.map RuntimeNode.name =
        ((List.range k).map (base.num + 1 + ·)).map (containerName clusterName) ∧
      (∀ node ∈ new, node.clusterName = clusterName) ∧
      base' = base.addNodes new ∧
      PodsEnd env cfg clusterName (base.num + 1) k n.toNat s₁ r s' := by
  rcases podsReady_or env cfg clusterName (base.num + 1) n.toNat s with
    ⟨s₁, hready⟩ | ⟨k, hk, s₁, hready, hend⟩
  · obtain ⟨new, hnames, hcluster, hrun⟩ := hready.createPods_ok
    cases hrun.symm.trans h
    exact ⟨_, _, new, hready, hnames, hcluster, rfl, .done rfl⟩
  · obtain ⟨new, hnames, hcluster, hstop, hwait⟩ := hready.createPods hk
    refine ⟨k, s₁, new, hready, hnames, hcluster, ?_⟩
    rcases hend with ⟨err, s₂, hstart⟩ | ⟨s₂, hunready⟩
    · cases (hstop err s₂ hstart).symm.trans h
      exact ⟨rfl, .refused hk hstart⟩
    · obtain ⟨err, hrun⟩ := hwait s₂ hunready
      cases hrun.symm.trans h
      exact ⟨rfl, .unready hk hunready⟩

/-! ### What is left -/

/-- What is left after the removals: what was there, without the containers whose removal
has taken effect. -/
theorem mem_cleanupContainers {c : Container} {a k : ℕ} :
    c ∈ ((cleanupContainers clusterName a (a + k)).run (podmanHandler env) s).2.containers ↔
      c ∈ s.containers ∧ ∀ j ≤ k, c.name = containerName clusterName (a + j) →
        ¬ env.TakesEffect (s.clock + j) (.rm (containerName clusterName (a + j))) := by
  -- the loop removes the `n` containers from `a` on
  have key : ∀ (n a : ℕ) (s : PodmanState),
      c ∈ ((forM ((List.range n).map (a + ·)) fun i => do
          let _ ← sendPodman (.rm (containerName clusterName i))
          return ⟨⟩ : PodmanProgram PUnit).run (podmanHandler env) s).2.containers ↔
        c ∈ s.containers ∧ ∀ j < n, c.name = containerName clusterName (a + j) →
          ¬ env.TakesEffect (s.clock + j) (.rm (containerName clusterName (a + j))) := by
    intro n
    induction n with
    | zero => simp
    | succ n ih =>
      intro a s
      rw [range_map_add_succ, List.forM_cons, Program.run_bind, ih, Program.run_bind,
        Program.run_send, Program.run_pure, clock_podmanHandler]
      have hfirst : c ∈ (podmanHandler env s (.rm (containerName clusterName a))).2.containers ↔
          c ∈ s.containers ∧ (c.name = containerName clusterName a →
            ¬ env.TakesEffect s.clock (.rm (containerName clusterName a))) := by
        by_cases heffect : env.TakesEffect s.clock (.rm (containerName clusterName a))
        · rw [containers_of_takesEffect heffect]
          simp [PodmanState.effect, heffect]
        · rw [containers_of_not_takesEffect heffect]
          simp [heffect]
      rw [hfirst]
      constructor
      · rintro ⟨⟨hc, h₀⟩, hrest⟩
        refine ⟨hc, fun j hj => ?_⟩
        rcases j with _ | j
        · exact h₀
        · have h := hrest j (by omega)
          rwa [Nat.add_right_comm a, Nat.add_right_comm s.clock] at h
      · rintro ⟨hc, h⟩
        refine ⟨⟨hc, h 0 (by omega)⟩, fun j hj => ?_⟩
        have h := h (j + 1) (by omega)
        rwa [Nat.add_right_comm a, Nat.add_right_comm s.clock]
  rw [cleanupContainers, show a + k + 1 - a = k + 1 by omega, key]
  simp only [Nat.lt_succ_iff]

/-- A call that is refused its first container fails and leaves the containers as they
are. -/
theorem Refuses.run {a n : ℕ} (hn : 0 < n) (h : Refuses env cfg clusterName a s) (start : ℕ)
    (base : BaseNodeManager) :
    ∃ err s', (createPodsFrom cfg clusterName start ((List.range n).map (a + ·)) base).run
      (podmanHandler env) s = ((.error err, base), s') ∧ s'.containers = s.containers := by
  obtain ⟨n, rfl⟩ : ∃ m, n = m + 1 := ⟨n - 1, by omega⟩
  rw [range_map_add_succ, createPodsFrom_eq, Program.run_bind]
  rcases run_startPod env cfg clusterName a s with ⟨-, err, s₁, hrun, hs₁⟩ | ⟨hnot, -⟩
  · rw [hrun]
    exact ⟨err, s₁, rfl, hs₁⟩
  · exact absurd h hnot

/-- **When a failed call leaves no container** of a cluster that had none. -/
theorem createPods_leavesNone_iff {n : ℤ} {base base' : BaseNodeManager} {err : String}
    (hnone : ∀ c ∈ s.containers, ¬ c.OfCluster clusterName)
    (h : (createPods cfg base n clusterName).run (podmanHandler env) s =
      ((.error err, base'), s')) :
    (∀ c ∈ s'.containers, ¬ c.OfCluster clusterName) ↔
      LeavesNone env cfg clusterName n base s := by
  obtain ⟨k, s₁, tracked, hready, -, -, -, hend⟩ := createPods_ends h
  have hk : k < n.toNat := by
    cases hend with
    | refused hk => exact hk
    | unready hk => exact hk
  constructor
  · intro hleft
    cases hend with
    | refused _ hstart =>
      -- had a container got ready, it would be left
      obtain ⟨new, hs₁, hnames⟩ := hready.containers
      rcases run_startPod env cfg clusterName (base.num + 1 + k) s₁ with
        ⟨hrefuses, err'', s₂, hrun, hs₂⟩ | ⟨-, r, s₂, hrun, hs₂, -⟩
      · cases hrun.symm.trans hstart
        have hk₀ : k = 0 := by
          by_contra hne
          have hfirst : containerName clusterName (base.num + 1) ∈ new.map Container.name := by
            rw [hnames]
            refine List.mem_map_of_mem (List.mem_map.mpr ⟨0, List.mem_range.mpr (by omega), rfl⟩)
          obtain ⟨c, hc, hname⟩ := List.mem_map.mp hfirst
          exact hleft c (hs₂ ▸ hs₁ ▸ List.mem_append_right _ hc) ⟨_, hname⟩
        subst hk₀
        cases hready
        exact Or.inl hrefuses
      · cases hrun.symm.trans hstart
        -- the container is there although it was not started
        have hthere : containerName clusterName (base.num + 1 + k) ∈
            s'.containers.map Container.name := by
          rw [hs₂]
          split
          · assumption
          · rw [List.map_append, List.map_singleton, env.create_name]
            exact List.mem_append_right _ (List.mem_singleton_self _)
        obtain ⟨c, hc, hname⟩ := List.mem_map.mp hthere
        exact absurd ⟨_, hname⟩ (hleft c hc)
    | @unready _ s₂ _ hunready =>
      refine Or.inr ⟨k, hk, s₁, s₂, hready, hunready, fun j hj => ?_⟩
      -- the container of index `j` was there before the removals
      obtain ⟨new, hs₁, hnames⟩ := hready.containers
      obtain ⟨last, hlast, hs₂, -⟩ := hunready.containers
      have hthere : containerName clusterName (base.num + 1 + j) ∈
          s₂.containers.map Container.name := by
        rw [hs₂, hs₁, List.map_append, List.map_append, hnames, List.map_singleton, hlast]
        rcases Nat.lt_or_ge j k with hlt | hge
        · refine List.mem_append_left _ (List.mem_append_right _ ?_)
          exact List.mem_map_of_mem (List.mem_map.mpr ⟨j, List.mem_range.mpr hlt, rfl⟩)
        · obtain rfl : j = k := by omega
          exact List.mem_append_right _ (List.mem_singleton_self _)
      obtain ⟨c, hc, hname⟩ := List.mem_map.mp hthere
      by_contra hnot
      refine hleft c (mem_cleanupContainers.mpr ⟨hc, fun j' _ hname' => ?_⟩) ⟨_, hname⟩
      obtain rfl : j = j' := by
        have := containerName_inj.mp (hname.symm.trans hname')
        omega
      exact hnot
  · rintro (hrefuses | ⟨k', hk', s₃, s₄, hready', hunready', heffect⟩) c hc hof
    · obtain ⟨err', s₃, hrun, hsame⟩ := hrefuses.run (show 0 < n.toNat by omega)
        (base.num + 1) base
      cases hrun.symm.trans h
      exact hnone c (hsame ▸ hc) hof
    · obtain ⟨new, -, -, -, hwait⟩ := hready'.createPods hk'
      obtain ⟨err', hrun⟩ := hwait s₄ hunready'
      cases hrun.symm.trans h
      obtain ⟨hc₄, hstays⟩ := mem_cleanupContainers.mp hc
      -- what was there after the wait was there before, or was started by the call
      obtain ⟨added, hs₃, hnames⟩ := hready'.containers
      obtain ⟨last, hlast, hs₄, -⟩ := hunready'.containers
      rw [hs₄, hs₃] at hc₄
      rcases List.mem_append.mp hc₄ with hc₃ | hc₃
      · rcases List.mem_append.mp hc₃ with hold | hnew
        · exact hnone c hold hof
        · have hname := List.mem_map_of_mem (f := Container.name) hnew
          rw [hnames, List.map_map, List.mem_map] at hname
          obtain ⟨j, hj, hname⟩ := hname
          have hj' := List.mem_range.mp hj
          exact hstays j (by omega) hname.symm (heffect j (by omega))
      · obtain rfl := List.mem_singleton.mp hc₃
        exact hstays k' (Nat.le_refl _) hlast (heffect k' (Nat.le_refl _))

/-! ### What stays tracked -/

/-- Each tracked node has a container. -/
def Backed (base : BaseNodeManager) (s : PodmanState) : Prop :=
  ∀ node ∈ base.getNodes, node.name ∈ s.containers.map Container.name

/-- A call waits in vain for a container after its first one. -/
def WaitsLate (env : PodmanEnv) (cfg : RuntimeConfig) (clusterName : String) (n : ℤ)
    (base : BaseNodeManager) (s : PodmanState) : Prop :=
  ∃ k, 0 < k ∧ k < n.toNat ∧ ∃ s₁ s₂,
    PodsReady env cfg clusterName ((List.range k).map (base.num + 1 + ·)) s s₁ ∧
    Unready env cfg clusterName (base.num + 1 + k) s₁ s₂

section Tracked

variable {base : BaseNodeManager} {new : List RuntimeNode}

theorem Backed.mono (h : Backed base s) (hs : ∀ c ∈ s.containers, c ∈ s'.containers) :
    Backed base s' := by
  intro node hnode
  obtain ⟨c, hc, hname⟩ := List.mem_map.mp (h node hnode)
  exact List.mem_map.mpr ⟨c, hs c hc, hname⟩

/-- The nodes of new containers are backed by them. -/
theorem Backed.addNodes {l : List ℕ} (h : Backed base s)
    (hnames : new.map RuntimeNode.name = l.map (containerName clusterName))
    (hready : PodsReady env cfg clusterName l s s') : Backed (base.addNodes new) s' := by
  obtain ⟨added, hs', hadded⟩ := hready.containers
  intro node hnode
  rw [BaseNodeManager.getNodes, BaseNodeManager.nodes_addNodes, List.mem_append] at hnode
  rw [hs', List.map_append, List.mem_append]
  rcases hnode with hold | hnew
  · exact Or.inl (h node hold)
  · right
    rw [hadded, ← hnames]
    exact List.mem_map_of_mem hnew

/-- A container that cannot be started takes none away. -/
theorem mem_containers_of_startPod {i : ℕ} {r : Except String String} {c : Container}
    (h : (startPod cfg clusterName i).run (podmanHandler env) s = (r, s'))
    (hc : c ∈ s.containers) : c ∈ s'.containers := by
  rcases run_startPod env cfg clusterName i s with ⟨-, err, s₁, hrun, hs₁⟩ |
    ⟨-, r', s₁, hrun, hs₁, -⟩
  · cases hrun.symm.trans h
    exact hs₁ ▸ hc
  · cases hrun.symm.trans h
    rw [hs₁]
    split
    · exact hc
    · exact List.mem_append_left _ hc

/-- A first container that does not get ready is removed, and no other. -/
theorem Backed.of_unready {i : ℕ} (h : Backed base s)
    (hunready : Unready env cfg clusterName i s s') :
    Backed base ((cleanupContainers clusterName i i).run (podmanHandler env) s').2 := by
  obtain ⟨last, hlast, hs', hfree⟩ := hunready.containers
  refine h.mono fun c hc => ?_
  have hc' : c ∈ s'.containers := hs' ▸ List.mem_append_left _ hc
  refine cleanupContainers_keeps hc' fun j hi hj hname => hfree ?_
  obtain rfl : i = j := Nat.le_antisymm hi hj
  exact hname ▸ List.mem_map_of_mem hc

/-- A later one takes the first one of the call with it, which stays tracked. -/
theorem not_backed_of_unready {k a : ℕ} (hk : 0 < k) (hrm : ∀ t name, env.error t (.rm name) = none)
    (hnames : new.map RuntimeNode.name =
      ((List.range k).map (a + ·)).map (containerName clusterName)) :
    ¬ Backed (base.addNodes new)
      ((cleanupContainers clusterName a (a + k)).run (podmanHandler env) s).2 := by
  intro hbacked
  have hfirst : containerName clusterName a ∈ new.map RuntimeNode.name := by
    rw [hnames]
    exact List.mem_map_of_mem (List.mem_map.mpr ⟨0, List.mem_range.mpr hk, rfl⟩)
  obtain ⟨node, hnode, hname⟩ := List.mem_map.mp hfirst
  have hthere := hbacked node (by
    rw [BaseNodeManager.getNodes, BaseNodeManager.nodes_addNodes]
    exact List.mem_append_right _ hnode)
  obtain ⟨c, hc, hcname⟩ := List.mem_map.mp hthere
  obtain ⟨-, hstays⟩ := mem_cleanupContainers.mp hc
  exact hstays 0 (Nat.zero_le _) (hcname.trans hname) (Or.inl (hrm _ _))

end Tracked

/-- **When the tracked nodes stay backed by containers**, and counted: when they are counted
before, and the call waits in vain at most for its first container. -/
theorem createPods_backed_iff (env : PodmanEnv) (cfg : RuntimeConfig) (clusterName : String)
    (n : ℤ) (base : BaseNodeManager) (s : PodmanState)
    (hrm : ∀ t name, env.error t (.rm name) = none) (hbacked : Backed base s) :
    (Backed ((createPods cfg base n clusterName).run (podmanHandler env) s).1.2
        ((createPods cfg base n clusterName).run (podmanHandler env) s).2 ∧
      ((createPods cfg base n clusterName).run (podmanHandler env) s).1.2.getNodeCount =
        ((createPods cfg base n clusterName).run (podmanHandler env) s).1.2.getNodes.length) ↔
    base.getNodeCount = base.getNodes.length ∧ ¬ WaitsLate env cfg clusterName n base s := by
  rcases hrun : (createPods cfg base n clusterName).run (podmanHandler env) s with ⟨⟨r, base'⟩, s'⟩
  obtain ⟨k, s₁, new, hready, hnames, -, rfl, hend⟩ := createPods_ends hrun
  have hcount : (base.addNodes new).getNodeCount = (base.addNodes new).getNodes.length ↔
      base.getNodeCount = base.getNodes.length := by
    simp [BaseNodeManager.getNodeCount, BaseNodeManager.getNodes]
  rw [hcount, and_comm]
  refine and_congr_right fun _ => ?_
  constructor
  · rintro hstays ⟨k', hk', hlt, s₂, s₃, hready', hunready⟩
    obtain ⟨new', hnames', -, -, hwait⟩ := hready'.createPods hlt
    obtain ⟨err, hrun'⟩ := hwait s₃ hunready
    obtain ⟨⟨-, hbase⟩, hs'⟩ := Prod.mk.inj (hrun.symm.trans hrun') |>.imp_left Prod.mk.inj
    rw [hbase, hs'] at hstays
    exact not_backed_of_unready hk' hrm hnames' hstays
  · intro hearly
    have hbacked₁ := hbacked.addNodes hnames hready
    cases hend with
    | done => exact hbacked₁
    | refused _ hstart => exact hbacked₁.mono fun c => mem_containers_of_startPod hstart
    | @unready _ s₂ hlt hunready =>
      -- the container was the first one of the call
      obtain rfl : k = 0 := by
        by_contra hk
        exact hearly ⟨k, by omega, hlt, s₁, s₂, hready, hunready⟩
      exact hbacked₁.of_unready hunready

/-- Podman that is quick with its first container, and with no other. -/
def slowPodman : PodmanEnv where
  regex := dotMatch
  create n spec := ⟨spec.name, spec.name, "10.88.0.9", true, [(6379, 40001 + n)]⟩
  expired n := decide (7 ≤ n)

/-- A manager that tracks the first container. -/
def firstTracked : BaseNodeManager :=
  addRuntimeNode {} (createdNode plainConfig "m" 1 "m-redis-1" "10.88.0.9" 40001)

/-- One more container is waited for in vain, and the first one is still there. -/
theorem createPods_backed_of_one :
    Backed ((createPods plainConfig firstTracked 1 "m").run (podmanHandler slowPodman)
        ⟨[⟨"m-redis-1", "m-redis-1", "10.88.0.9", true, [(6379, 40001)]⟩], 7⟩).1.2
      ((createPods plainConfig firstTracked 1 "m").run (podmanHandler slowPodman)
        ⟨[⟨"m-redis-1", "m-redis-1", "10.88.0.9", true, [(6379, 40001)]⟩], 7⟩).2 := by
  refine ((createPods_backed_iff slowPodman plainConfig "m" 1 firstTracked
    ⟨[⟨"m-redis-1", "m-redis-1", "10.88.0.9", true, [(6379, 40001)]⟩], 7⟩ (fun _ _ => rfl) ?_).mpr
    ⟨rfl, ?_⟩).1
  · unfold Backed
    decide +kernel
  · rintro ⟨k, hk, hlt, -⟩
    omega

/-- The second container is waited for in vain, and the first one is removed with it. It stays
tracked. -/
theorem createPods_not_backed_of_second :
    ¬ Backed ((createPods plainConfig {} 2 "m").run (podmanHandler slowPodman) ⟨[], 0⟩).1.2
      ((createPods plainConfig {} 2 "m").run (podmanHandler slowPodman) ⟨[], 0⟩).2 := by
  unfold Backed
  decide +kernel

end Leftovers

end ClusterManager
