import ClusterManager.Backend.Podman

/-!
# What the backend does to the containers

Listing and waiting change nothing (`PodmanCmd.Reads`). Creating containers only adds
some, whatever fails on the way (`createPods_keeps`): what is cleaned up after a failure
was started by the same call, and podman starts no container under a name that is taken.
A call that succeeds has added one container and one tracked node for each index
(`createPods_ok`). It does succeed when podman does what it is asked
(`createPodsFrom_of_answered`).
-/

namespace ClusterManager

/-- The request changes no container. -/
def PodmanCmd.Reads : PodmanCmd → Prop
  | .run _ | .rm _ => False
  | .ps _ _ | .inspectIP _ | .inspectID _ | .port _ _ | .mkdirAll _ | .ctxDone | .deadline => True

section Containers

variable {env : PodmanEnv} {cfg : RuntimeConfig} {base : BaseNodeManager} {s : PodmanState}
  {clusterName : String}

variable (env s) in
theorem podmanHandler_reads {c : PodmanCmd} (hc : c.Reads) :
    (podmanHandler env s c).2.containers = s.containers := by
  have heffect : s.effect env c = s.containers := by
    cases c <;> first | exact hc.elim | rfl
  rcases containers_podmanHandler env s c with h | h
  · rw [h, heffect]
  · exact h

/-- A request that only reads lets time pass. -/
theorem podmanHandler_snd_of_reads (env : PodmanEnv) (s : PodmanState) {c : PodmanCmd}
    (hc : c.Reads) : (podmanHandler env s c).2 = { s with clock := s.clock + 1 } := by
  have hcontainers := podmanHandler_reads env s hc
  have hclock := clock_podmanHandler env s c
  generalize (podmanHandler env s c).2 = s' at hcontainers hclock
  cases s'
  exact congrArg₂ PodmanState.mk hcontainers hclock

/-- A program that only reads leaves the containers as they are. -/
theorem containers_run_of_reads {α : Type} {p : PodmanProgram α} (hp : p.Sends PodmanCmd.Reads) :
    (p.run (podmanHandler env) s).2.containers = s.containers :=
  Program.Sends.run_inv (I := fun s' : PodmanState => s'.containers = s.containers) hp
    (fun _ _ hc hs => (podmanHandler_reads _ _ hc).trans hs) rfl

theorem sendPodman_reads (c : PodmanCmd) (hc : c.Reads) :
    (sendPodman c).Sends PodmanCmd.Reads := Program.Sends.send hc

theorem getContainerIP_reads (ref : String) : (getContainerIP ref).Sends PodmanCmd.Reads := by
  refine (sendPodman_reads (.inspectIP ref) trivial).bind fun r => ?_
  split
  · trivial
  · split <;> trivial

theorem getContainerHostPort_reads (ref : String) (containerPort : ℕ) :
    (getContainerHostPort ref containerPort).Sends PodmanCmd.Reads := by
  refine (sendPodman_reads (.port ref containerPort) trivial).bind fun r => ?_
  split
  · trivial
  · split
    · trivial
    · split <;> trivial

theorem waitReady_reads (containerID : String) (port n : ℕ) :
    (waitReady containerID port n).Sends PodmanCmd.Reads := by
  induction n with
  | zero => trivial
  | succ n ih =>
    refine (sendPodman_reads (.deadline) trivial).bind fun expired => ?_
    split
    · trivial
    refine (sendPodman_reads (.ctxDone) trivial).bind fun done => ?_
    split
    · trivial
    refine (getContainerIP_reads containerID).bind fun r => ?_
    split
    · exact ih
    split
    · exact ih
    refine (getContainerHostPort_reads containerID port).bind fun r => ?_
    split
    · exact ih
    · split
      · exact ih
      · trivial

theorem trackListed_reads (names : List String) :
    (trackListed cfg clusterName names base).Sends PodmanCmd.Reads := by
  induction names generalizing base with
  | nil => trivial
  | cons name names ih =>
    rw [trackListed]
    split
    · exact ih
    refine (getContainerIP_reads name).bind fun r => ?_
    split
    · exact ih
    refine (getContainerHostPort_reads name _).bind fun r => ?_
    split
    · exact ih
    refine (sendPodman_reads (.inspectID name) trivial).bind fun r => ?_
    split <;> exact ih

theorem listPodsByCluster_reads :
    (listPodsByCluster cfg base clusterName).Sends PodmanCmd.Reads := by
  refine (sendPodman_reads (.ps false (clusterName ++ "-redis")) trivial).bind fun r => ?_
  split
  · trivial
  · exact (trackListed_reads _).bind fun _ => trivial

/-- The tracked nodes are counted, and all of them are filed under the cluster. -/
structure TracksOnly (clusterName : String) (base : BaseNodeManager) : Prop where
  num : base.num = base.nodes.length
  clusterName : ∀ node ∈ base.nodes, node.clusterName = clusterName

theorem TracksOnly.addNode (h : TracksOnly clusterName base) {node : RuntimeNode}
    (hnode : node.clusterName = clusterName) : TracksOnly clusterName (base.addNode node) where
  num := by simp [BaseNodeManager.addNode, h.num]
  clusterName x hx := by
    rcases List.mem_append.mp hx with hx | hx
    · exact h.clusterName x hx
    · rwa [List.mem_singleton.mp hx]

theorem trackListed_tracksOnly (h : TracksOnly clusterName base) (names : List String) :
    (trackListed cfg clusterName names base).Returns (TracksOnly clusterName) := by
  induction names generalizing base with
  | nil => exact h
  | cons name names ih =>
    rw [trackListed]
    split
    · exact ih h
    refine (Program.returns_true _).bind fun r _ => ?_
    split
    · exact ih h
    refine (Program.returns_true _).bind fun r _ => ?_
    split
    · exact ih h
    refine (Program.returns_true _).bind fun r _ => ?_
    split
    · exact ih h
    · exact ih (h.addNode rfl)

/-- Listing a cluster tracks nodes of this cluster only. -/
theorem listPodsByCluster_tracksOnly :
    (listPodsByCluster cfg base clusterName).Returns fun r => TracksOnly clusterName r.2 := by
  have hreset : TracksOnly clusterName base.resetMaps := ⟨rfl, fun node h => by cases h⟩
  refine (Program.returns_true _).bind fun r _ => ?_
  split
  · exact hreset
  · exact (trackListed_tracksOnly hreset _).bind fun _ h => h

/-! ### Creating containers -/

/-- A container that podman has started has a new name. -/
theorem run_ok {spec : RunSpec} {id : String}
    (h : (podmanHandler env s (.run spec)).1 = .ok id) :
    spec.name ∉ s.containers.map Container.name ∧ id = (env.create s.clock spec).id ∧
      (podmanHandler env s (.run spec)).2.containers =
        s.containers ++ [env.create s.clock spec] := by
  rw [podmanHandler] at h ⊢
  split at h
  · simp only [PodmanState.reply] at h
    split at h
    · cases h
    · rename_i hnew
      refine ⟨hnew, (Except.ok.inj h).symm, ?_⟩
      simp only [PodmanState.effect]
      rw [if_neg hnew]
  · cases h

theorem mem_containers_rm {name : String} {c : Container} (hc : c ∈ s.containers)
    (hne : c.name ≠ name) : c ∈ (podmanHandler env s (.rm name)).2.containers := by
  have heffect : c ∈ s.effect env (.rm name) := List.mem_filter.mpr ⟨hc, by simpa using hne⟩
  rcases containers_podmanHandler env s (.rm name) with h | h
  · rwa [h]
  · rwa [h]

theorem cleanupContainers_keeps {c : Container} (hc : c ∈ s.containers) {fromIdx toIdx : ℕ}
    (hne : ∀ j, fromIdx ≤ j → j ≤ toIdx → c.name ≠ containerName clusterName j) :
    c ∈ ((cleanupContainers clusterName fromIdx toIdx).run (podmanHandler env) s).2.containers := by
  have hsends : (cleanupContainers clusterName fromIdx toIdx).Sends fun cmd =>
      ∃ name, c.name ≠ name ∧ cmd = .rm name := by
    refine Program.Sends.forM fun i hi => ?_
    obtain ⟨k, hk, rfl⟩ := List.mem_map.mp hi
    rw [List.mem_range] at hk
    exact ⟨⟨_, hne _ (by omega) (by omega), rfl⟩, fun _ => trivial⟩
  refine Program.Sends.run_inv (I := fun s' : PodmanState => c ∈ s'.containers) hsends ?_ hc
  rintro s' _ ⟨name, hname, rfl⟩ hs'
  exact mem_containers_rm hs' hname

theorem range_map_add_succ (a n : ℕ) :
    (List.range (n + 1)).map (a + ·) = a :: (List.range n).map (a + 1 + ·) := by
  rw [List.range_succ_eq_map, List.map_cons, List.map_map]
  refine congrArg (a :: ·) (List.map_congr_left fun i _ => ?_)
  show a + (i + 1) = a + 1 + i
  omega

/-! #### One pass of the loop -/

/-- The first part of a pass: start the container of an index. -/
def startPod (cfg : RuntimeConfig) (clusterName : String) (i : ℕ) :
    PodmanProgram (Except String String) := do
  let done : Option String ← sendPodman .ctxDone
  match done with
  | some err => return .error err
  | none =>
    let dataHostPath := Path.join [cfg.redisHostDataPath, clusterName]
    let r : Except String Unit ← sendPodman (.mkdirAll dataHostPath)
    match r with
    | .error err => return .error s!"failed to create data dir {dataHostPath}: {err}"
    | .ok () =>
      let name := containerName clusterName i
      let r : Except String String ← sendPodman (.run (runSpec cfg clusterName i))
      match r with
      | .error err => return .error s!"failed to run container {name}: {err}"
      | .ok containerID => return .ok containerID

/-- A pass starts its container, waits for it, and goes on when it is ready. -/
theorem createPodsFrom_eq (cfg : RuntimeConfig) (clusterName : String) (start i : ℕ)
    (rest : List ℕ) (base : BaseNodeManager) :
    createPodsFrom cfg clusterName start (i :: rest) base =
      (do match ← startPod cfg clusterName i with
        | .error err => return (.error err, base)
        | .ok containerID => do
          match ← waitReady containerID cfg.redisContainerPort.toNat 61 with
          | .timedOut =>
            cleanupContainers clusterName start i
            return (.error
              s!"timed out waiting for container {containerName clusterName i} to be ready", base)
          | .cancelled err =>
            cleanupContainers clusterName start i
            return (.error err, base)
          | .ready ip hostPort =>
            createPodsFrom cfg clusterName start rest
              (addRuntimeNode base (createdNode cfg clusterName i containerID ip hostPort))) := by
  rw [createPodsFrom, startPod, bind_assoc]
  refine congrArg (sendPodman .ctxDone >>= ·) (funext fun done => ?_)
  rcases done with _ | err
  · simp only [bind_assoc]
    refine congrArg (sendPodman (.mkdirAll _) >>= ·) (funext fun r => ?_)
    rcases r with err | _
    · rfl
    · simp only [bind_assoc]
      refine congrArg (sendPodman (.run _) >>= ·) (funext fun r => ?_)
      rcases r with err | id <;> rfl
  · rfl

/-- No container is started: the context is done, the directory cannot be made, or
`podman run` fails without effect. -/
def Refuses (env : PodmanEnv) (cfg : RuntimeConfig) (clusterName : String) (i : ℕ)
    (s : PodmanState) : Prop :=
  (∃ err, env.ctxDone s.clock = some err) ∨
    (∃ err, env.error (s.clock + 1)
      (.mkdirAll (Path.join [cfg.redisHostDataPath, clusterName])) = some err) ∨
    ¬ env.TakesEffect (s.clock + 2) (.run (runSpec cfg clusterName i))

/-- What the first part of a pass does: it leaves the containers as they are, or podman
runs its command line, which starts a container unless the name is taken. -/
theorem run_startPod (env : PodmanEnv) (cfg : RuntimeConfig) (clusterName : String) (i : ℕ)
    (s : PodmanState) :
    (Refuses env cfg clusterName i s ∧
      ∃ err s', (startPod cfg clusterName i).run (podmanHandler env) s = (.error err, s') ∧
        s'.containers = s.containers) ∨
    (¬ Refuses env cfg clusterName i s ∧
      ∃ r s', (startPod cfg clusterName i).run (podmanHandler env) s = (r, s') ∧
        (s'.containers = if containerName clusterName i ∈ s.containers.map Container.name then
            s.containers
          else s.containers ++ [env.create (s.clock + 2) (runSpec cfg clusterName i)]) ∧
        ∀ id, r = .ok id → containerName clusterName i ∉ s.containers.map Container.name ∧
          id = (env.create (s.clock + 2) (runSpec cfg clusterName i)).id) := by
  rw [startPod, Program.run_bind, Program.run_send, podmanHandler_ctxDone]
  have hclock₁ := clock_podmanHandler env s .ctxDone
  have hold₁ := podmanHandler_reads env s (c := .ctxDone) trivial
  generalize (podmanHandler env s .ctxDone).2 = s₁ at hclock₁ hold₁
  rcases hdone : env.ctxDone s.clock with _ | err
  swap
  · exact Or.inl ⟨Or.inl ⟨err, hdone⟩, err, s₁, rfl, hold₁⟩
  simp only [Program.run_bind, Program.run_send]
  have hclock₂ := clock_podmanHandler env s₁
    (.mkdirAll (Path.join [cfg.redisHostDataPath, clusterName]))
  have hold₂ := podmanHandler_reads env s₁
    (c := .mkdirAll (Path.join [cfg.redisHostDataPath, clusterName])) trivial
  have hreply : (podmanHandler env s₁
      (.mkdirAll (Path.join [cfg.redisHostDataPath, clusterName]))).1 =
      (env.error (s.clock + 1) (.mkdirAll (Path.join [cfg.redisHostDataPath, clusterName]))).elim
        (.ok ()) .error := by
    rw [podmanHandler, hclock₁]
    rcases env.error (s.clock + 1) (.mkdirAll (Path.join [cfg.redisHostDataPath, clusterName]))
      with _ | err <;> rfl
  rw [hreply]
  generalize (podmanHandler env s₁ _).2 = s₂ at hclock₂ hold₂
  rw [hclock₁] at hclock₂
  rcases hdir : env.error (s.clock + 1)
    (.mkdirAll (Path.join [cfg.redisHostDataPath, clusterName])) with _ | err
  swap
  · exact Or.inl ⟨Or.inr (Or.inl ⟨err, hdir⟩), _, s₂, rfl, hold₂.trans hold₁⟩
  simp only [Option.elim_none, Program.run_bind, Program.run_send]
  have hold : s₂.containers = s.containers := hold₂.trans hold₁
  by_cases heffect : env.TakesEffect (s.clock + 2) (.run (runSpec cfg clusterName i))
  · refine Or.inr ⟨?_, ?_⟩
    · rintro (⟨err, h⟩ | ⟨err, h⟩ | h)
      · cases hdone.symm.trans h
      · cases hdir.symm.trans h
      · exact h heffect
    have hcontainers := containers_of_takesEffect (s := s₂) (hclock₂ ▸ heffect)
    simp only [PodmanState.effect, hold, hclock₂] at hcontainers
    rcases hrun : podmanHandler env s₂ (.run (runSpec cfg clusterName i)) with ⟨err | id, s₃⟩
    · rw [hrun] at hcontainers
      exact ⟨_, s₃, rfl, hcontainers, fun _ h => by cases h⟩
    · obtain ⟨hnew, rfl, -⟩ := run_ok (congrArg Prod.fst hrun)
      rw [hrun] at hcontainers
      refine ⟨_, s₃, rfl, hcontainers, fun id hid => ⟨?_, ?_⟩⟩
      · rw [← hold]
        exact hnew
      · rw [← Except.ok.inj hid, hclock₂]
  · refine Or.inl ⟨Or.inr (Or.inr heffect), ?_⟩
    have hcontainers := containers_of_not_takesEffect (s := s₂) (hclock₂ ▸ heffect)
    rcases hrun : podmanHandler env s₂ (.run (runSpec cfg clusterName i)) with ⟨err | id, s₃⟩
    · rw [hrun] at hcontainers
      exact ⟨_, s₃, rfl, hcontainers.trans hold⟩
    · -- a request without effect has failed
      rw [podmanHandler] at hrun
      split at hrun
      · rename_i hok
        exact absurd (Or.inl (hclock₂ ▸ hok)) heffect
      · cases hrun

theorem find_congr {s s' : PodmanState} (h : s'.containers = s.containers) (ref : String) :
    s'.find ref = s.find ref := by
  rw [PodmanState.find, PodmanState.find, h]

/-- The address that is told for a container. -/
theorem getContainerIP_ok {ref ip : String}
    (h : ((getContainerIP ref).run (podmanHandler env) s).1 = .ok ip) :
    ∃ c, s.find ref = some c ∧ c.ip = ip := by
  rw [getContainerIP, Program.run_bind, Program.run_send, podmanHandler] at h
  split at h
  · cases h
  rename_i r hr
  have hip : r = ip := by
    split at h
    · cases h
    · exact Except.ok.inj h
  subst hip
  split at hr
  · simp only [PodmanState.reply] at hr
    split at hr
    · cases hr
    · rename_i c hc
      exact ⟨c, hc, Except.ok.inj hr⟩
  · cases hr

/-- A container that is ready has an address. -/
theorem waitReady_ready {id ip : String} {port n : ℕ} {hostPort : UInt16}
    (h : ((waitReady id port n).run (podmanHandler env) s).1 = .ready ip hostPort) :
    ∃ c, s.find id = some c ∧ c.ip = ip ∧ ip ≠ "" := by
  induction n generalizing s with
  | zero => cases h
  | succ n ih =>
    -- what is asked on the way changes no container
    have again : ∀ s₁, s₁.containers = s.containers →
        ((waitReady id port n).run (podmanHandler env) s₁).1 = .ready ip hostPort →
        ∃ c, s.find id = some c ∧ c.ip = ip ∧ ip ≠ "" := by
      intro s₁ hs₁ h₁
      obtain ⟨c, hc, hip⟩ := ih h₁
      exact ⟨c, (find_congr hs₁ id).symm.trans hc, hip⟩
    have hs₁ := podmanHandler_reads env s (c := .deadline) trivial
    rw [waitReady, Program.run_bind, Program.run_send] at h
    generalize (podmanHandler env s .deadline).2 = s₁ at hs₁ h
    split at h
    · cases h
    have hs₂ := podmanHandler_reads env s₁ (c := .ctxDone) trivial
    rw [Program.run_bind, Program.run_send] at h
    generalize (podmanHandler env s₁ .ctxDone).2 = s₂ at hs₂ h
    split at h
    · cases h
    have hold : ((getContainerIP id).run (podmanHandler env) s₂).2.containers = s.containers :=
      (containers_run_of_reads (getContainerIP_reads id)).trans (hs₂.trans hs₁)
    rw [Program.run_bind] at h
    split at h
    · exact again _ hold h
    rename_i ip' hip'
    split at h
    · exact again _ hold h
    rename_i hne
    rw [Program.run_bind] at h
    have hold' : ((getContainerHostPort id port).run (podmanHandler env)
        ((getContainerIP id).run (podmanHandler env) s₂).2).2.containers = s.containers :=
      (containers_run_of_reads (getContainerHostPort_reads id port)).trans hold
    split at h
    · exact again _ hold' h
    split at h
    · exact again _ hold' h
    · obtain ⟨rfl, -⟩ := WaitResult.ready.inj h
      obtain ⟨c, hc, hip⟩ := getContainerIP_ok hip'
      exact ⟨c, (find_congr (hs₂.trans hs₁) id).symm.trans hc, hip, hne⟩

/-- What one pass of the loop does: it ends before the container is started, it ends
because the container does not get ready, or it goes on with one more container. -/
theorem createPodsFrom_cons (env : PodmanEnv) (cfg : RuntimeConfig) (clusterName : String)
    (start i : ℕ) (rest : List ℕ) (base : BaseNodeManager) (s : PodmanState) :
    (∃ err s₁, (createPodsFrom cfg clusterName start (i :: rest) base).run (podmanHandler env) s =
        ((.error err, base), s₁) ∧ ∀ c ∈ s.containers, c ∈ s₁.containers) ∨
      ∃ new s₁, new.name = containerName clusterName i ∧
        new.name ∉ s.containers.map Container.name ∧
        s₁.containers = s.containers ++ [new] ∧
        ((∃ err, (createPodsFrom cfg clusterName start (i :: rest) base).run (podmanHandler env) s =
            ((.error err, base),
              ((cleanupContainers clusterName start i).run (podmanHandler env) s₁).2)) ∨
          ∃ ip hostPort, (∃ c, s₁.find new.id = some c ∧ c.ip = ip ∧ ip ≠ "") ∧
            (createPodsFrom cfg clusterName start (i :: rest) base).run (podmanHandler env) s =
              (createPodsFrom cfg clusterName start rest (addRuntimeNode base
                (createdNode cfg clusterName i new.id ip hostPort))).run
                  (podmanHandler env) s₁) := by
  rw [createPodsFrom_eq, Program.run_bind]
  rcases run_startPod env cfg clusterName i s with
    ⟨-, err, s₁, hrun, hs₁⟩ | ⟨-, r, s₁, hrun, hs₁, hok⟩
  · rw [hrun]
    exact Or.inl ⟨err, s₁, rfl, fun c hc => hs₁.symm ▸ hc⟩
  rw [hrun]
  rcases r with err | id
  · refine Or.inl ⟨err, s₁, rfl, fun c hc => ?_⟩
    rw [hs₁]
    split
    · exact hc
    · exact List.mem_append_left _ hc
  obtain ⟨hnew, rfl⟩ := hok id rfl
  rw [if_neg hnew] at hs₁
  have hname : (env.create (s.clock + 2) (runSpec cfg clusterName i)).name =
      containerName clusterName i := env.create_name _ _
  simp only [Program.run_bind]
  have hwait : ((waitReady (env.create (s.clock + 2) (runSpec cfg clusterName i)).id
      cfg.redisContainerPort.toNat 61).run (podmanHandler env) s₁).2.containers = s₁.containers :=
    containers_run_of_reads (waitReady_reads _ _ _)
  refine Or.inr ⟨env.create (s.clock + 2) (runSpec cfg clusterName i), _, hname, hname ▸ hnew,
    hwait.trans hs₁, ?_⟩
  split
  · exact Or.inl ⟨_, Program.run_bind _ _ _ _⟩
  · exact Or.inl ⟨_, Program.run_bind _ _ _ _⟩
  · rename_i ip hostPort hready
    obtain ⟨c, hc, hip⟩ := waitReady_ready hready
    exact Or.inr ⟨_, _, ⟨c, (find_congr hwait _).trans hc, hip⟩, rfl⟩

/-- The loop keeps a container as long as the indices it has behind it are not the ones
of that container. -/
theorem createPodsFrom_keeps {c : Container} (hc : c ∈ s.containers) {start a : ℕ} (n : ℕ)
    (hne : ∀ j, start ≤ j → j < a → c.name ≠ containerName clusterName j) :
    c ∈ ((createPodsFrom cfg clusterName start ((List.range n).map (a + ·)) base).run
      (podmanHandler env) s).2.containers := by
  induction n generalizing base s a with
  | zero => exact hc
  | succ n ih =>
    rw [range_map_add_succ]
    rcases createPodsFrom_cons env cfg clusterName start a ((List.range n).map (a + 1 + ·)) base s
      with ⟨err, s₁, hrun, hkeep⟩ | ⟨new, s₁, hname, hnew, hs₁, hrun⟩
    · rw [hrun]
      exact hkeep c hc
    -- the container of this pass has a name that was not taken
    have hne' : ∀ j, start ≤ j → j < a + 1 → c.name ≠ containerName clusterName j := by
      intro j hj hlt
      rcases Nat.lt_succ_iff_lt_or_eq.mp hlt with hlt | rfl
      · exact hne j hj hlt
      · rw [← hname]
        exact fun heq => hnew (heq ▸ List.mem_map_of_mem hc)
    have hc₁ : c ∈ s₁.containers := hs₁ ▸ List.mem_append_left _ hc
    rcases hrun with ⟨err, hrun⟩ | ⟨ip, hostPort, -, hrun⟩
    · rw [hrun]
      exact cleanupContainers_keeps hc₁ fun j hj hle => hne' j hj (by omega)
    · rw [hrun]
      exact ih hc₁ hne'

/-- **Creating containers removes none that was there.** -/
theorem createPods_keeps {c : Container} (hc : c ∈ s.containers) (n : ℤ) :
    c ∈ ((createPods cfg base n clusterName).run (podmanHandler env) s).2.containers :=
  createPodsFrom_keeps hc _ fun _ _ _ => by omega

/-- A request that removes no container with an index below `start`. -/
def PodmanCmd.RemovesFrom (clusterName : String) (start : ℕ) (cmd : PodmanCmd) : Prop :=
  ∀ name, cmd = .rm name → ∃ j, start ≤ j ∧ name = containerName clusterName j

theorem PodmanCmd.Reads.removesFrom {cmd : PodmanCmd} (h : cmd.Reads) (start : ℕ) :
    cmd.RemovesFrom clusterName start := by
  rintro name rfl
  exact h.elim

/-- What the loop can ask for: it starts the containers of its indices, and removes containers
from its first index on. -/
theorem createPodsFrom_sends {ok : PodmanCmd → Prop} {start : ℕ} {l : List ℕ}
    (hreads : ∀ cmd, cmd.Reads → ok cmd) (hrun : ∀ i ∈ l, ok (.run (runSpec cfg clusterName i)))
    (hrm : ∀ j, start ≤ j → ok (.rm (containerName clusterName j))) (base : BaseNodeManager) :
    (createPodsFrom cfg clusterName start l base).Sends ok := by
  have hcleanup : ∀ i, (cleanupContainers clusterName start i).Sends ok := by
    refine fun i => Program.Sends.forM fun j hj => ?_
    obtain ⟨k, -, rfl⟩ := List.mem_map.mp hj
    exact Program.Sends.bind (Program.Sends.send (hrm _ (Nat.le_add_right start k)))
      fun _ => trivial
  have hstart : ∀ i ∈ l, (startPod cfg clusterName i).Sends ok := by
    refine fun i hi => Program.Sends.bind (Program.Sends.send (hreads _ trivial)) fun done => ?_
    split
    · trivial
    refine Program.Sends.bind (Program.Sends.send (hreads _ trivial)) fun r => ?_
    split
    · trivial
    refine Program.Sends.bind (Program.Sends.send (hrun i hi)) fun r => ?_
    split <;> trivial
  induction l generalizing base with
  | nil => trivial
  | cons i l ih =>
    rw [createPodsFrom_eq]
    refine (hstart i List.mem_cons_self).bind fun r => ?_
    split
    · trivial
    refine ((waitReady_reads _ _ _).mono hreads).bind fun r => ?_
    split
    · exact (hcleanup i).bind fun _ => trivial
    · exact (hcleanup i).bind fun _ => trivial
    · exact ih (fun j hj => hrun j (List.mem_cons_of_mem _ hj)) _
        fun j hj => hstart j (List.mem_cons_of_mem _ hj)

theorem createPodsFrom_removes (start : ℕ) (l : List ℕ) (base : BaseNodeManager) :
    (createPodsFrom cfg clusterName start l base).Sends
      (PodmanCmd.RemovesFrom clusterName start) := by
  refine createPodsFrom_sends (fun _ h => h.removesFrom start) (fun _ _ => nofun) ?_ base
  rintro j hj name hname
  cases hname
  exact ⟨j, hj, rfl⟩

theorem createPodsFrom_num (start : ℕ) (l : List ℕ) (base : BaseNodeManager) :
    (createPodsFrom cfg clusterName start l base).Returns fun r => base.num ≤ r.2.num := by
  induction l generalizing base with
  | nil => exact Nat.le_refl _
  | cons i l ih =>
    rw [createPodsFrom_eq]
    refine (Program.returns_true _).bind fun r _ => ?_
    split
    · exact Nat.le_refl _
    refine (Program.returns_true _).bind fun r _ => ?_
    split
    · exact (Program.returns_true _).bind fun _ _ => Nat.le_refl _
    · exact (Program.returns_true _).bind fun _ _ => Nat.le_refl _
    · exact (ih _).mono fun r h => Nat.le_of_succ_le h

/-- A node with its two addresses filled in. -/
def withAddress (node : RuntimeNode) : RuntimeNode :=
  if node.address.clientAddr = "" then
    { node with
      address :=
        { clusterAddr := node.conIp ++ ":" ++ toString node.conPort.toNat
          clientAddr := node.hostIP ++ ":" ++ toString node.hostPort.toNat } }
  else node

theorem addRuntimeNode_eq (base : BaseNodeManager) (node : RuntimeNode) :
    addRuntimeNode base node = base.addNode (withAddress node) := rfl

section WithAddress

variable (node : RuntimeNode)

@[simp] theorem withAddress_name : (withAddress node).name = node.name := by
  rw [withAddress]
  split <;> rfl

@[simp] theorem withAddress_clusterName : (withAddress node).clusterName = node.clusterName := by
  rw [withAddress]
  split <;> rfl

@[simp] theorem withAddress_conIp : (withAddress node).conIp = node.conIp := by
  rw [withAddress]
  split <;> rfl

@[simp] theorem withAddress_hostPort : (withAddress node).hostPort = node.hostPort := by
  rw [withAddress]
  split <;> rfl

@[simp] theorem withAddress_conPort : (withAddress node).conPort = node.conPort := by
  rw [withAddress]
  split <;> rfl

@[simp] theorem withAddress_hostname : (withAddress node).hostname = node.hostname := by
  rw [withAddress]
  split <;> rfl

end WithAddress

/-- What creating containers has done when it returns without an error. -/
structure Created (clusterName : String) (start n : ℕ) (base base' : BaseNodeManager)
    (s s' : PodmanState) : Prop where
  nodes : ∃ new, base'.nodes = base.nodes ++ new ∧
    new.map RuntimeNode.name = (List.range n).map (fun i => containerName clusterName (start + i)) ∧
    ∀ node ∈ new, node.clusterName = clusterName
  num : base'.num = base.num + n
  containers : ∃ new, s'.containers = s.containers ++ new ∧
    new.map Container.name = (List.range n).map (fun i => containerName clusterName (start + i))
  fresh : ∀ i < n, containerName clusterName (start + i) ∉ s.containers.map Container.name
  nodup : ((List.range n).map fun i => containerName clusterName (start + i)).Nodup

/-- The created containers are tracked under their cluster. -/
theorem Created.mem_names {start n : ℕ} {base' : BaseNodeManager} {s' : PodmanState}
    (h : Created clusterName start n base base' s s') {name : String} :
    name ∈ (base'.nodes.filter (·.clusterName = clusterName)).map RuntimeNode.name ↔
      name ∈ (base.nodes.filter (·.clusterName = clusterName)).map RuntimeNode.name ∨
        ∃ i < n, name = containerName clusterName (start + i) := by
  obtain ⟨new, hnodes, hnames, hcluster⟩ := h.nodes
  have hall : new.filter (·.clusterName = clusterName) = new :=
    List.filter_eq_self.mpr fun node hnode => decide_eq_true (hcluster node hnode)
  rw [hnodes, List.filter_append, hall, List.map_append, List.mem_append, hnames]
  simp [eq_comm]

theorem createPodsFrom_ok {start a n : ℕ} {base' : BaseNodeManager} {s' : PodmanState}
    (h : (createPodsFrom cfg clusterName start ((List.range n).map (a + ·)) base).run
      (podmanHandler env) s = ((.ok (), base'), s')) :
    Created clusterName a n base base' s s' := by
  induction n generalizing base s a with
  | zero =>
    cases h
    exact ⟨⟨[], by simp⟩, rfl, ⟨[], by simp⟩, by simp, by simp⟩
  | succ n ih =>
    rw [range_map_add_succ] at h
    rcases createPodsFrom_cons env cfg clusterName start a ((List.range n).map (a + 1 + ·)) base s
      with ⟨err, s₁, hrun, -⟩ | ⟨new, s₁, hname, hnew, hs₁, ⟨err, hrun⟩ | ⟨ip, hostPort, -, hrun⟩⟩
    · cases hrun.symm.trans h
    · cases hrun.symm.trans h
    have hrest := ih (hrun.symm.trans h)
    rw [addRuntimeNode_eq] at hrest
    set node := withAddress (createdNode cfg clusterName a new.id ip hostPort)
    have hnname : node.name = containerName clusterName a := withAddress_name _
    have hncluster : node.clusterName = clusterName := withAddress_clusterName _
    have hnames : (List.range (n + 1)).map (fun i => containerName clusterName (a + i)) =
        containerName clusterName a ::
          (List.range n).map (fun i => containerName clusterName (a + 1 + i)) := by
      have := congrArg (List.map (containerName clusterName)) (range_map_add_succ a n)
      simpa [List.map_map, Function.comp_def] using this
    refine ⟨?_, ?_, ?_, ?_, ?_⟩
    · obtain ⟨rest, h1, h2, h3⟩ := hrest.nodes
      refine ⟨node :: rest, ?_, ?_, ?_⟩
      · rw [h1, BaseNodeManager.addNode, List.append_assoc, List.singleton_append]
      · rw [List.map_cons, h2, hnames, hnname]
      · intro x hx
        rcases List.mem_cons.mp hx with rfl | hx
        · exact hncluster
        · exact h3 x hx
    · rw [hrest.num]
      show base.num + 1 + n = base.num + (n + 1)
      omega
    · obtain ⟨rest, h1, h2⟩ := hrest.containers
      refine ⟨new :: rest, ?_, ?_⟩
      · rw [h1, hs₁, List.append_assoc, List.singleton_append]
      · rw [List.map_cons, h2, hnames, hname]
    · intro i hi
      cases i with
      | zero => exact hname ▸ hnew
      | succ i =>
        have hfresh := hrest.fresh i (by omega)
        rw [hs₁, List.map_append, List.mem_append, not_or] at hfresh
        have hidx : a + 1 + i = a + (i + 1) := by omega
        rw [← hidx]
        exact hfresh.1
    · rw [hnames]
      refine List.nodup_cons.mpr ⟨fun hmem => ?_, hrest.nodup⟩
      -- the later ones were started when this one was there
      obtain ⟨i, hi, heq⟩ := List.mem_map.mp hmem
      refine hrest.fresh i (List.mem_range.mp hi) ?_
      rw [heq, ← hname, hs₁, List.map_append]
      exact List.mem_append_right _ (List.mem_singleton_self _)

/-- **Creating containers** adds the containers of the next indices, and tracks them. -/
theorem createPods_ok {n : ℤ} {base' : BaseNodeManager} {s' : PodmanState}
    (h : (createPods cfg base n clusterName).run (podmanHandler env) s = ((.ok (), base'), s')) :
    Created clusterName (base.num + 1) n.toNat base base' s s' :=
  createPodsFrom_ok h

end Containers

/-! ### Podman that does its work -/

/-- Podman has done what it was asked for, and what it tells can be used. -/
def PodmanCmd.succeeds : (c : PodmanCmd) → c.Reply → Bool
  | .ps _ _, r => r.isOk
  | .inspectIP _, r => r.toOption.any fun ip => ip ≠ "" ∧ ip ≠ "<nil>"
  | .inspectID _, r => r.isOk
  | .port _ _, r => (r.toOption.bind fun line =>
      (Text.afterLast ':' line).bind (Text.parseUint 16)).any fun port => UInt16.ofNat port ≠ 0
  | .run _, r => r.isOk
  | .rm _, r => r.isOk
  | .mkdirAll _, r => r.isOk
  | .ctxDone, r => r.isNone
  | .deadline, r => !r

section Podman

variable {env : PodmanEnv} {cfg : RuntimeConfig} {clusterName : String} {s : PodmanState}

theorem run_startPod_of_answered {i : ℕ}
    (h : (startPod cfg clusterName i).Answered (podmanHandler env) (fun c r => c.succeeds r) s) :
    ∃ id s', (startPod cfg clusterName i).run (podmanHandler env) s = (.ok id, s') := by
  rw [startPod, Program.answered_bind, Program.answered_send, Program.run_send] at h
  rw [startPod, Program.run_bind, Program.run_send]
  obtain ⟨hdone, h⟩ := h
  obtain hdone : (podmanHandler env s .ctxDone).1 = none := Option.isNone_iff_eq_none.mp hdone
  rw [hdone] at h ⊢
  dsimp only at h ⊢
  rw [Program.answered_bind, Program.answered_send, Program.run_send] at h
  rw [Program.run_bind, Program.run_send]
  obtain ⟨hdir, h⟩ := h
  rcases hr : (podmanHandler env (podmanHandler env s .ctxDone).2
    (.mkdirAll (Path.join [cfg.redisHostDataPath, clusterName]))) with ⟨err | _, s₁⟩
  · rw [hr] at hdir
    cases hdir
  rw [hr] at h
  dsimp only at h ⊢
  rw [Program.answered_bind, Program.answered_send, Program.run_send] at h
  rw [Program.run_bind, Program.run_send]
  obtain ⟨hrun, -⟩ := h
  rcases hr' : podmanHandler env s₁ (.run (runSpec cfg clusterName i)) with ⟨err | id, s₂⟩
  · rw [hr'] at hrun
    cases hrun
  · exact ⟨id, s₂, rfl⟩

theorem run_getContainerIP_of_answered {ref : String}
    (h : (getContainerIP ref).Answered (podmanHandler env) (fun c r => c.succeeds r) s) :
    ∃ ip s', (getContainerIP ref).run (podmanHandler env) s = (.ok ip, s') ∧ ip ≠ "" := by
  rw [getContainerIP, Program.answered_bind, Program.answered_send] at h
  obtain ⟨hip, -⟩ := h
  rw [getContainerIP, Program.run_bind, Program.run_send]
  rcases hr : (podmanHandler env s (.inspectIP ref)).1 with err | ip
  · rw [hr] at hip
    cases hip
  rw [hr] at hip
  obtain ⟨hempty, hnil⟩ := of_decide_eq_true hip
  dsimp only
  rw [if_neg hnil]
  exact ⟨ip, _, rfl, hempty⟩

theorem run_getContainerHostPort_of_answered {ref : String} {port : ℕ}
    (h : (getContainerHostPort ref port).Answered (podmanHandler env) (fun c r => c.succeeds r) s) :
    ∃ hostPort s', (getContainerHostPort ref port).run (podmanHandler env) s = (.ok hostPort, s') ∧
      hostPort ≠ 0 := by
  rw [getContainerHostPort, Program.answered_bind, Program.answered_send] at h
  obtain ⟨hport, -⟩ := h
  rw [getContainerHostPort, Program.run_bind, Program.run_send]
  obtain ⟨hostPort, hsome, hne⟩ := (Option.any_eq_true _ _).mp hport
  obtain ⟨line, hline, hsome⟩ := Option.bind_eq_some_iff.mp hsome
  obtain ⟨portStr, hlast, hparse⟩ := Option.bind_eq_some_iff.mp hsome
  rcases hr : (podmanHandler env s (.port ref port)).1 with err | line'
  · rw [hr] at hline
    cases hline
  rw [hr] at hline
  cases hline
  dsimp only
  rw [hlast]
  dsimp only
  rw [hparse]
  exact ⟨_, _, rfl, of_decide_eq_true hne⟩

theorem run_waitReady_of_answered {id : String} {port n : ℕ}
    (h : (waitReady id port (n + 1)).Answered (podmanHandler env) (fun c r => c.succeeds r) s) :
    ∃ ip hostPort s', (waitReady id port (n + 1)).run (podmanHandler env) s =
      (.ready ip hostPort, s') := by
  rw [waitReady, Program.answered_bind, Program.answered_send, Program.run_send] at h
  rw [waitReady, Program.run_bind, Program.run_send]
  obtain ⟨hexpired, h⟩ := h
  obtain hexpired : (podmanHandler env s .deadline).1 = false := by
    simpa [PodmanCmd.succeeds] using hexpired
  rw [hexpired] at h ⊢
  simp only [Bool.false_eq_true, if_false] at h ⊢
  rw [Program.answered_bind, Program.answered_send, Program.run_send] at h
  rw [Program.run_bind, Program.run_send]
  obtain ⟨hdone, h⟩ := h
  obtain hdone : (podmanHandler env (podmanHandler env s .deadline).2 .ctxDone).1 = none :=
    Option.isNone_iff_eq_none.mp hdone
  rw [hdone] at h ⊢
  dsimp only at h ⊢
  generalize (podmanHandler env (podmanHandler env s .deadline).2 .ctxDone).2 = s₁ at h ⊢
  rw [Program.answered_bind] at h
  obtain ⟨hip, h⟩ := h
  obtain ⟨ip, s₂, hrun, hne⟩ := run_getContainerIP_of_answered hip
  rw [hrun] at h
  rw [Program.run_bind, hrun]
  dsimp only at h ⊢
  rw [if_neg hne] at h ⊢
  rw [Program.answered_bind] at h
  obtain ⟨hport, -⟩ := h
  obtain ⟨hostPort, s₃, hrun₂, hne₂⟩ := run_getContainerHostPort_of_answered hport
  rw [Program.run_bind, hrun₂]
  dsimp only
  rw [if_neg hne₂]
  exact ⟨ip, hostPort, s₃, rfl⟩

/-- **Podman that does its work creates the containers.** -/
theorem createPodsFrom_of_answered {start : ℕ} (l : List ℕ) {base : BaseNodeManager}
    (h : (createPodsFrom cfg clusterName start l base).Answered (podmanHandler env)
      (fun c r => c.succeeds r) s) :
    ((createPodsFrom cfg clusterName start l base).run (podmanHandler env) s).1.1 = .ok () := by
  induction l generalizing base s with
  | nil => rfl
  | cons i l ih =>
    rw [createPodsFrom_eq, Program.answered_bind] at h
    rw [createPodsFrom_eq, Program.run_bind]
    obtain ⟨hstart, h⟩ := h
    obtain ⟨id, s₁, hrun⟩ := run_startPod_of_answered hstart
    rw [hrun] at h ⊢
    dsimp only at h ⊢
    rw [Program.answered_bind] at h
    rw [Program.run_bind]
    obtain ⟨hwait, h⟩ := h
    obtain ⟨ip, hostPort, s₂, hrun₂⟩ := run_waitReady_of_answered hwait
    rw [hrun₂] at h ⊢
    exact ih h

end Podman

end ClusterManager
