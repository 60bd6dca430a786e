import ClusterManager.Backend.Podman

/-!
# The containerd backend

The other backend asks containerd itself. Its containers share the network of the host,
and each Redis has a port of its own there: the one of the index `i` listens on the
configured port plus `i - 1`. So there is one address for all of them, and the nodes are
told apart by their ports (`createdNode`, `listedNode`).

A container is found by its labels, not by its name. How containerd reads the filters it
is given is left open (`ContainerdEnv.selects`).

The backend takes the first twelve characters of a container ID, which is the name the
container was given. A shorter one ends the process (`Fault.panicked`).
-/

namespace ClusterManager

namespace Containerd

/-! ### The requests -/

/-- What a container is made from. -/
structure ContainerSpec where
  image : String
  snapshotID : String
  args : List String
  /-- Directories of the container, and those of the host they are bound to. -/
  mounts : List (String × String)
  labels : List (String × String)
  deriving DecidableEq, Repr

/-- The requests of the backend. -/
inductive ContainerdCmd where
  | pull (image : String)
  | ctxDone
  /-- `filepath.Abs`. -/
  | abs (path : String)
  | newContainer (id : String) (spec : ContainerSpec)
  | newTask (id : String)
  | startTask (id : String)
  /-- The task of a container. -/
  | task (id : String)
  | deleteTask (id : String)
  | deleteContainer (id : String)
  /-- The containers that filters select. -/
  | containers (filters : List String)
  /-- The labels of a container. -/
  | info (id : String)
  deriving DecidableEq, Repr

/-- What a request is answered with. -/
abbrev ContainerdCmd.Reply : ContainerdCmd → Type
  | .pull _ | .newContainer _ _ | .newTask _ | .startTask _ | .task _ | .deleteTask _
  | .deleteContainer _ => Except String Unit
  | .abs _ => Except String String
  | .containers _ => Except String (List String)
  | .info _ => Except String (List (String × String))
  | .ctxDone => Option String

abbrev ContainerdProgram := Program ContainerdCmd ContainerdCmd.Reply

/-- Send one request. -/
abbrev sendContainerd (c : ContainerdCmd) : ContainerdProgram c.Reply := Program.send c

/-- How a call ends that does not succeed. -/
inductive Fault where
  | failed (msg : String)
  | panicked
  deriving DecidableEq, Repr

/-! ### The backend -/

/-- The first twelve characters of an ID, `id[:12]`. -/
def sliceID (id : String) : Option String :=
  if 12 ≤ id.toList.length then some (shortID id) else none

/-- The port of the Redis with an index. -/
def redisPort (cfg : RuntimeConfig) (i : ℤ) : ℤ := cfg.redisContainerPort.toNat + (i - 1)

/-- The command line of a container. -/
def redisArgs (cfg : RuntimeConfig) (clusterName : String) (i : ℕ) : List String :=
  let port := redisPort cfg i
  let busPort := port + 10000
  ["redis-server", cfg.redisConfigPath ++ "/redis.conf", "--port", toString port,
    "--cluster-announce-bus-port", toString busPort] ++
    if cfg.dnsEnabled then ["--cluster-announce-ip", containerName clusterName i] else []

def containerSpec (cfg : RuntimeConfig) (clusterName : String) (i : ℕ)
    (configHostPath : String) : ContainerSpec where
  image := cfg.imageName
  snapshotID := containerName clusterName i ++ "-snapshot"
  args := redisArgs cfg clusterName i
  mounts := [(cfg.redisConfigPath, configHostPath),
    (cfg.redisConfigDataPath, Path.join [cfg.redisHostDataPath, clusterName])]
  labels := [("cluster-name", clusterName), ("managed-by", "clusterManager"),
    ("node-index", toString i)]

/-- The node of a created container. -/
def createdNode (cfg : RuntimeConfig) (clusterName : String) (i : ℕ) (id : String) :
    RuntimeNode :=
  { name := containerName clusterName i, hostIP := "127.0.0.1"
    hostPort := UInt16.ofInt (redisPort cfg i), conIp := "127.0.0.1", id := id
    conPort := UInt16.ofInt (redisPort cfg i), clusterName := clusterName
    hostname := if cfg.dnsEnabled then cfg.buildHostname clusterName i else "" }

/-- The loop of `createPods` over the indices. -/
def createPodsFrom (cfg : RuntimeConfig) (clusterName : String) :
    List ℕ → BaseNodeManager → ContainerdProgram (Except Fault Unit × BaseNodeManager)
  | [], base => return (.ok (), base)
  | i :: rest, base => do
    let done : Option String ← sendContainerd .ctxDone
    match done with
    | some err => return (.error (.failed err), base)
    | none =>
      let name := containerName clusterName i
      let r : Except String String ← sendContainerd (.abs cfg.redisHostConfigPath)
      let configHostPath := match r with
        | .error _ => cfg.redisHostConfigPath
        | .ok path => path
      let r : Except String Unit ← sendContainerd
        (.newContainer name (containerSpec cfg clusterName i configHostPath))
      match r with
      | .error err => return (.error (.failed s!"create container {name} fail: {err}"), base)
      | .ok () =>
        let r : Except String Unit ← sendContainerd (.newTask name)
        match r with
        | .error err =>
          let _ ← sendContainerd (.deleteContainer name)
          return (.error (.failed s!"create task for {name} fail: {err}"), base)
        | .ok () =>
          let r : Except String Unit ← sendContainerd (.startTask name)
          match r with
          | .error err =>
            let _ ← sendContainerd (.deleteTask name)
            let _ ← sendContainerd (.deleteContainer name)
            return (.error (.failed s!"start task for {name} fail: {err}"), base)
          | .ok () =>
            match sliceID name with
            | none => return (.error .panicked, base)
            | some id =>
              createPodsFrom cfg clusterName rest
                (addRuntimeNode base (createdNode cfg clusterName i id))

/-- Create `nodeNum` containers, with the indices after the number of tracked nodes. -/
def createPods (cfg : RuntimeConfig) (base : BaseNodeManager) (nodeNum : ℤ)
    (clusterName : String) : ContainerdProgram (Except Fault Unit × BaseNodeManager) := do
  let start := base.num + 1
  let r : Except String Unit ← sendContainerd (.pull cfg.imageName)
  match r with
  | .error err => return (.error (.failed s!"pull image {cfg.imageName} fail: {err}"), base)
  | .ok () => createPodsFrom cfg clusterName ((List.range nodeNum.toNat).map (start + ·)) base

/-- The filters for the containers of a cluster. -/
def clusterFilters (clusterName : String) : List String :=
  ["labels.\"cluster-name\"==" ++ clusterName, "labels.\"managed-by\"==clusterManager"]

/-- A label, empty when there is none. -/
def label (labels : List (String × String)) (key : String) : String := (labels.lookup key).getD ""

/-- The node of a container that has been found. -/
def listedNode (cfg : RuntimeConfig) (clusterName containerID id : String)
    (labels : List (String × String)) : RuntimeNode :=
  -- an index that is no number is read as 0
  let nodeIndex := (Text.atoi (label labels "node-index")).getD 0
  { name := containerID, hostIP := "127.0.0.1"
    hostPort := UInt16.ofInt (redisPort cfg nodeIndex), conIp := "127.0.0.1", id := id
    conPort := UInt16.ofInt (redisPort cfg nodeIndex), clusterName := label labels "cluster-name"
    hostname := if cfg.dnsEnabled then cfg.buildHostname clusterName nodeIndex else "" }

/-- Track a container that has been found. It is not filed under its DNS name. -/
def trackFound (base : BaseNodeManager) (node : RuntimeNode) : BaseNodeManager :=
  { base.addNode node with hostToNode := base.hostToNode }

/-- The loop of `listPodsByCluster`: a container is skipped when its labels are not
told. -/
def trackListed (cfg : RuntimeConfig) (clusterName : String) :
    List String → BaseNodeManager → ContainerdProgram (Except Fault Unit × BaseNodeManager)
  | [], base => return (.ok (), base)
  | containerID :: rest, base => do
    let r : Except String (List (String × String)) ← sendContainerd (.info containerID)
    match r with
    | .error _ => trackListed cfg clusterName rest base
    | .ok labels =>
      match sliceID containerID with
      | none => return (.error .panicked, base)
      | some id =>
        trackListed cfg clusterName rest
          (trackFound base (listedNode cfg clusterName containerID id labels))

/-- Forget the tracked nodes and track the containers of the cluster. -/
def listPodsByCluster (cfg : RuntimeConfig) (base : BaseNodeManager) (clusterName : String) :
    ContainerdProgram (Except Fault Unit × BaseNodeManager) := do
  let r : Except String (List String) ← sendContainerd (.containers (clusterFilters clusterName))
  match r with
  | .error err => return (.error (.failed s!"list containers fail: {err}"), base.resetMaps)
  | .ok ids => trackListed cfg clusterName ids base.resetMaps

/-- Remove the containers that are found for the cluster, as far as that works. -/
def deleteResources (clusterName : String) : ContainerdProgram (Except Fault Unit) := do
  let r : Except String (List String) ← sendContainerd (.containers (clusterFilters clusterName))
  match r with
  | .error err => return .error (.failed s!"list containers fail: {err}")
  | .ok ids =>
    forM ids fun id => do
      let r : Except String Unit ← sendContainerd (.task id)
      match r with
      | .error _ => pure ()
      | .ok () => let _ ← sendContainerd (.deleteTask id)
      let _ ← sendContainerd (.deleteContainer id)
      return ⟨⟩
    return .ok ()

/-! ### What containerd does -/

/-- A container as containerd knows it. -/
structure CtrContainer where
  id : String
  spec : ContainerSpec
  deriving DecidableEq, Repr

/-- The containers there are, and how many requests containerd has had. -/
structure ContainerdState where
  containers : List CtrContainer
  clock : ℕ := 0
  deriving DecidableEq, Repr

/-- What is not in the hands of the program. -/
structure ContainerdEnv where
  /-- Filters select a container. -/
  selects : List String → CtrContainer → Bool
  /-- The error of a request, by the number of requests before it. -/
  error : ℕ → ContainerdCmd → Option String := fun _ _ => none
  /-- Whether a failed request has taken effect. -/
  applied : ℕ → ContainerdCmd → Bool := fun _ _ => false
  /-- The working directory. -/
  wd : String := "/"
  /-- The context is done, with an error. -/
  ctxDone : ℕ → Option String := fun _ => none

namespace ContainerdState

variable (s : ContainerdState)

/-- What a request does to the containers when it takes effect. -/
def effect : ContainerdCmd → List CtrContainer
  | .newContainer id spec =>
    -- an ID is used once
    if id ∈ s.containers.map CtrContainer.id then s.containers
    else s.containers ++ [⟨id, spec⟩]
  | .deleteContainer id => s.containers.filter fun c => c.id ≠ id
  | .pull _ | .ctxDone | .abs _ | .newTask _ | .startTask _ | .task _ | .deleteTask _
  | .containers _ | .info _ => s.containers

/-- The reply of a request that does not fail by itself. -/
def reply (env : ContainerdEnv) : (c : ContainerdCmd) → c.Reply
  | .newContainer id _ =>
    if id ∈ s.containers.map CtrContainer.id then
      .error ("container \"" ++ id ++ "\": already exists")
    else .ok ()
  | .abs path => .ok (if Path.isAbs path then Path.clean path else Path.join [env.wd, path])
  | .containers filters => .ok ((s.containers.filter (env.selects filters)).map CtrContainer.id)
  | .info id => match s.containers.find? fun c => c.id = id with
    | none => .error ("container \"" ++ id ++ "\": not found")
    | some c => .ok c.spec.labels
  | .pull _ | .newTask _ | .startTask _ | .task _ | .deleteTask _ | .deleteContainer _ => .ok ()
  | .ctxDone => env.ctxDone s.clock

/-- The reply of a request that fails. -/
def failure (err : String) : (c : ContainerdCmd) → c.Reply → c.Reply
  | .pull _, _ | .abs _, _ | .newContainer _ _, _ | .newTask _, _ | .startTask _, _ | .task _, _
  | .deleteTask _, _ | .deleteContainer _, _ | .containers _, _ | .info _, _ => .error err
  | .ctxDone, r => r

end ContainerdState

/-- How containerd answers. -/
def containerdHandler (env : ContainerdEnv) :
    Handler ContainerdCmd ContainerdCmd.Reply ContainerdState :=
  fun s c =>
    match env.error s.clock c with
    | none => (s.reply env c, { containers := s.effect c, clock := s.clock + 1 })
    | some err =>
      (ContainerdState.failure err c (s.reply env c),
        { containers := if env.applied s.clock c then s.effect c else s.containers
          clock := s.clock + 1 })

/-! ### What the calls do -/

/-- The request changes no container. -/
def ContainerdCmd.Reads : ContainerdCmd → Prop
  | .newContainer _ _ | .deleteContainer _ => False
  | .pull _ | .ctxDone | .abs _ | .newTask _ | .startTask _ | .task _ | .deleteTask _
  | .containers _ | .info _ => True

section Calls

variable {env : ContainerdEnv} {cfg : RuntimeConfig} {base base' : BaseNodeManager}
  {s s' : ContainerdState} {clusterName : String}

variable (env s) in
theorem containerdHandler_reads {c : ContainerdCmd} (hc : c.Reads) :
    (containerdHandler env s c).2.containers = s.containers := by
  have heffect : s.effect c = s.containers := by
    cases c <;> first | exact hc.elim | rfl
  rw [containerdHandler]
  split
  · exact heffect
  · rw [heffect]
    exact ite_self _

/-- A container that containerd has made has a new ID. -/
theorem newContainer_ok {id : String} {spec : ContainerSpec}
    (h : (containerdHandler env s (.newContainer id spec)).1 = .ok ()) :
    id ∉ s.containers.map CtrContainer.id ∧
      (containerdHandler env s (.newContainer id spec)).2.containers =
        s.containers ++ [⟨id, spec⟩] := by
  rw [containerdHandler] at h ⊢
  split at h
  · simp only [ContainerdState.reply] at h
    split at h
    · cases h
    · rename_i hnew
      refine ⟨hnew, ?_⟩
      simp only [ContainerdState.effect]
      rw [if_neg hnew]
  · cases h

theorem sliceID_eq_some {id short : String} (h : sliceID id = some short) : short = shortID id := by
  rw [sliceID] at h
  split at h
  · exact (Option.some.inj h).symm
  · cases h

/-- The node of an index, as it is tracked. -/
def createdFor (cfg : RuntimeConfig) (clusterName : String) (i : ℕ) : RuntimeNode :=
  createdNode cfg clusterName i (shortID (containerName clusterName i))

/-- The container of an index, as it is made. -/
def MadeFor (cfg : RuntimeConfig) (clusterName : String) (i : ℕ) (c : CtrContainer) : Prop :=
  c.id = containerName clusterName i ∧ ∃ path, c.spec = containerSpec cfg clusterName i path

theorem ids_of_madeFor {idx : List ℕ} {new : List CtrContainer}
    (h : List.Forall₂ (MadeFor cfg clusterName) idx new) :
    new.map CtrContainer.id = idx.map (containerName clusterName) := by
  induction h with
  | nil => rfl
  | cons hmade _ ih => rw [List.map_cons, List.map_cons, hmade.1, ih]

/-- What one pass of the loop does when it goes on: there is one more container, with an
ID that was not taken. -/
theorem createPodsFrom_cons_ok {i : ℕ} {rest : List ℕ}
    (h : (createPodsFrom cfg clusterName (i :: rest) base).run (containerdHandler env) s =
      ((.ok (), base'), s')) :
    containerName clusterName i ∉ s.containers.map CtrContainer.id ∧
      ∃ c s₁, MadeFor cfg clusterName i c ∧ s₁.containers = s.containers ++ [c] ∧
        (createPodsFrom cfg clusterName rest
          (addRuntimeNode base (createdFor cfg clusterName i))).run (containerdHandler env) s₁ =
            ((.ok (), base'), s') := by
  rw [createPodsFrom, Program.run_bind, Program.run_send] at h
  have hs₁ := containerdHandler_reads env s (c := .ctxDone) trivial
  generalize (containerdHandler env s .ctxDone).2 = s₁ at hs₁ h
  split at h
  · cases h
  dsimp only at h
  rw [Program.run_bind, Program.run_send] at h
  have hs₂ := (containerdHandler_reads env s₁ (c := .abs cfg.redisHostConfigPath) trivial).trans hs₁
  generalize (containerdHandler env s₁ (.abs cfg.redisHostConfigPath)).2 = s₂ at hs₂ h
  rw [Program.run_bind, Program.run_send] at h
  split at h
  · cases h
  rename_i hnew
  obtain ⟨hfresh, hs₃⟩ := newContainer_ok hnew
  generalize (containerdHandler env s₂ (.newContainer _ _)).2 = s₃ at hs₃ h
  rw [Program.run_bind, Program.run_send] at h
  have hs₄ := (containerdHandler_reads env s₃
    (c := .newTask (containerName clusterName i)) trivial).trans hs₃
  generalize (containerdHandler env s₃ (.newTask _)).2 = s₄ at hs₄ h
  split at h
  · cases h
  rw [Program.run_bind, Program.run_send] at h
  have hs₅ := (containerdHandler_reads env s₄
    (c := .startTask (containerName clusterName i)) trivial).trans hs₄
  generalize (containerdHandler env s₄ (.startTask _)).2 = s₅ at hs₅ h
  split at h
  · cases h
  split at h
  · cases h
  rename_i id hid
  rw [sliceID_eq_some hid] at h
  exact ⟨hs₂ ▸ hfresh, _, s₅, ⟨rfl, _, rfl⟩, hs₂ ▸ hs₅, h⟩

/-- **Creating containers** adds and tracks one for each index. -/
theorem createPodsFrom_ok {idx : List ℕ}
    (h : (createPodsFrom cfg clusterName idx base).run (containerdHandler env) s =
      ((.ok (), base'), s')) :
    base' = idx.foldl (fun b i => addRuntimeNode b (createdFor cfg clusterName i)) base ∧
      (∃ new, s'.containers = s.containers ++ new ∧
        List.Forall₂ (MadeFor cfg clusterName) idx new) ∧
      ((s.containers.map CtrContainer.id).Nodup → (s'.containers.map CtrContainer.id).Nodup) := by
  induction idx generalizing base s with
  | nil =>
    cases h
    exact ⟨rfl, ⟨[], (List.append_nil _).symm, .nil⟩, fun hs => hs⟩
  | cons i idx ih =>
    obtain ⟨hfresh, c, s₁, hmade, hs₁, hrest⟩ := createPodsFrom_cons_ok h
    obtain ⟨hbase, ⟨new, hs', hnew⟩, hnodup⟩ := ih hrest
    refine ⟨hbase, ⟨c :: new, ?_, .cons hmade hnew⟩, fun hs => hnodup ?_⟩
    · rw [hs', hs₁, List.append_assoc, List.singleton_append]
    · rw [hs₁, List.map_append, List.map_singleton, hmade.1]
      exact List.nodup_append.mpr ⟨hs, List.pairwise_singleton _ _, fun a ha b hb hab =>
        hfresh (List.mem_singleton.mp hb ▸ hab ▸ ha)⟩

theorem createPods_ok {n : ℤ}
    (h : (createPods cfg base n clusterName).run (containerdHandler env) s =
      ((.ok (), base'), s')) :
    ∃ s₁, s₁.containers = s.containers ∧
      (createPodsFrom cfg clusterName ((List.range n.toNat).map (base.num + 1 + ·)) base).run
        (containerdHandler env) s₁ = ((.ok (), base'), s') := by
  rw [createPods, Program.run_bind, Program.run_send] at h
  split at h
  · cases h
  · exact ⟨_, containerdHandler_reads env s (c := .pull cfg.imageName) trivial, h⟩

/-- The node has been made from the labels of the container that has its name. -/
def ListedFrom (cfg : RuntimeConfig) (clusterName : String) (containers : List CtrContainer)
    (node : RuntimeNode) : Prop :=
  ∃ c short, containers.find? (fun c => c.id = node.name) = some c ∧
    node = listedNode cfg clusterName node.name short c.spec.labels

/-- The labels that are told are those of the container. -/
theorem info_ok {id : String} {labels : List (String × String)}
    (h : (containerdHandler env s (.info id)).1 = .ok labels) :
    ∃ c, s.containers.find? (fun c => c.id = id) = some c ∧ c.spec.labels = labels := by
  rw [containerdHandler] at h
  split at h
  · simp only [ContainerdState.reply] at h
    split at h
    · cases h
    · rename_i c hc
      exact ⟨c, hc, Except.ok.inj h⟩
  · cases h

/-- The found containers are tracked under their IDs, each at most once. -/
theorem trackListed_spec (ids : List String) (base : BaseNodeManager) (s : ContainerdState) :
    ((trackListed cfg clusterName ids base).run (containerdHandler env) s).2.containers =
        s.containers ∧
      ∃ new, ((trackListed cfg clusterName ids base).run (containerdHandler env) s).1.2.nodes =
          base.nodes ++ new ∧
        (new.map RuntimeNode.name).Sublist ids ∧
        ∀ node ∈ new, ListedFrom cfg clusterName s.containers node := by
  induction ids generalizing base s with
  | nil => exact ⟨rfl, [], (List.append_nil _).symm, List.Sublist.refl _, List.forall_mem_nil _⟩
  | cons id ids ih =>
    rw [trackListed, Program.run_bind, Program.run_send]
    have hs₁ := containerdHandler_reads env s (c := .info id) trivial
    generalize (containerdHandler env s (.info id)).2 = s₁ at hs₁ ⊢
    split
    · obtain ⟨hs', new, hnodes, hnew, hlisted⟩ := ih base s₁
      exact ⟨hs'.trans hs₁, new, hnodes, hnew.cons id, hs₁ ▸ hlisted⟩
    rename_i labels hlabels
    split
    · exact ⟨hs₁, [], (List.append_nil _).symm, List.nil_sublist _, List.forall_mem_nil _⟩
    rename_i short _
    obtain ⟨c, hc, rfl⟩ := info_ok hlabels
    obtain ⟨hs', new, hnodes, hnew, hlisted⟩ :=
      ih (trackFound base (listedNode cfg clusterName id short c.spec.labels)) s₁
    refine ⟨hs'.trans hs₁, listedNode cfg clusterName id short c.spec.labels :: new, ?_,
      hnew.cons_cons id, List.forall_mem_cons.mpr ⟨⟨c, short, hc, rfl⟩, hs₁ ▸ hlisted⟩⟩
    rw [hnodes, trackFound, BaseNodeManager.addNode, List.append_assoc, List.singleton_append]

variable (env cfg clusterName) in
/-- **Listing a cluster** tracks some of the containers there are. -/
theorem listPodsByCluster_spec (base : BaseNodeManager) (s : ContainerdState) :
    ((listPodsByCluster cfg base clusterName).run (containerdHandler env) s).2.containers =
        s.containers ∧
      (((listPodsByCluster cfg base clusterName).run (containerdHandler env) s).1.2.nodes.map
        RuntimeNode.name).Sublist (s.containers.map CtrContainer.id) ∧
      ∀ node ∈ ((listPodsByCluster cfg base clusterName).run (containerdHandler env) s).1.2.nodes,
        ListedFrom cfg clusterName s.containers node := by
  rw [listPodsByCluster, Program.run_bind, Program.run_send]
  have hs₁ := containerdHandler_reads env s (c := .containers (clusterFilters clusterName)) trivial
  split
  · exact ⟨hs₁, List.nil_sublist _, List.forall_mem_nil _⟩
  rename_i ids hids
  obtain ⟨hs', new, hnodes, hnew, hlisted⟩ := trackListed_spec ids base.resetMaps
    (containerdHandler env s (.containers (clusterFilters clusterName))).2
  have hselected : ids = (s.containers.filter
      (env.selects (clusterFilters clusterName))).map CtrContainer.id := by
    rw [containerdHandler] at hids
    split at hids
    · exact (Except.ok.inj hids).symm
    · cases hids
  rw [hselected] at hnew
  refine ⟨hs'.trans hs₁, ?_, ?_⟩
  · rw [hnodes]
    exact hnew.trans (List.filter_sublist.map _)
  · rw [hnodes]
    exact hs₁ ▸ hlisted

end Calls

/-! ### One address for all nodes -/

/-- All tracked nodes have the address of the host, and are filed under it. -/
structure OnHost (base : BaseNodeManager) : Prop where
  filed : base.Filed
  conIp : ∀ node ∈ base.nodes, node.conIp = "127.0.0.1"

section OnHost

variable {cfg : RuntimeConfig} {base : BaseNodeManager} {clusterName : String}

theorem onHost_empty : OnHost {} := ⟨BaseNodeManager.filed_empty, nofun⟩

theorem OnHost.addNode (h : OnHost base) {node : RuntimeNode} (hnode : node.conIp = "127.0.0.1") :
    OnHost (base.addNode node) where
  filed := h.filed.addNode node
  conIp x hx := by
    rcases List.mem_append.mp hx with hx | hx
    · exact h.conIp x hx
    · rwa [List.mem_singleton.mp hx]

theorem OnHost.addRuntimeNode (h : OnHost base) {node : RuntimeNode}
    (hnode : node.conIp = "127.0.0.1") : OnHost (addRuntimeNode base node) := by
  rw [ClusterManager.addRuntimeNode]
  split
  · exact h.addNode hnode
  · exact h.addNode hnode

theorem OnHost.created (h : OnHost base) (idx : List ℕ) :
    OnHost (idx.foldl (fun b i => ClusterManager.addRuntimeNode b (createdFor cfg clusterName i))
      base) := by
  induction idx generalizing base with
  | nil => exact h
  | cons i idx ih => exact ih (h.addRuntimeNode rfl)

theorem trackListed_onHost (h : OnHost base) (ids : List String) :
    (trackListed cfg clusterName ids base).Returns fun r => OnHost r.2 := by
  induction ids generalizing base with
  | nil => exact h
  | cons id ids ih =>
    refine (Program.returns_true _).bind fun r _ => ?_
    split
    · exact ih h
    split
    · exact h
    · rename_i labels _ short _
      have hadd : OnHost (base.addNode (listedNode cfg clusterName id short labels)) :=
        h.addNode rfl
      exact ih ⟨⟨hadd.filed.num, hadd.filed.ip⟩, hadd.conIp⟩

theorem listPodsByCluster_onHost :
    (listPodsByCluster cfg base clusterName).Returns fun r => OnHost r.2 := by
  refine (Program.returns_true _).bind fun r _ => ?_
  split
  · exact onHost_empty
  · exact trackListed_onHost onHost_empty _

end OnHost

end Containerd

end ClusterManager
