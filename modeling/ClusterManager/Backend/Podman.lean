import ClusterManager.Backend.Base
import ClusterManager.Config
import ClusterManager.Lib.Pattern
import ClusterManager.Lib.Program

/-!
# The podman backend

The backend runs `podman` and keeps the nodes it has created or found in a
`BaseNodeManager`. Its operations are `Program`s whose requests are the command lines
(`PodmanCmd`); what podman does with them is `podmanHandler`, over the containers there
are. Any command may fail, at any time (`PodmanEnv.error`), and a failed one may have had
its effect all the same.

The containers of a cluster are not labelled; they are found by their names. The filter
`name=X` of `podman ps` selects the containers whose name matches `X` as an unanchored
regular expression, and the backend asks for `<cluster>-redis`. `isolated_iff` says for
which pairs of clusters that keeps them apart.
-/

namespace ClusterManager

/-! ### The commands -/

/-- What `podman run` is called with. -/
structure RunSpec where
  name : String
  ports : List ℕ
  volumes : List (String × String)
  image : String
  command : List String
  deriving DecidableEq, Repr

/-- The requests of the backend. -/
inductive PodmanCmd where
  /-- `podman ps [-a] --filter name=pattern`. -/
  | ps (all : Bool) (pattern : String)
  /-- The address of a container, by name or by ID. -/
  | inspectIP (ref : String)
  /-- The full ID of a container. -/
  | inspectID (ref : String)
  /-- The line that tells the host port of a container port. -/
  | port (ref : String) (containerPort : ℕ)
  | run (spec : RunSpec)
  /-- `podman rm -f name`. -/
  | rm (name : String)
  /-- `os.MkdirAll`. -/
  | mkdirAll (dir : String)
  /-- Whether the context is done, and with which error. -/
  | ctxDone
  /-- Whether the two minutes a container is given are over. -/
  | deadline
  deriving DecidableEq, Repr

/-- What a request is answered with. -/
abbrev PodmanCmd.Reply : PodmanCmd → Type
  | .ps _ _ => Except String (List String)
  | .inspectIP _ | .inspectID _ | .port _ _ | .run _ => Except String String
  | .rm _ | .mkdirAll _ => Except String Unit
  | .ctxDone => Option String
  | .deadline => Bool

abbrev PodmanProgram := Program PodmanCmd PodmanCmd.Reply

/-- Send one request. -/
abbrev sendPodman (c : PodmanCmd) : PodmanProgram c.Reply := Program.send c

/-! ### The backend -/

/-- The name of a container of a cluster. -/
def containerName (clusterName : String) (i : ℕ) : String :=
  clusterName ++ "-redis-" ++ toString i

/-- The first twelve characters of an ID. -/
def shortID (id : String) : String := String.ofList (id.toList.take 12)

def getContainerIP (ref : String) : PodmanProgram (Except String String) := do
  let r : Except String String ← sendPodman (.inspectIP ref)
  match r with
  | .error err => return .error err
  | .ok ip => if ip = "<nil>" then return .error "container IP is nil" else return .ok ip

def getContainerHostPort (ref : String) (containerPort : ℕ) :
    PodmanProgram (Except String UInt16) := do
  let r : Except String String ← sendPodman (.port ref containerPort)
  match r with
  | .error err => return .error err
  | .ok line =>
    match Text.afterLast ':' line with
    | none => return .error s!"unexpected port output: {line}"
    | some portStr =>
      match Text.parseUint 16 portStr with
      | none => return .error s!"failed to parse port from {line}"
      | some port => return .ok (UInt16.ofNat port)

def getContainerFullID (ref : String) : PodmanProgram (Except String String) :=
  sendPodman (.inspectID ref)

/-- Track a node, with its two addresses filled in. -/
def addRuntimeNode (base : BaseNodeManager) (node : RuntimeNode) : BaseNodeManager :=
  base.addNode
    (if node.address.clientAddr = "" then
      { node with
        address :=
          { clusterAddr := node.conIp ++ ":" ++ toString node.conPort.toNat
            clientAddr := node.hostIP ++ ":" ++ toString node.hostPort.toNat } }
    else node)

/-- How the wait for a container ends. -/
inductive WaitResult where
  | ready (ip : String) (hostPort : UInt16)
  | timedOut
  | cancelled (err : String)
  deriving DecidableEq, Repr

/-- Poll a container every two seconds. After `n` polls the two minutes are over. -/
def waitReady (containerID : String) (port : ℕ) : ℕ → PodmanProgram WaitResult
  | 0 => return .timedOut
  | n + 1 => do
    let expired : Bool ← sendPodman .deadline
    if expired then return .timedOut
    let done : Option String ← sendPodman .ctxDone
    match done with
    | some err => return .cancelled err
    | none =>
      match ← getContainerIP containerID with
      | .error _ => waitReady containerID port n
      | .ok ip =>
        if ip = "" then waitReady containerID port n
        else
          match ← getContainerHostPort containerID port with
          | .error _ => waitReady containerID port n
          | .ok hostPort =>
            if hostPort = 0 then waitReady containerID port n else return .ready ip hostPort

/-- Remove the containers of the indices from `fromIdx` to `toIdx`, as far as that
works. -/
def cleanupContainers (clusterName : String) (fromIdx toIdx : ℕ) : PodmanProgram PUnit :=
  forM ((List.range (toIdx + 1 - fromIdx)).map (fromIdx + ·)) fun i => do
    let _ ← sendPodman (.rm (containerName clusterName i))
    return ⟨⟩

/-- The command line of a container. -/
def runSpec (cfg : RuntimeConfig) (clusterName : String) (i : ℕ) : RunSpec :=
  let port := cfg.redisContainerPort.toNat
  let busPort := port + 10000
  let dataHostPath := Path.join [cfg.redisHostDataPath, clusterName]
  { name := containerName clusterName i
    ports := [port, busPort]
    volumes := [(cfg.redisHostConfigPath, cfg.redisConfigPath),
      (dataHostPath, cfg.redisConfigDataPath)]
    image := cfg.imageName
    command := ["redis-server", cfg.redisConfigPath ++ "/redis.conf", "--port", toString port,
      "--cluster-announce-bus-port", toString busPort] ++
      if cfg.dnsEnabled then ["--cluster-announce-ip", containerName clusterName i] else [] }

/-- The node of a created container. -/
def createdNode (cfg : RuntimeConfig) (clusterName : String) (i : ℕ) (containerID ip : String)
    (hostPort : UInt16) : RuntimeNode :=
  { name := containerName clusterName i, hostIP := "127.0.0.1", hostPort := hostPort
    conIp := ip, id := shortID containerID, conPort := cfg.redisContainerPort
    clusterName := clusterName
    hostname := if cfg.dnsEnabled then cfg.buildHostname clusterName i else "" }

/-- The loop of `createPods` over the indices; `start` is the first one. -/
def createPodsFrom (cfg : RuntimeConfig) (clusterName : String) (start : ℕ) :
    List ℕ → BaseNodeManager → PodmanProgram (Except String Unit × BaseNodeManager)
  | [], base => return (.ok (), base)
  | i :: rest, base => do
    let done : Option String ← sendPodman .ctxDone
    match done with
    | some err => return (.error err, base)
    | none =>
      let dataHostPath := Path.join [cfg.redisHostDataPath, clusterName]
      let r : Except String Unit ← sendPodman (.mkdirAll dataHostPath)
      match r with
      | .error err => return (.error s!"failed to create data dir {dataHostPath}: {err}", base)
      | .ok () =>
        let name := containerName clusterName i
        let r : Except String String ← sendPodman (.run (runSpec cfg clusterName i))
        match r with
        | .error err => return (.error s!"failed to run container {name}: {err}", base)
        | .ok containerID =>
          match ← waitReady containerID cfg.redisContainerPort.toNat 61 with
          | .timedOut =>
            cleanupContainers clusterName start i
            return (.error s!"timed out waiting for container {name} to be ready", base)
          | .cancelled err =>
            cleanupContainers clusterName start i
            return (.error err, base)
          | .ready ip hostPort =>
            createPodsFrom cfg clusterName start rest
              (addRuntimeNode base (createdNode cfg clusterName i containerID ip hostPort))

/-- Create `nodeNum` containers, with the indices after the number of tracked nodes. -/
def createPods (cfg : RuntimeConfig) (base : BaseNodeManager) (nodeNum : ℤ)
    (clusterName : String) : PodmanProgram (Except String Unit × BaseNodeManager) :=
  let start := base.num + 1
  createPodsFrom cfg clusterName start ((List.range nodeNum.toNat).map (start + ·)) base

/-- The node of a container that has been found. -/
def listedNode (cfg : RuntimeConfig) (clusterName name ip fullID : String)
    (hostPort : UInt16) : RuntimeNode :=
  { name := name, hostIP := "127.0.0.1", hostPort := hostPort, conIp := ip
    id := shortID fullID, conPort := cfg.redisContainerPort, clusterName := clusterName
    hostname :=
      if cfg.dnsEnabled then
        -- an index that is no number is read as 0
        cfg.buildHostname clusterName
          ((Text.atoi (Text.trimPrefix name (clusterName ++ "-redis-"))).getD 0)
      else "" }

/-- The loop of `listPodsByCluster`: a container is skipped when its address, its port
or its ID is not told. -/
def trackListed (cfg : RuntimeConfig) (clusterName : String) :
    List String → BaseNodeManager → PodmanProgram BaseNodeManager
  | [], base => return base
  | name :: rest, base => do
    if name = "" then trackListed cfg clusterName rest base
    else
      match ← getContainerIP name with
      | .error _ => trackListed cfg clusterName rest base
      | .ok ip =>
        match ← getContainerHostPort name cfg.redisContainerPort.toNat with
        | .error _ => trackListed cfg clusterName rest base
        | .ok hostPort =>
          match ← getContainerFullID name with
          | .error _ => trackListed cfg clusterName rest base
          | .ok fullID =>
            trackListed cfg clusterName rest
              (base.addNode (listedNode cfg clusterName name ip fullID hostPort))

/-- Forget the tracked nodes and track the running containers of the cluster. -/
def listPodsByCluster (cfg : RuntimeConfig) (base : BaseNodeManager) (clusterName : String) :
    PodmanProgram (Except String Unit × BaseNodeManager) := do
  let r : Except String (List String) ← sendPodman (.ps false (clusterName ++ "-redis"))
  match r with
  | .error err => return (.error s!"failed to list containers: {err}", base.resetMaps)
  | .ok names => return (.ok (), ← trackListed cfg clusterName names base.resetMaps)

/-- Remove the containers that are listed for the cluster, as far as that works. -/
def deleteResources (clusterName : String) : PodmanProgram (Except String Unit) := do
  let r : Except String (List String) ← sendPodman (.ps true (clusterName ++ "-redis"))
  match r with
  | .error err => return .error s!"failed to list containers: {err}"
  | .ok names =>
    forM (names.filter (· ≠ "")) fun name => do
      let _ ← sendPodman (.rm name)
      return ⟨⟩
    return .ok ()

/-! ### What podman does -/

/-- A container as podman knows it. -/
structure Container where
  name : String
  id : String
  ip : String
  running : Bool := true
  /-- The published ports: a container port and its host port. -/
  ports : List (ℕ × ℕ) := []
  deriving DecidableEq, Repr

/-- The containers there are, and how many requests podman has had. -/
structure PodmanState where
  containers : List Container
  clock : ℕ := 0
  deriving DecidableEq, Repr

/-- What is not in the hands of the program: the regular expressions of podman, which
requests fail and when, and what a new container gets. -/
structure PodmanEnv where
  /-- A name matches a pattern. -/
  regex : String → String → Bool
  /-- The error of a request, by the number of requests before it. -/
  error : ℕ → PodmanCmd → Option String := fun _ _ => none
  /-- Whether a failed request has taken effect. -/
  applied : ℕ → PodmanCmd → Bool := fun _ _ => false
  /-- The container that a `run` creates. -/
  create : ℕ → RunSpec → Container
  create_name : ∀ n spec, (create n spec).name = spec.name := by intros; rfl
  /-- The context is done, with an error. -/
  ctxDone : ℕ → Option String := fun _ => none
  /-- The time of a container is over. -/
  expired : ℕ → Bool := fun _ => false

namespace PodmanState

variable (s : PodmanState)

/-- The container of a name or an ID. -/
def find (ref : String) : Option Container :=
  s.containers.find? fun c => c.name = ref ∨ c.id = ref

/-- The containers that `ps` lists. -/
def listed (env : PodmanEnv) (all : Bool) (pattern : String) : List String :=
  (s.containers.filter fun c => (all || c.running) && env.regex pattern c.name).map
    Container.name

/-- What a request does to the containers when it takes effect. -/
def effect (env : PodmanEnv) : PodmanCmd → List Container
  | .run spec =>
    -- a name is used once
    if spec.name ∈ s.containers.map Container.name then s.containers
    else s.containers ++ [env.create s.clock spec]
  | .rm name => s.containers.filter fun c => c.name ≠ name
  | .ps _ _ | .inspectIP _ | .inspectID _ | .port _ _ | .mkdirAll _ | .ctxDone | .deadline =>
    s.containers

/-- The reply of a request that does not fail by itself. -/
def reply (env : PodmanEnv) : (c : PodmanCmd) → c.Reply
  | .ps all pattern => .ok (s.listed env all pattern)
  | .inspectIP ref => match s.find ref with
    | none => .error ("no such object: " ++ ref)
    | some c => .ok c.ip
  | .inspectID ref => match s.find ref with
    | none => .error ("no such object: " ++ ref)
    | some c => .ok c.id
  | .port ref p => match (s.find ref).bind fun c => c.ports.lookup p with
    | none => .error ("no port " ++ toString p ++ " has been bound for " ++ ref)
    | some hostPort => .ok ("0.0.0.0:" ++ toString hostPort)
  | .run spec =>
    if spec.name ∈ s.containers.map Container.name then
      .error ("the container name " ++ spec.name ++ " is already in use")
    else .ok (env.create s.clock spec).id
  | .rm _ => .ok ()
  | .mkdirAll _ => .ok ()
  | .ctxDone => env.ctxDone s.clock
  | .deadline => env.expired s.clock

/-- The reply of a request that fails. -/
def failure (err : String) : (c : PodmanCmd) → c.Reply → c.Reply
  | .ps _ _, _ | .inspectIP _, _ | .inspectID _, _ | .port _ _, _ | .run _, _ | .rm _, _
  | .mkdirAll _, _ => .error err
  | .ctxDone, r | .deadline, r => r

end PodmanState

/-- How podman answers. -/
def podmanHandler (env : PodmanEnv) : Handler PodmanCmd PodmanCmd.Reply PodmanState :=
  fun s c =>
    match env.error s.clock c with
    | none => (s.reply env c, { containers := s.effect env c, clock := s.clock + 1 })
    | some err =>
      (PodmanState.failure err c (s.reply env c),
        { containers := if env.applied s.clock c then s.effect env c else s.containers
          clock := s.clock + 1 })

/-- A request takes effect: it does not fail, or it fails afterwards. -/
def PodmanEnv.TakesEffect (env : PodmanEnv) (n : ℕ) (c : PodmanCmd) : Prop :=
  env.error n c = none ∨ env.applied n c

section Effect

variable {env : PodmanEnv} {s : PodmanState} {c : PodmanCmd}

/-- A request that does not fail is answered, and takes effect. -/
theorem podmanHandler_of_ok (h : env.error s.clock c = none) :
    podmanHandler env s c =
      (s.reply env c, { containers := s.effect env c, clock := s.clock + 1 }) := by
  rw [podmanHandler, h]

theorem containers_of_takesEffect (h : env.TakesEffect s.clock c) :
    (podmanHandler env s c).2.containers = s.effect env c := by
  rw [podmanHandler]
  split
  · rfl
  · rename_i herr
    rcases h with h | h
    · rw [h] at herr
      cases herr
    · exact if_pos h

theorem containers_of_not_takesEffect (h : ¬ env.TakesEffect s.clock c) :
    (podmanHandler env s c).2.containers = s.containers := by
  rw [podmanHandler]
  split
  · rename_i hok
    exact absurd (Or.inl hok) h
  · exact if_neg fun happlied => h (Or.inr happlied)

variable (env s c) in
/-- A request does its effect to the containers, or nothing. -/
theorem containers_podmanHandler :
    (podmanHandler env s c).2.containers = s.effect env c ∨
      (podmanHandler env s c).2.containers = s.containers := by
  by_cases h : env.TakesEffect s.clock c
  · exact Or.inl (containers_of_takesEffect h)
  · exact Or.inr (containers_of_not_takesEffect h)

variable (env s c) in
@[simp] theorem clock_podmanHandler : (podmanHandler env s c).2.clock = s.clock + 1 := by
  rw [podmanHandler]
  split <;> rfl

variable (env s) in
/-- Whether the context is done is always told. -/
theorem podmanHandler_ctxDone : (podmanHandler env s .ctxDone).1 = env.ctxDone s.clock := by
  rw [podmanHandler]
  split <;> rfl

variable (env s) in
/-- So is whether the time is over. -/
theorem podmanHandler_deadline : (podmanHandler env s .deadline).1 = env.expired s.clock := by
  rw [podmanHandler]
  split <;> rfl

end Effect

/-! ### Keeping clusters apart -/

/-- A container of a cluster, by the naming scheme. -/
def Container.OfCluster (c : Container) (clusterName : String) : Prop :=
  ∃ i, c.name = containerName clusterName i

/-- The cluster `B` is safe from operations on `A`: deleting the resources of `A` leaves
every container of `B` in place, and listing the containers of `A` tracks no container
of `B`. -/
def Isolated (env : PodmanEnv) (cfg : RuntimeConfig) (base : BaseNodeManager)
    (s : PodmanState) (A B : String) : Prop :=
  (∀ c ∈ s.containers, c.OfCluster B →
    c ∈ ((deleteResources A).run (podmanHandler env) s).2.containers) ∧
  ∀ node ∈ ((listPodsByCluster cfg base A).run (podmanHandler env) s).1.2.nodes,
    ∀ i, node.name ≠ containerName B i

/-- A character that a container name can have. -/
def nameChar (c : Char) : Bool := c.isAlphanum || c = '_' || c = '.' || c = '-'

/-- The dot as a wildcard, and nothing else special, anywhere in the name: what a
pattern of name characters means as an unanchored regular expression. -/
def dotMatch (pattern name : String) : Bool :=
  Pattern.matchAnywhere '.' pattern.toList name.toList

section Isolation

variable {env : PodmanEnv} {cfg : RuntimeConfig} {base : BaseNodeManager} {s : PodmanState}
  {A B : String}

/-- Removing names one after the other removes the containers of these names. -/
theorem forM_rm_containers (names : List String)
    (hok : ∀ x ∈ (forM names fun name => do
        let _ ← sendPodman (.rm name)
        return ⟨⟩ : PodmanProgram PUnit).trace (podmanHandler env) s,
      env.error x.2.clock x.1 = none) :
    ((forM names fun name => do
        let _ ← sendPodman (.rm name)
        return ⟨⟩ : PodmanProgram PUnit).run (podmanHandler env) s).2.containers =
      s.containers.filter fun c => c.name ∉ names := by
  induction names generalizing s with
  | nil => simp
  | cons name names ih =>
    rw [List.forM_cons, Program.trace_bind] at hok
    have hfirst : env.error s.clock (.rm name) = none :=
      hok (_, s) (List.mem_append_left _ List.mem_cons_self)
    have hrm : (podmanHandler env s (.rm name)).2.containers =
        s.containers.filter fun c => c.name ≠ name := by
      rw [podmanHandler_of_ok hfirst]
      rfl
    rw [List.forM_cons, Program.run_bind, ih fun x hx => hok x (List.mem_append_right _ hx),
      Program.run_bind, Program.run_send, Program.run_pure, hrm, List.filter_filter]
    refine List.filter_congr fun c _ => ?_
    simp [not_or, Bool.and_comm]

/-- What deleting the resources of a cluster leaves when none of its requests fails. -/
theorem deleteResources_containers
    (hok : ∀ x ∈ (deleteResources A).trace (podmanHandler env) s,
      env.error x.2.clock x.1 = none) :
    ((deleteResources A).run (podmanHandler env) s).2.containers =
      s.containers.filter fun c =>
        c.name ∉ (s.listed env true (A ++ "-redis")).filter (· ≠ "") := by
  rw [deleteResources, Program.trace_bind] at hok
  have hfirst : env.error s.clock (.ps true (A ++ "-redis")) = none :=
    hok (_, s) (List.mem_append_left _ List.mem_cons_self)
  have hps : podmanHandler env s (.ps true (A ++ "-redis")) =
      (.ok (s.listed env true (A ++ "-redis")),
        { containers := s.containers, clock := s.clock + 1 }) := podmanHandler_of_ok hfirst
  rw [Program.run_send, hps] at hok
  rw [deleteResources, Program.run_bind, Program.run_send, hps]
  simp only [Program.run_bind, Program.run_pure, Program.trace_bind] at hok ⊢
  exact forM_rm_containers _ fun x hx =>
    hok x (List.mem_append_right _ (List.mem_append_left _ hx))

/-- Deleting the resources of a cluster lists containers and removes some. -/
theorem deleteResources_sends : (deleteResources A).Sends fun c =>
    c = .ps true (A ++ "-redis") ∨ ∃ name, c = .rm name := by
  refine Program.Sends.bind ⟨Or.inl rfl, fun _ => trivial⟩ fun r => ?_
  rcases r with err | names
  · trivial
  · refine Program.Sends.bind (Program.Sends.forM fun name _ => ?_) fun _ => trivial
    exact Program.Sends.bind ⟨Or.inr ⟨name, rfl⟩, fun _ => trivial⟩ fun _ => trivial

/-- The tracked nodes are those there were and some of those named. -/
theorem trackListed_nodes {σ : Type} (h : Handler PodmanCmd PodmanCmd.Reply σ) {w : σ}
    {names : List String} {node : RuntimeNode}
    (hnode : node ∈ ((trackListed cfg A names base).run h w).1.nodes) :
    node ∈ base.nodes ∨ node.name ∈ names := by
  induction names generalizing base w with
  | nil => exact Or.inl hnode
  | cons name names ih =>
    have hskip : ∀ w', node ∈ ((trackListed cfg A names base).run h w').1.nodes →
        node ∈ base.nodes ∨ node.name ∈ name :: names := fun w' hn =>
      (ih hn).imp_right (List.mem_cons_of_mem _)
    rw [trackListed] at hnode
    split at hnode
    · exact hskip _ hnode
    rw [Program.run_bind] at hnode
    split at hnode
    · exact hskip _ hnode
    rw [Program.run_bind] at hnode
    split at hnode
    · exact hskip _ hnode
    rw [Program.run_bind] at hnode
    split at hnode
    · exact hskip _ hnode
    rcases ih hnode with hn | hn
    · rcases List.mem_append.mp hn with hn | hn
      · exact Or.inl hn
      · obtain rfl := List.mem_singleton.mp hn
        exact Or.inr (by simp [listedNode])
    · exact Or.inr (List.mem_cons_of_mem _ hn)

/-- Listing a cluster tracks containers that podman lists for it. -/
theorem listPodsByCluster_nodes (hok : ∀ n c, env.error n c = none) {node : RuntimeNode}
    (hnode : node ∈ ((listPodsByCluster cfg base A).run (podmanHandler env) s).1.2.nodes) :
    node.name ∈ s.listed env false (A ++ "-redis") := by
  have hps : podmanHandler env s (.ps false (A ++ "-redis")) =
      (.ok (s.listed env false (A ++ "-redis")),
        { containers := s.containers, clock := s.clock + 1 }) := podmanHandler_of_ok (hok _ _)
  rw [listPodsByCluster, Program.run_bind, Program.run_send, hps] at hnode
  simp only [Program.run_bind, Program.run_pure] at hnode
  rcases trackListed_nodes _ hnode with hn | hn
  · simp [BaseNodeManager.resetMaps] at hn
  · exact hn

theorem mem_listed {all : Bool} {pattern name : String} :
    name ∈ s.listed env all pattern ↔ ∃ c ∈ s.containers,
      (all ∨ c.running) ∧ env.regex pattern c.name ∧ c.name = name := by
  simp [PodmanState.listed, and_assoc]

theorem containerName_ne_empty (clusterName : String) (i : ℕ) :
    containerName clusterName i ≠ "" := by
  intro h
  have := congrArg String.toList h
  simp [containerName, String.toList_append] at this

/-- The index of a container can be read off its name. -/
theorem containerName_inj {clusterName : String} {i j : ℕ} :
    containerName clusterName i = containerName clusterName j ↔ i = j := by
  refine ⟨fun h => ?_, fun h => h ▸ rfl⟩
  have hlist := congrArg String.toList h
  simp only [containerName, String.toList_append] at hlist
  have hindex : (toString i).toList = (toString j).toList := List.append_cancel_left hlist
  have hdigits := Text.digits_toString i
  rw [hindex, Text.digits_toString] at hdigits
  exact (Option.some.inj hdigits).symm

/-- A cluster is safe when none of its containers matches the pattern of the other. -/
theorem isolated_iff_forall (hok : ∀ n c, env.error n c = none) :
    Isolated env cfg base s A B ↔
      ∀ c ∈ s.containers, c.OfCluster B → ¬ env.regex (A ++ "-redis") c.name := by
  rw [Isolated, deleteResources_containers fun _ _ => hok _ _]
  constructor
  · rintro ⟨hdel, -⟩ c hc ⟨i, hname⟩ hre
    have hstay := (List.mem_filter.mp (hdel c hc ⟨i, hname⟩)).2
    refine (of_decide_eq_true hstay) (List.mem_filter.mpr ⟨?_, ?_⟩)
    · exact mem_listed.mpr ⟨c, hc, Or.inl rfl, hre, rfl⟩
    · rw [hname]
      simpa using containerName_ne_empty B i
  · intro h
    refine ⟨fun c hc hB => List.mem_filter.mpr ⟨hc, decide_eq_true fun hlisted => ?_⟩, ?_⟩
    · obtain ⟨c', -, -, hre, hname⟩ := mem_listed.mp (List.mem_of_mem_filter hlisted)
      rw [hname] at hre
      exact h c hc hB hre
    · intro node hnode i hname
      obtain ⟨c, hc, -, hre, hcname⟩ := mem_listed.mp (listPodsByCluster_nodes hok hnode)
      exact h c hc ⟨i, hcname.trans hname⟩ hre

/-- The pattern `<A>-redis` finds a container of `B` when `A` stands for the end of `B`, or
when the whole pattern occurs in `B`. -/
theorem dotMatch_containerName (i : ℕ) :
    dotMatch (A ++ "-redis") (containerName B i) ↔
      Pattern.matchEnd '.' A.toList B.toList ∨
        Pattern.matchAnywhere '.' (A ++ "-redis").toList B.toList := by
  have hdigit : ∀ c ∈ (toString i).toList, c.isDigit := fun _ => Text.isDigit_of_mem_toString
  have hpat : (A ++ "-redis").toList = A.toList ++ '-' :: ['r', 'e', 'd', 'i', 's'] := by
    rw [String.toList_append]
    rfl
  have hname : (containerName B i).toList =
      B.toList ++ ('-' :: ['r', 'e', 'd', 'i', 's'] ++ '-' :: (toString i).toList) := by
    rw [containerName, String.toList_append, String.toList_append, List.append_assoc]
    rfl
  rw [dotMatch, hpat, hname]
  refine Pattern.matchAnywhere_marked_iff (by decide) (by decide) (fun hc => ?_) ?_ (by decide)
  · exact absurd (hdigit _ hc) (by decide)
  · intro x hx hc
    have hx' := hdigit x hc
    simp only [List.mem_cons, List.not_mem_nil, or_false] at hx
    rcases hx with rfl | rfl | rfl | rfl | rfl <;> exact absurd hx' (by decide)

/-- **When clusters are kept apart.** The cluster `B` is safe from operations on `A` when
no container of `B` matches the pattern `<A>-redis`. For a name `A` that podman can have
in a container name, that is when there is no container of `B`, or `A` stands neither for
the end of `B` nor, with `-redis` after it, for a part of `B`; a dot in `A` stands for any
character. -/
theorem isolated_iff (env : PodmanEnv) (cfg : RuntimeConfig) (base : BaseNodeManager)
    (s : PodmanState) (A B : String) (hok : ∀ n c, env.error n c = none)
    (hregex : ∀ pattern name, (∀ c ∈ pattern.toList, nameChar c) →
      env.regex pattern name = dotMatch pattern name) :
    (Isolated env cfg base s A B ↔
      ∀ c ∈ s.containers, c.OfCluster B → ¬ env.regex (A ++ "-redis") c.name) ∧
    ((∀ c ∈ A.toList, nameChar c) →
      (Isolated env cfg base s A B ↔ (∀ c ∈ s.containers, ¬ c.OfCluster B) ∨
        ¬ (Pattern.matchEnd '.' A.toList B.toList ∨
          Pattern.matchAnywhere '.' (A ++ "-redis").toList B.toList))) := by
  refine ⟨isolated_iff_forall hok, fun hA => (isolated_iff_forall hok).trans ?_⟩
  have hmark : ∀ c ∈ "-redis".toList, nameChar c :=
    List.all_eq_true.mp (by decide)
  have hpat : ∀ c ∈ (A ++ "-redis").toList, nameChar c := by
    intro c hc
    rw [String.toList_append] at hc
    exact (List.mem_append.mp hc).elim (hA c) (hmark c)
  -- whether a container of `B` matches does not depend on its index
  have hmatch : ∀ c : Container, c.OfCluster B → (env.regex (A ++ "-redis") c.name ↔
      Pattern.matchEnd '.' A.toList B.toList ∨
        Pattern.matchAnywhere '.' (A ++ "-redis").toList B.toList) := by
    rintro c ⟨i, hname⟩
    rw [hname, hregex _ _ hpat, dotMatch_containerName]
  constructor
  · intro h
    by_cases hsome : ∃ c ∈ s.containers, c.OfCluster B
    · obtain ⟨c, hmem, hB⟩ := hsome
      exact Or.inr fun hAB => h c hmem hB ((hmatch c hB).mpr hAB)
    · exact Or.inl fun c hmem hB => hsome ⟨c, hmem, hB⟩
  · rintro (hnone | hAB) c hmem hB hre
    · exact hnone c hmem hB
    · exact hAB ((hmatch c hB).mp hre)

/-- Podman without failures. -/
def plainPodman : PodmanEnv where
  regex := dotMatch
  create _ spec := { name := spec.name, id := spec.name, ip := "10.88.0.9" }

/-- A configuration. -/
def plainConfig : RuntimeConfig where
  projectRoot := "/srv"
  redisHostConfigPath := "/srv/configs"
  redisConfigPath := "/data/redis/config"
  redisHostDataPath := "/srv/configs"
  redisConfigDataPath := "/data/redis/data"
  runtimeStateDir := "/srv/runtime"
  configSaveFileName := "/srv/runtime/run_time_config.yaml"
  backend := "podman"
  dbPath := "/srv/runtime/cluster.db"
  containerdSocket := "/run/containerd/containerd.sock"
  imageName := "redis:7-alpine"
  redisContainerPort := 6379
  cache := none
  dns := none

/-- Two clusters whose names have nothing to do with each other. -/
theorem isolated_of_unrelated :
    Isolated plainPodman plainConfig {} ⟨[⟨"blue-redis-1", "b1", "10.88.0.2", true, []⟩], 0⟩
      "green" "blue" := by
  refine ((isolated_iff plainPodman plainConfig {} _ "green" "blue" (fun _ _ => rfl)
    (fun _ _ _ => rfl)).2 (List.all_eq_true.mp (by decide))).mpr (Or.inr ?_)
  decide

/-- Deleting `prod` removes the container of `my-prod`. -/
theorem not_isolated_of_suffix :
    ¬ Isolated plainPodman plainConfig {}
      ⟨[⟨"my-prod-redis-1", "m1", "10.88.0.2", true, [(6379, 40001)]⟩], 0⟩ "prod" "my-prod" := by
  rw [isolated_iff_forall fun _ _ => rfl]
  intro h
  exact h _ (List.mem_singleton_self _) ⟨1, rfl⟩ (by decide)

end Isolation

end ClusterManager
