import ClusterManager.Backend.Containers
import ClusterManager.Data.Store
import ClusterManager.Files
import ClusterManager.Model.Execution
import ClusterManager.Pipeline

/-!
# The world of the operations

`create`, `scale` and `delete` talk to podman, to the nodes of Redis clusters, to the
store and to the file system. `OpsCmd` puts their requests together and `World` their
states; `OpsEnv` is what the operations do not decide, such as which requests fail, and
`OpsEnv.handler` is how the world answers. What Redis answers may depend on the containers
there are, and is otherwise left open.

An operation is a session over these requests whose memory is that of a cluster manager
(`OpsM`). The programs of the backend and the operations of the cluster manager are
embedded in it (`OpsM.podman`, `OpsM.manager`).
-/

namespace ClusterManager

inductive OpsCmd where
  | podman (c : PodmanCmd)
  | redis (c : RedisCmd)
  | store (c : StoreCmd)
  | file (c : FileCmd)
  /-- The order in which a map is walked. -/
  | mapOrder (entries : List (String × List String))

abbrev OpsCmd.Reply : OpsCmd → Type
  | .podman c => c.Reply
  | .redis c => c.Reply
  | .store c => c.Reply
  | .file c => c.Reply
  | .mapOrder _ => List (String × List String)

abbrev OpsProgram := Program OpsCmd OpsCmd.Reply

abbrev OpsM := Session OpsCmd OpsCmd.Reply Manager Failure

structure World (ρ : Type) where
  podman : PodmanState
  redis : ρ
  store : Store := {}
  files : Files := { nodup := nodup_files_nil }
  /-- How many requests the store and the file system have had. -/
  clock : ℕ := 0

theorem perm_self : ∀ (_ : ℕ) (l : List (String × List String)), l.Perm l := fun _ => .refl

structure OpsEnv (ρ : Type) where
  podman : PodmanEnv
  /-- How the nodes of Redis clusters answer, by the containers there are. -/
  redis : List Container → Handler RedisCmd RedisCmd.Reply ρ
  /-- The error of a statement, by the number of requests before it. -/
  storeError : ℕ → StoreCmd → Option String := fun _ _ => none
  fileError : ℕ → FileCmd → Option String := fun _ _ => none
  /-- Whether a failed request has taken effect: a file that cannot be written to the end
  has been created. -/
  fileApplied : ℕ → FileCmd → Bool := fun _ _ => false
  mapOrder : ℕ → List (String × List String) → List (String × List String) := fun _ l => l
  mapOrder_perm : ∀ n l, (mapOrder n l).Perm l := by exact perm_self

namespace OpsEnv

variable {ρ : Type} (env : OpsEnv ρ)

/-- How the world answers. -/
def handler : Handler OpsCmd OpsCmd.Reply (World ρ) := fun w c =>
  match c with
  | .podman c =>
    ((podmanHandler env.podman w.podman c).1,
      { w with podman := (podmanHandler env.podman w.podman c).2 })
  | .redis c =>
    ((env.redis w.podman.containers w.redis c).1,
      { w with redis := (env.redis w.podman.containers w.redis c).2 })
  | .store c => match env.storeError w.clock c with
    | none => (w.store.reply c, { w with store := w.store.effect c, clock := w.clock + 1 })
    | some err => (Store.failure err c, { w with clock := w.clock + 1 })
  | .file c => match env.fileError w.clock c with
    | none => (w.files.reply c, { w with files := w.files.effect c, clock := w.clock + 1 })
    | some err => (Files.failure err c (w.files.reply c),
        { w with
          files := if env.fileApplied w.clock c then w.files.effect c else w.files
          clock := w.clock + 1 })
  | .mapOrder entries => (env.mapOrder w.clock entries, w)

/-- Podman is a part of the world. -/
def podmanPart : Program.Embedding OpsCmd.podman (fun _ r => r) env.handler
    (fun _ => podmanHandler env.podman) where
  get w := w.podman
  put w s := { w with podman := s }
  get_put _ _ := rfl
  put_put _ _ _ := rfl
  put_get _ := rfl
  rest_put _ _ := rfl
  reply _ _ := rfl
  state _ _ := rfl

/-- Redis is a part of the world; it sees the containers. -/
def redisPart : Program.Embedding OpsCmd.redis (fun _ r => r) env.handler
    (fun w => env.redis w.podman.containers) where
  get w := w.redis
  put w s := { w with redis := s }
  get_put _ _ := rfl
  put_put _ _ _ := rfl
  put_get _ := rfl
  rest_put _ _ := rfl
  reply _ _ := rfl
  state _ _ := rfl

end OpsEnv

namespace OpsM

variable {α : Type}

/-- Run a program of the backend. -/
def podman (p : PodmanProgram α) : OpsM α :=
  liftM (p.embed OpsCmd.podman fun _ r => r : OpsProgram α)

/-- Run an operation of the cluster manager. -/
def manager (x : ManagerM α) : OpsM α := x.embed OpsCmd.redis fun _ r => r

/-- Execute a statement. -/
def store (c : StoreCmd) : OpsM c.Reply :=
  liftM (Program.send (OpsCmd.store c) : OpsProgram c.Reply)

def file (c : FileCmd) : OpsM c.Reply := liftM (Program.send (OpsCmd.file c) : OpsProgram c.Reply)

def mapOrder (entries : List (String × List String)) : OpsM (List (String × List String)) :=
  liftM (Program.send (OpsCmd.mapOrder entries) : OpsProgram (List (String × List String)))

section Rules

variable {ρ : Type} (env : OpsEnv ρ) (m : Manager) (w : World ρ)

@[simp] theorem exec_podman (p : PodmanProgram α) :
    Session.exec env.handler (podman p) m w =
      ((.ok (p.run (podmanHandler env.podman) w.podman).1, m),
        { w with podman := (p.run (podmanHandler env.podman) w.podman).2 }) := by
  rw [podman, Session.exec_lift, Program.run_embed env.podmanPart]
  rfl

@[simp] theorem sent_podman (p : PodmanProgram α) :
    Session.sent env.handler (podman p) m w = (p.trace (podmanHandler env.podman) w.podman).map
      fun x => (.podman x.1, { w with podman := x.2 }) := by
  rw [podman, Session.sent_lift, Program.trace_embed env.podmanPart]
  rfl

@[simp] theorem exec_manager (x : ManagerM α) :
    Session.exec env.handler (manager x) m w =
      ((Session.exec (env.redis w.podman.containers) x m w.redis).1,
        { w with redis := (Session.exec (env.redis w.podman.containers) x m w.redis).2 }) :=
  Session.exec_embed env.redisPart x m w

@[simp] theorem exec_store (c : StoreCmd) :
    Session.exec env.handler (store c) m w =
      ((.ok (env.handler w (.store c)).1, m), (env.handler w (.store c)).2) := rfl

@[simp] theorem exec_file (c : FileCmd) :
    Session.exec env.handler (file c) m w =
      ((.ok (env.handler w (.file c)).1, m), (env.handler w (.file c)).2) := rfl

@[simp] theorem exec_mapOrder (entries : List (String × List String)) :
    Session.exec env.handler (mapOrder entries) m w =
      ((.ok (env.mapOrder w.clock entries), m), w) := rfl

end Rules

end OpsM

/-! ### What the operations share -/

/-- The backend there is; containerd is not compiled in. -/
def newNodeManager (cfg : RuntimeConfig) : Except String Unit :=
  if cfg.backend = "podman" then .ok ()
  else if cfg.backend = "containerd" then
    .error "containerd backend not compiled in: rebuild with -tags containerd"
  else .error s!"unsupported backend: {cfg.backend}"

def newClusterManager (cfg : RuntimeConfig) (nodesPerShard : ℤ) : Manager where
  nodesPerShard := nodesPerShard
  cacheInvalidator := cfg.cacheInvalidator

/-- The store as the persister of a pipeline. -/
def storePersister : Persister OpsCmd OpsCmd.Reply where
  savePipelineStep p n := Program.send (OpsCmd.store (.savePipelineStep p n))
  startPipelineStep p n := Program.send (OpsCmd.store (.startPipelineStep p n))
  failPipelineStep p n := Program.send (OpsCmd.store (.failPipelineStep p n))
  loadPipelineSteps p := Program.send (OpsCmd.store (.loadPipelineSteps p))
  deletePipeline p := Program.send (OpsCmd.store (.deletePipeline p))

/-- There is a persister if a database is configured and can be opened. -/
def openPersister (cfg : RuntimeConfig) : OpsM (Option (Persister OpsCmd OpsCmd.Reply)) := do
  if cfg.dbPath = "" then return none
  let r : Except String Unit ← OpsM.store (.openStore cfg.dbPath)
  match r with
  | .ok _ => return some storePersister
  | .error _ => return none

/-- Find the running containers of the cluster. -/
def listPods (cfg : RuntimeConfig) (clusterName : String) : OpsM (Except String Unit) := do
  let c ← get
  let r ← OpsM.podman (listPodsByCluster cfg c.nodeManager clusterName)
  modify fun c => { c with nodeManager := r.2 }
  return r.1

def createPodsForCluster (cfg : RuntimeConfig) (clusterName : String) (sum : ℤ) :
    OpsM PUnit := do
  let c ← get
  let r ← OpsM.podman (createPods cfg c.nodeManager sum clusterName)
  modify fun c => { c with nodeManager := r.2 }
  let _ ← Session.orFail r.1 "create pods fail "
  return ⟨⟩

/-- Delete the containers that are listed for the cluster. -/
def deletePods (clusterName : String) : OpsM PUnit := do
  let r ← OpsM.podman (deleteResources clusterName)
  let _ ← Session.orFail r ""
  return ⟨⟩

def findClusterNode (c : Manager) (clusterName : String) : Option RuntimeNode :=
  c.nodeManager.nodes.find? (·.clusterName = clusterName)

/-- The row of a node. An index that is no number is 0. -/
def containerRecord (clusterName : String) (node : RuntimeNode) : ContainerRecord where
  clusterName := clusterName
  name := node.name
  containerID := node.id
  hostIP := node.hostIP
  hostPort := node.hostPort.toNat
  containerIP := node.conIp
  containerPort := node.conPort.toNat
  nodeIndex := (Text.atoi (Text.trimPrefix node.name (clusterName ++ "-redis-"))).getD 0
  status := "running"
  hostname := node.hostname

def clusterRecord (cfg : RuntimeConfig) (clusterName : String) (shards nodesPerShard : ℤ) :
    ClusterRecord where
  name := clusterName
  backend := cfg.backend
  shards := shards
  nodesPerShard := nodesPerShard
  redisPort := cfg.redisContainerPort.toNat
  image := cfg.imageName
  status := "ready"

/-- Write the rows of the tracked nodes of the cluster. What the store answers is
ignored. -/
def upsertContainers (clusterName : String) : OpsM PUnit := do
  let c ← get
  forM (c.nodeManager.nodes.filter (·.clusterName = clusterName)) fun node => do
    let _ ← OpsM.store (.upsertContainer (containerRecord clusterName node))
    return ⟨⟩

/-- Delete the rows of a cluster, its containers first. -/
def deleteClusterRows (clusterName : String) : OpsM PUnit := do
  let r : Except String Unit ← OpsM.store (.deleteContainers clusterName)
  match r with
  | .error _ => return ⟨⟩
  | .ok _ =>
    let _ ← OpsM.store (.deleteClusterRow clusterName)
    return ⟨⟩

/-- Note an operation that has succeeded, and forget the records of its pipeline. -/
def finishPipeline (r : OperationRecord) (pipelineName : String)
    (persister : Option (Persister OpsCmd OpsCmd.Reply)) : OpsM PUnit := do
  let _ ← OpsM.store (.logOperation r)
  match persister with
  | none => return ⟨⟩
  | some persister =>
    let _ ← (liftM (persister.deletePipeline pipelineName) : OpsM (Except String Unit))
    return ⟨⟩

/-- Make the pipeline of an operation. -/
def makePipeline (cfg : RuntimeConfig) (name : String)
    (steps : Option (Persister OpsCmd OpsCmd.Reply) → List (Step OpsCmd OpsCmd.Reply Manager)) :
    OpsM (Pipeline OpsCmd OpsCmd.Reply Manager) := do
  let persister ← openPersister cfg
  let p ← liftM (Pipeline.new name persister)
  return (steps persister).foldl Pipeline.add p

/-- Run the pipeline of an operation. -/
def runPipeline (p : Pipeline OpsCmd OpsCmd.Reply Manager) (msg : String) : OpsM PUnit := do
  let r ← p.run
  let _ ← Session.orFail r.1 msg
  return ⟨⟩

/-- Run an operation in a new process: what it returns, and the world afterwards. -/
def OpsEnv.invoke {ρ α : Type} (env : OpsEnv ρ) (x : OpsM α) (w : World ρ) :
    Except Failure α × World ρ :=
  let r := Session.exec env.handler x { nodesPerShard := 0 } w
  (r.1.1, r.2)

/-- An error has been returned. -/
def returnsError {α : Type} : Except Failure α → Bool
  | .error (.error _) => true
  | .error (.panic _) | .ok _ => false

theorem returnsError_iff {α : Type} {r : Except Failure α} :
    returnsError r ↔ ∃ err, r = .error (.error err) := by
  rcases r with (err | err) | a <;> simp [returnsError]

/-! ### The building blocks -/

section Blocks

variable {ρ : Type} (env : OpsEnv ρ) (m : Manager) (w : World ρ)

theorem exec_listPods (cfg : RuntimeConfig) (clusterName : String) :
    Session.exec env.handler (listPods cfg clusterName) m w =
      let r := (listPodsByCluster cfg m.nodeManager clusterName).run (podmanHandler env.podman)
        w.podman
      ((.ok r.1.1, { m with nodeManager := r.1.2 }), { w with podman := r.2 }) := by
  rw [listPods, Session.exec_bind, Session.exec_get]
  simp only [Session.exec_bind, OpsM.exec_podman]
  rfl

theorem exec_createPodsForCluster (cfg : RuntimeConfig) (clusterName : String) (sum : ℤ) :
    Session.exec env.handler (createPodsForCluster cfg clusterName sum) m w =
      let r := (createPods cfg m.nodeManager sum clusterName).run
        (podmanHandler env.podman) w.podman
      ((match r.1.1 with
        | .ok _ => .ok ⟨⟩
        | .error err => .error (.error ("create pods fail " ++ err)),
        { m with nodeManager := r.1.2 }), { w with podman := r.2 }) := by
  rw [createPodsForCluster, Session.exec_bind, Session.exec_get]
  simp only [Session.exec_bind, OpsM.exec_podman]
  rcases (createPods cfg m.nodeManager sum clusterName).run (podmanHandler env.podman) w.podman
    with ⟨⟨err | _, base⟩, s⟩ <;> rfl

variable {env m w} in
theorem createPods_of_error {cfg : RuntimeConfig} {clusterName err : String} {sum : ℤ}
    (h : (Session.exec env.handler (createPodsForCluster cfg clusterName sum) m w).1.1 =
      .error (.error err)) :
    ∃ err', (createPods cfg m.nodeManager sum clusterName).run (podmanHandler env.podman) w.podman =
      ((.error err',
        (Session.exec env.handler (createPodsForCluster cfg clusterName sum) m w).1.2.nodeManager),
        (Session.exec env.handler (createPodsForCluster cfg clusterName sum) m w).2.podman) := by
  rw [exec_createPodsForCluster] at h ⊢
  rcases hr : (createPods cfg m.nodeManager sum clusterName).run (podmanHandler env.podman)
    w.podman with ⟨⟨err' | _, base'⟩, s'⟩
  · exact ⟨err', rfl⟩
  · rw [hr] at h
    cases h

variable {env m w} in
theorem createPods_of_ok {cfg : RuntimeConfig} {clusterName : String} {sum : ℤ} {m' : Manager}
    {w' : World ρ}
    (h : Session.exec env.handler (createPodsForCluster cfg clusterName sum) m w =
      ((.ok ⟨⟩, m'), w')) :
    m' = { m with nodeManager := m'.nodeManager } ∧ w' = { w with podman := w'.podman } ∧
      (createPods cfg m.nodeManager sum clusterName).run (podmanHandler env.podman) w.podman =
        ((.ok (), m'.nodeManager), w'.podman) := by
  rw [exec_createPodsForCluster] at h
  rcases hr : (createPods cfg m.nodeManager sum clusterName).run (podmanHandler env.podman)
    w.podman with ⟨⟨err | _, base⟩, s⟩
  · rw [hr] at h
    cases h
  · rw [hr] at h
    cases h
    exact ⟨rfl, rfl, rfl⟩

theorem exec_deletePods (clusterName : String) :
    Session.exec env.handler (deletePods clusterName) m w =
      let r := (deleteResources clusterName).run (podmanHandler env.podman) w.podman
      ((match r.1 with
        | .ok _ => .ok ⟨⟩
        | .error err => .error (.error ("" ++ err)), m), { w with podman := r.2 }) := by
  rw [deletePods, Session.exec_bind, OpsM.exec_podman]
  rcases (deleteResources clusterName).run (podmanHandler env.podman) w.podman
    with ⟨err | _, s⟩ <;> rfl

/-- A pipeline returns its error, or panics. -/
theorem exec_runPipeline (p : Pipeline OpsCmd OpsCmd.Reply Manager) (msg : String) :
    Session.exec env.handler (runPipeline p msg) m w =
      match Session.exec env.handler p.run m w with
      | ((.ok (.ok _, _), m'), w') => ((.ok ⟨⟩, m'), w')
      | ((.ok (.error err, _), m'), w') => ((.error (.error (msg ++ err)), m'), w')
      | ((.error e, m'), w') => ((.error e, m'), w') := by
  rw [runPipeline, Session.exec_bind]
  rcases Session.exec env.handler p.run m w with ⟨⟨e | ⟨err | _, completed⟩, m'⟩, w'⟩ <;> rfl

end Blocks

/-! ### The pipeline of an operation -/

section Pipelines

variable {ρ : Type} {env : OpsEnv ρ} {m : Manager} {w : World ρ}

theorem foldl_add_eq {l : List (Step OpsCmd OpsCmd.Reply Manager)}
    (hl : ∀ step ∈ l, 0 ≤ step.retry) (p : Pipeline OpsCmd OpsCmd.Reply Manager) :
    l.foldl Pipeline.add p = { p with steps := p.steps ++ l } := by
  induction l generalizing p with
  | nil => simp
  | cons step l ih =>
    have hadd : p.add step = { p with steps := p.steps ++ [step] } := by
      rw [Pipeline.add, if_neg (Int.not_lt.mpr (hl step List.mem_cons_self))]
    rw [List.foldl_cons, ih (fun s hs => hl s (List.mem_cons_of_mem _ hs)), hadd]
    simp

/-- A statement changes the store and the clock only. -/
theorem handler_store_eq (w : World ρ) (c : StoreCmd) :
    (env.handler w (.store c)).2 = { w with
      store := (env.handler w (.store c)).2.store
      clock := w.clock + 1 } := by
  simp only [OpsEnv.handler]
  split <;> rfl

/-- Telling the store changes the store and the clock only. -/
theorem told_eq {p : Pipeline OpsCmd OpsCmd.Reply Manager}
    (hp : p.persist = none ∨ p.persist = some storePersister)
    {f : Persister OpsCmd OpsCmd.Reply → String → OpsProgram (Except String Unit)} {c : StoreCmd}
    (hf : ∀ w, ((f storePersister p.name).run env.handler w).2 = (env.handler w (.store c)).2) :
    p.told env.handler f w = { w with
      store := (p.told env.handler f w).store
      clock := (p.told env.handler f w).clock } := by
  rcases hp with hp | hp
  · simp only [Pipeline.told, hp]
  · simp only [Pipeline.told, hp, hf]
    rw [handler_store_eq]

/-- A statement that only reads changes the clock only. -/
theorem handler_store_of_effect {c : StoreCmd} (hc : w.store.effect c = w.store) :
    (env.handler w (.store c)).2 = { w with clock := w.clock + 1 } := by
  simp only [OpsEnv.handler]
  split
  · rw [hc]
  · rfl

/-- A request that only reads the files changes the clock only. -/
theorem handler_file_of_effect {c : FileCmd} (hc : w.files.effect c = w.files) :
    (env.handler w (.file c)).2 = { w with clock := w.clock + 1 } := by
  simp only [OpsEnv.handler]
  split
  · rw [hc]
  · rw [hc, ite_self]

theorem exec_openPersister (env : OpsEnv ρ) (m : Manager) (w : World ρ) (cfg : RuntimeConfig) :
    ∃ q n, Session.exec env.handler (openPersister cfg) m w = ((.ok q, m), { w with clock := n }) ∧
      (q = none ∨ q = some storePersister) := by
  rw [openPersister]
  split
  · exact ⟨none, w.clock, rfl, Or.inl rfl⟩
  rw [Session.exec_bind, OpsM.exec_store]
  have hw : (env.handler w (.store (.openStore cfg.dbPath))).2 = { w with clock := w.clock + 1 } :=
    handler_store_of_effect rfl
  rcases hr : env.handler w (.store (.openStore cfg.dbPath)) with ⟨err | _, w'⟩
  · rw [hr] at hw
    exact ⟨none, w.clock + 1, by rw [← hw]; rfl, Or.inl rfl⟩
  · rw [hr] at hw
    exact ⟨some storePersister, w.clock + 1, by rw [← hw]; rfl, Or.inr rfl⟩

theorem run_new (env : OpsEnv ρ) (w : World ρ) (name : String)
    {q : Option (Persister OpsCmd OpsCmd.Reply)} (hq : q = none ∨ q = some storePersister) :
    ∃ completed n, (Pipeline.new name q : OpsProgram (Pipeline OpsCmd OpsCmd.Reply Manager)).run
      env.handler w = ({ name := name, completed := completed, persist := q },
        { w with clock := n }) := by
  rcases hq with rfl | rfl
  · exact ⟨_, w.clock, rfl⟩
  have hw : (env.handler w (.store (.loadPipelineSteps name))).2 =
      { w with clock := w.clock + 1 } :=
    handler_store_of_effect rfl
  have hload : (storePersister.loadPipelineSteps name).run env.handler w =
      env.handler w (.store (.loadPipelineSteps name)) := rfl
  rw [Pipeline.new, Program.run_bind, hload]
  rcases hr : env.handler w (.store (.loadPipelineSteps name)) with ⟨err | steps, w'⟩
  · rw [hr] at hw
    exact ⟨_, w.clock + 1, by rw [← hw]; rfl⟩
  · rw [hr] at hw
    exact ⟨_, w.clock + 1, by rw [← hw]; rfl⟩

/-- What a pipeline is like when it has been made: its persister is the store, if it has
one, and nothing but the clock has changed. -/
theorem exec_makePipeline (env : OpsEnv ρ) (m : Manager) (w : World ρ) (cfg : RuntimeConfig)
    (name : String)
    (steps : Option (Persister OpsCmd OpsCmd.Reply) → List (Step OpsCmd OpsCmd.Reply Manager))
    (hretry : ∀ persister, ∀ step ∈ steps persister, 0 ≤ step.retry) :
    ∃ p n, Session.exec env.handler (makePipeline cfg name steps) m w =
        ((.ok p, m), { w with clock := n }) ∧
      p.name = name ∧ (p.persist = none ∨ p.persist = some storePersister) ∧
        p.steps = steps p.persist := by
  obtain ⟨q, n, hopen, hq⟩ := exec_openPersister env m w cfg
  obtain ⟨completed, n', hnew⟩ := run_new env { w with clock := n } name hq
  refine ⟨{ name := name, steps := steps q, completed := completed, persist := q }, n', ?_, rfl,
    hq, rfl⟩
  rw [makePipeline, Session.exec_bind, hopen]
  simp only [Session.exec_bind, Session.exec_lift, hnew, foldl_add_eq (hretry q)]
  rfl

end Pipelines

end ClusterManager
