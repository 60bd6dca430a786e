import ClusterManager.Ops.Resume
import ClusterManager.Pipeline.Keeping

/-!
# Histories of operations that are cut

A history here is a list of operations, each with the number of requests after which its process
dies; a process that is given more than it sends comes to its end, whether it returns an error or
not. So what holds after every such history holds at every moment of every history.

There is one rule for whole operations (`Op.throughout`): what each of the steps keeps whenever it
is cut, and the persister keeps when it is told, an operation keeps. Two things follow that nobody
says in the code. Operations on other clusters leave the rows of a cluster alone, and its log, and
the records of its pipelines, whatever fails (`others_untouched`). And a container never has a row
without its cluster having one (`rows_backed`), although no statement is made together with another
in a transaction: the row of the cluster is written first and deleted last.
-/

namespace ClusterManager

variable {ρ : Type} {env : OpsEnv ρ}

/-! ### A rule for operations -/

/-- The statements that the pipeline of a name makes on its own behalf. -/
def StoreCmd.OfPipeline (name : String) : StoreCmd → Prop
  | .openStore _ => True
  | .savePipelineStep p _ | .startPipelineStep p _ | .failPipelineStep p _
  | .loadPipelineSteps p | .deletePipeline p => p = name
  | .upsertCluster _ | .deleteContainers _ | .deleteClusterRow _ | .upsertContainer _
  | .logOperation _ => False

section Rule

variable {I : World ρ → Prop} {name msg : String} {m : Manager} {w : World ρ} {cfg : RuntimeConfig}
  {steps : Option (Persister OpsCmd OpsCmd.Reply) → List (Step OpsCmd OpsCmd.Reply Manager)}
  (hrecords : ∀ w c, c.OfPipeline name → I w → I (env.handler w (.store c)).2)

include hrecords

theorem throughout_store {c : StoreCmd} (hc : c.OfPipeline name) (hw : I w) :
    Session.Throughout env.handler I (OpsM.store c) m w :=
  Session.throughout_lift (Program.throughout_send hw (hrecords w c hc hw))

theorem throughout_openPersister (hw : I w) :
    Session.Throughout env.handler I (openPersister cfg) m w := by
  rw [openPersister]
  split
  · exact Session.throughout_pure hw
  refine (throughout_store hrecords (c := .openStore cfg.dbPath) trivial hw).andThen
    fun r m' w' hw' => ?_
  rcases r with err | _ <;> exact Session.throughout_pure hw'

theorem throughout_new {q : Option (Persister OpsCmd OpsCmd.Reply)}
    (hq : q = none ∨ q = some storePersister) (hw : I w) :
    (Pipeline.new name q : OpsProgram (Pipeline OpsCmd OpsCmd.Reply Manager)).Throughout env.handler
      I w := by
  rcases hq with rfl | rfl
  · exact Program.throughout_pure hw
  have hload := hrecords w (.loadPipelineSteps name) rfl hw
  refine Program.Throughout.bind (Program.throughout_send hw hload) ?_
  split <;> exact Program.throughout_pure hload

theorem keeps_storePersister : storePersister.Keeps env.handler I name where
  start _ w hw := Program.throughout_send hw (hrecords w (.startPipelineStep name _) rfl hw)
  fail _ w hw := Program.throughout_send hw (hrecords w (.failPipelineStep name _) rfl hw)
  save _ w hw := Program.throughout_send hw (hrecords w (.savePipelineStep name _) rfl hw)
  delete w hw := Program.throughout_send hw (hrecords w (.deletePipeline name) rfl hw)

/-- What the steps keep whenever they are cut, making the pipeline and running it keeps. -/
theorem throughout_pipeline (hretry : ∀ q, ∀ step ∈ steps q, 0 ≤ step.retry)
    (hsteps : ∀ q, q = none ∨ q = some storePersister → ∀ step ∈ steps q,
      step.KeepsThroughout env.handler I) (hw : I w) :
    Session.Throughout env.handler I (do
      let p ← makePipeline cfg name steps
      runPipeline p msg) m w := by
  obtain ⟨q, n, hopen, hq⟩ := exec_openPersister env m w cfg
  obtain ⟨p, n', hexec, hname, hpersist, hp⟩ := exec_makePipeline env m w cfg name steps hretry
  have hmake : Session.Throughout env.handler I (makePipeline cfg name steps) m w := by
    refine (throughout_openPersister hrecords hw).bind fun q' m₁ w₁ hopen' => ?_
    have hopened : Session.Throughout env.handler I (openPersister cfg) m w :=
      throughout_openPersister hrecords hw
    have hw₁ := hopened.last
    rw [hopen] at hopen' hw₁
    cases hopen'
    exact (Session.throughout_lift (throughout_new hrecords hq hw₁)).andThen
      fun _ _ _ => Session.throughout_pure
  have hw₀ := hmake.last
  refine hmake.bind fun p' m₁ w₁ hexec' => ?_
  rw [hexec] at hexec' hw₀
  cases hexec'
  refine Session.Throughout.andThen (Pipeline.keeps_run (fun persist hpersist' => ?_)
    (fun step hstep => hsteps _ hpersist step (hp ▸ hstep)) hw₀) fun r m₂ w₂ hw₂ => ?_
  · rcases hpersist with hnone | hsome
    · rw [hnone] at hpersist'
      cases hpersist'
    · rw [hsome] at hpersist'
      cases hpersist'
      rw [hname]
      exact keeps_storePersister hrecords
  · exact (Session.throughout_orFail r.1 msg hw₂).andThen fun _ _ _ => Session.throughout_pure

end Rule

/-- A step of an operation, with a persister or without one. A scale-out takes a port and a number
of nodes from the saved settings. -/
def Op.HasStep (op : Op) (step : Step OpsCmd OpsCmd.Reply Manager) : Prop :=
  ∃ q, (q = none ∨ q = some storePersister) ∧
    match op with
    | .create cfg shardCount nodesPerShard clusterName =>
      step ∈ Create.steps cfg shardCount nodesPerShard clusterName q
    | .scale _ additionalShards clusterName =>
      ∃ cfg nodesPerShard, step ∈ Scale.steps cfg additionalShards nodesPerShard clusterName q
    | .delete cfg clusterName => step ∈ Delete.steps cfg clusterName q

/-- **What every step keeps whenever it is cut, an operation keeps whenever it is cut.** -/
theorem Op.throughout {I : World ρ → Prop} (op : Op)
    (hrecords : ∀ w c, c.OfPipeline op.pipelineName → I w → I (env.handler w (.store c)).2)
    (hread : ∀ w path, I w → I (env.handler w (.file (.readFromYAMLFile path))).2)
    (hsteps : ∀ step, op.HasStep step → step.KeepsThroughout env.handler I) {m : Manager}
    {w : World ρ} (hw : I w) : Session.Throughout env.handler I op.action m w := by
  cases op with
  | create cfg shardCount nodesPerShard clusterName =>
    simp only [Op.action, createClusterAction, Create.prepare, bind_assoc]
    refine (Session.throughout_orFail _ _ hw).andThen fun _ m₁ w₁ hw₁ => ?_
    refine Session.Throughout.andThen (Program.throughout_pure hw₁) fun _ m₂ w₂ hw₂ => ?_
    exact throughout_pipeline hrecords (fun q step h => Create.steps_retry _ _ _ _ h)
      (fun q hq step h => hsteps step ⟨q, hq, h⟩) hw₂
  | scale cfg additionalShards clusterName =>
    simp only [Op.action, scaleClusterAction, Scale.prepare, bind_assoc]
    refine (Session.throughout_orFail _ _ hw).andThen fun _ m₁ w₁ hw₁ => ?_
    refine (Session.throughout_lift (Program.throughout_send hw₁ (hread w₁ _ hw₁))).andThen
      fun r m₂ w₂ hw₂ => (Session.throughout_orFail _ _ hw₂).andThen fun saved m₃ w₃ hw₃ => ?_
    refine Session.Throughout.andThen (Program.throughout_pure hw₃) fun _ m₄ w₄ hw₄ => ?_
    exact throughout_pipeline hrecords (fun q step h => Scale.steps_retry _ _ _ _ h)
      (fun q hq step h => hsteps step ⟨q, hq, _, _, h⟩) hw₄
  | delete cfg clusterName =>
    simp only [Op.action, deleteAllContainers, Delete.prepare, bind_assoc]
    refine (Session.throughout_orFail _ _ hw).andThen fun _ m₁ w₁ hw₁ => ?_
    exact throughout_pipeline hrecords (fun q step h => Delete.steps_retry _ _ h)
      (fun q hq step h => hsteps step ⟨q, hq, h⟩) hw₁

/-- The world after operations whose processes die after so many requests each. -/
def OpsEnv.afterCuts (env : OpsEnv ρ) (history : List (Op × ℕ)) (w : World ρ) : World ρ :=
  history.foldl (fun w x => env.crash x.1.action w x.2) w

/-- What each operation of a history keeps whenever it is cut holds after the history. -/
theorem afterCuts_inv {I : World ρ → Prop} {history : List (Op × ℕ)}
    (h : ∀ x ∈ history, ∀ w, I w →
      Session.Throughout env.handler I x.1.action { nodesPerShard := 0 } w)
    {w : World ρ} (hw : I w) : I (env.afterCuts history w) :=
  List.foldlRecOn history _ hw fun _ hw x hx => h x hx _ hw x.2

/-! ### The steps that talk to the store -/

/-- A request to anything but the store. -/
def OpsCmd.NotStore : OpsCmd → Prop
  | .store _ => False
  | .podman _ | .redis _ | .file _ | .mapOrder _ => True

/-- Doing and undoing a step sends such requests only. -/
structure Step.Sends (ok : OpsCmd → Prop) (step : Step OpsCmd OpsCmd.Reply Manager) : Prop where
  action : Session.Sends ok step.action
  undo : ∀ undo, step.undo = some undo → Session.Sends ok undo

theorem Step.Sends.keepsThroughout {ok : OpsCmd → Prop} {step : Step OpsCmd OpsCmd.Reply Manager}
    (h : step.Sends ok) {I : World ρ → Prop} (hI : ∀ w c, ok c → I w → I (env.handler w c).2) :
    step.KeepsThroughout env.handler I :=
  ⟨fun _ _ hw => h.action.throughout hI hw,
    fun undo hundo _ _ hw => (h.undo undo hundo).throughout hI hw⟩

section NotStore

variable {α : Type} {x : OpsM α} {clusterName : String}

theorem notStore_of {ok : OpsCmd → Prop} (hok : ∀ c, ¬ok (.store c)) (hx : Session.Sends ok x) :
    Session.Sends OpsCmd.NotStore x := by
  refine hx.mono ?_
  rintro (c | c | c | c | l) hc
  case store => exact hok c hc
  all_goals trivial

/-- A step that cannot be undone. -/
theorem Step.notStore_of {step : Step OpsCmd OpsCmd.Reply Manager} (hundo : step.undo = none)
    {ok : OpsCmd → Prop} (hok : ∀ c, ¬ok (.store c)) (h : Session.Sends ok step.action) :
    step.Sends OpsCmd.NotStore :=
  ⟨ClusterManager.notStore_of hok h, fun undo hu => by rw [hundo] at hu; cases hu⟩

theorem Create.validate_toPodman {cfg : RuntimeConfig} {shardCount nodesPerShard : ℤ} :
    Session.Sends OpsCmd.ToPodman
      (Create.validate cfg shardCount nodesPerShard clusterName).action := by
  simp only [Create.validate, Session.fail_bind]
  refine Session.Sends.ite (Session.Sends.fail _) (Session.Sends.ite (Session.Sends.fail _)
    (Session.Sends.ite (Session.Sends.fail _) ?_))
  refine (sends_listPods _ _).bind fun r => (Session.Sends.orFail _ _).bind fun _ =>
    Session.Sends.get.bind fun c => ?_
  exact Session.Sends.ite (Session.Sends.fail _) (Session.Sends.pure _)

/-- Creating containers, which are deleted again. -/
theorem notStore_createContainers {step : Step OpsCmd OpsCmd.Reply Manager} {cfg : RuntimeConfig}
    {sum : ℤ} (haction : step.action = createPodsForCluster cfg clusterName sum)
    (hundo : step.undo = some (deletePods clusterName)) : step.Sends OpsCmd.NotStore := by
  refine ⟨?_, fun undo hu => ?_⟩
  · rw [haction]
    exact notStore_of (fun _ => id) (sends_createPodsForCluster _ _ _)
  · rw [hundo] at hu
    obtain rfl := Option.some_inj.mp hu
    exact notStore_of (fun _ => id) (sends_deletePods _)

end NotStore

/-- The step of an operation that writes to the store or deletes from it. -/
def Op.IsPersistDb (q : Option (Persister OpsCmd OpsCmd.Reply))
    (step : Step OpsCmd OpsCmd.Reply Manager) : Op → Prop
  | .create cfg shardCount nodesPerShard clusterName =>
    step = Create.persistDb cfg shardCount nodesPerShard clusterName q
  | .scale _ additionalShards clusterName =>
    ∃ cfg nodesPerShard, step = Scale.persistDb cfg additionalShards nodesPerShard clusterName q
  | .delete cfg clusterName => step = Delete.persistDb cfg clusterName q

/-- **Of the steps of an operation one talks to the store.** -/
theorem Op.HasStep.cases {op : Op} {step : Step OpsCmd OpsCmd.Reply Manager} (h : op.HasStep step) :
    step.Sends OpsCmd.NotStore ∨
      ∃ q, (q = none ∨ q = some storePersister) ∧ op.IsPersistDb q step := by
  obtain ⟨q, hq, hstep⟩ := h
  cases op with
  | create cfg shardCount nodesPerShard clusterName =>
    simp only [Create.steps, List.mem_cons, List.not_mem_nil, or_false] at hstep
    rcases hstep with rfl | rfl | rfl | rfl | rfl | rfl | rfl | rfl | rfl
    · exact Or.inl (Step.notStore_of rfl (fun _ => id) Create.validate_toPodman)
    · exact Or.inl (notStore_createContainers rfl rfl)
    · exact Or.inl (Step.notStore_of rfl (fun _ => id)
        (sends_onClusterNode clusterName _ fun node => meetNodes node.clientConnAddr clusterName))
    · exact Or.inl (Step.notStore_of rfl (fun _ => id)
        (sends_onClusterNode clusterName _ fun node => updateAfterMeet node clusterName))
    · exact Or.inl (Step.notStore_of rfl (fun _ => id) (sends_manager _))
    · exact Or.inl (Step.notStore_of rfl (fun _ => id) (sends_manager _))
    · refine Or.inl ⟨notStore_of (fun _ => id) Create.persistConfig_sends, fun undo hundo => ?_⟩
      obtain rfl := Option.some_inj.mp hundo
      exact notStore_of (fun _ => id) ((sends_file _).bind fun _ => Session.Sends.pure _)
    · exact Or.inr ⟨q, hq, rfl⟩
    · exact Or.inl (Step.notStore_of rfl (fun _ => id) (sends_manager _))
  | scale cfg₀ additionalShards clusterName =>
    obtain ⟨cfg, nodesPerShard, hstep⟩ := hstep
    simp only [Scale.steps, List.mem_cons, List.not_mem_nil, or_false] at hstep
    rcases hstep with rfl | rfl | rfl | rfl | rfl | rfl | rfl | rfl
    · exact Or.inl (Step.notStore_of rfl (fun _ => id) Scale.validate_sends)
    · exact Or.inl (Step.notStore_of rfl (fun _ => id) Scale.syncState_sends)
    · exact Or.inl (notStore_createContainers rfl rfl)
    · exact Or.inl (Step.notStore_of rfl (fun _ => id) Scale.meetNodesStep_sends)
    · exact Or.inl (Step.notStore_of rfl (fun _ => id) Scale.updateTopology_sends)
    · exact Or.inl (Step.notStore_of rfl (fun _ => id) Scale.setRoles_sends)
    · exact Or.inl (Step.notStore_of rfl (fun _ => id) (sends_manager _))
    · exact Or.inr ⟨q, hq, cfg, nodesPerShard, rfl⟩
  | delete cfg clusterName =>
    simp only [Delete.steps, List.mem_cons, List.not_mem_nil, or_false] at hstep
    rcases hstep with rfl | rfl | rfl | rfl
    · exact Or.inl (Step.notStore_of rfl (fun _ => id) Delete.deleteConfig_sends)
    · exact Or.inl (Step.notStore_of rfl (fun _ => id) (sends_deletePods _))
    · exact Or.inr ⟨q, hq, rfl⟩
    · exact Or.inl (Step.notStore_of rfl (fun _ => id) Delete.cleanupState_sends)

/-! ### The statements of an operation -/

/-- The names of the pipelines of a cluster. -/
def IsPipelineOf (clusterName p : String) : Prop :=
  p = Create.pipelineName clusterName ∨ p = Scale.pipelineName clusterName ∨
    p = Delete.pipelineName clusterName

/-- A statement about a cluster, or about the records of its pipelines. -/
def StoreCmd.About (clusterName : String) : StoreCmd → Prop
  | .openStore _ | .loadPipelineSteps _ => True
  | .upsertCluster c => c.name = clusterName
  | .deleteContainers name | .deleteClusterRow name => name = clusterName
  | .upsertContainer c => c.clusterName = clusterName
  | .logOperation r => r.clusterName = clusterName
  | .savePipelineStep p _ | .startPipelineStep p _ | .failPipelineStep p _ | .deletePipeline p =>
    IsPipelineOf clusterName p

def OpsCmd.About (clusterName : String) : OpsCmd → Prop
  | .store c => c.About clusterName
  | .podman _ | .redis _ | .file _ | .mapOrder _ => True

section About

variable {ok : OpsCmd → Prop} {clusterName : String}

theorem sends_of {c : StoreCmd} (hc : ok (.store c)) : Session.Sends ok (OpsM.store c) :=
  Session.Sends.lift (Program.Sends.send hc)

theorem sends_about {c : StoreCmd} (hc : c.About clusterName) :
    Session.Sends (OpsCmd.About clusterName) (OpsM.store c) := sends_of hc

theorem upsertContainers_sends (hok : ∀ r : ContainerRecord, r.clusterName = clusterName →
    ok (.store (.upsertContainer r))) : Session.Sends ok (upsertContainers clusterName) :=
  Session.Sends.get.bind fun _ => Session.Sends.forM fun _ _ =>
    (sends_of (hok _ rfl)).bind fun _ => Session.Sends.pure _

theorem finishPipeline_sends {r : OperationRecord} {p : String}
    (hlog : ok (.store (.logOperation r))) (hdelete : ok (.store (.deletePipeline p)))
    {q : Option (Persister OpsCmd OpsCmd.Reply)} (hq : q = none ∨ q = some storePersister) :
    Session.Sends ok (finishPipeline r p q) := by
  refine (sends_of hlog).bind fun _ => ?_
  rcases hq with rfl | rfl
  · exact Session.Sends.pure _
  · exact (sends_of hdelete).bind fun _ => Session.Sends.pure _

theorem deleteClusterRows_about :
    Session.Sends (OpsCmd.About clusterName) (deleteClusterRows clusterName) := by
  refine (sends_about (c := .deleteContainers clusterName) rfl).bind fun r => ?_
  split
  · exact Session.Sends.pure _
  · exact (sends_about (c := .deleteClusterRow clusterName) rfl).bind fun _ => Session.Sends.pure _

theorem Create.persistDb_about {cfg : RuntimeConfig} {shardCount nodesPerShard : ℤ}
    {q : Option (Persister OpsCmd OpsCmd.Reply)} (hq : q = none ∨ q = some storePersister) :
    (Create.persistDb cfg shardCount nodesPerShard clusterName q).Sends
      (OpsCmd.About clusterName) := by
  constructor
  · simp only [Create.persistDb]
    refine Session.Sends.ite (Session.Sends.pure _) ?_
    refine (sends_about (c := .openStore _) trivial).bind fun r =>
      (Session.Sends.orFail _ _).bind fun _ => (sends_about (c := .upsertCluster _) rfl).bind
        fun _ => Session.Sends.bind (upsertContainers_sends fun _ h => h) fun _ => ?_
    refine finishPipeline_sends ?_ ?_ hq
    exacts [rfl, Or.inl rfl]
  · rintro undo hundo
    obtain rfl := Option.some_inj.mp hundo
    refine Session.Sends.ite (Session.Sends.pure _) ?_
    exact (sends_about (c := .openStore _) trivial).bind fun r =>
      (Session.Sends.orFail _ _).bind fun _ => deleteClusterRows_about

theorem Scale.persistDb_about {cfg : RuntimeConfig} {additionalShards nodesPerShard : ℤ}
    {q : Option (Persister OpsCmd OpsCmd.Reply)} (hq : q = none ∨ q = some storePersister) :
    (Scale.persistDb cfg additionalShards nodesPerShard clusterName q).Sends
      (OpsCmd.About clusterName) := by
  refine ⟨?_, fun undo hundo => by cases hundo⟩
  simp only [Scale.persistDb]
  refine Session.Sends.ite (Session.Sends.pure _) ?_
  refine (sends_about (c := .openStore _) trivial).bind fun r =>
    (Session.Sends.orFail _ _).bind fun _ => Session.Sends.get.bind fun c =>
      (sends_about (c := .upsertCluster _) rfl).bind fun _ =>
        Session.Sends.bind (upsertContainers_sends fun _ h => h) fun _ => ?_
  refine finishPipeline_sends ?_ ?_ hq
  exacts [rfl, Or.inr (Or.inl rfl)]

theorem Delete.persistDb_about {cfg : RuntimeConfig}
    {q : Option (Persister OpsCmd OpsCmd.Reply)} (hq : q = none ∨ q = some storePersister) :
    (Delete.persistDb cfg clusterName q).Sends (OpsCmd.About clusterName) := by
  refine ⟨?_, fun undo hundo => by cases hundo⟩
  simp only [Delete.persistDb]
  refine Session.Sends.ite (Session.Sends.pure _) ?_
  refine (sends_about (c := .openStore _) trivial).bind fun r =>
    (Session.Sends.orFail _ _).bind fun _ => deleteClusterRows_about.bind fun _ => ?_
  refine finishPipeline_sends ?_ ?_ hq
  exacts [rfl, Or.inr (Or.inr rfl)]

/-- **All that an operation says to the store is about its cluster.** -/
theorem Op.HasStep.about {op : Op} {step : Step OpsCmd OpsCmd.Reply Manager}
    (h : op.HasStep step) : step.Sends (OpsCmd.About op.clusterName) := by
  rcases h.cases with hstep | ⟨q, hq, hstep⟩
  · have habout : ∀ c, OpsCmd.NotStore c → OpsCmd.About op.clusterName c := by
      rintro (c | c | c | c | l) hc
      case store => exact hc.elim
      all_goals trivial
    exact ⟨hstep.action.mono habout, fun undo hundo => (hstep.undo undo hundo).mono habout⟩
  · cases op with
    | create cfg shardCount nodesPerShard clusterName =>
      rw [show step = _ from hstep]
      exact Create.persistDb_about hq
    | scale cfg₀ additionalShards clusterName =>
      obtain ⟨cfg, nodesPerShard, rfl⟩ := hstep
      exact Scale.persistDb_about hq
    | delete cfg clusterName =>
      rw [show step = _ from hstep]
      exact Delete.persistDb_about hq

end About

/-! ### Clusters are apart in the store -/

/-- Two clusters share no pipeline. -/
theorem IsPipelineOf.unique {A B p : String} (hA : IsPipelineOf A p) (hB : IsPipelineOf B p) :
    A = B := by
  rcases hA with rfl | rfl | rfl <;> rcases hB with h | h | h
  case inl.inl | inr.inl.inr.inl | inr.inr.inr.inr => exact (String.append_right_inj _).mp h
  -- the names of the three pipelines begin with different letters
  all_goals
    have hhead := congrArg (fun s : String => s.toList.head?) h
    simp [Create.pipelineName, Scale.pipelineName, Delete.pipelineName,
      String.toList_append] at hhead

/-- **What a request does to the store**: nothing, or it is a statement that is executed. -/
theorem store_handler_cases (env : OpsEnv ρ) (w : World ρ) (c : OpsCmd) :
    (env.handler w c).2.store = w.store ∨
      ∃ c', c = .store c' ∧ (env.handler w c).2.store = w.store.effect c' := by
  rcases c with c | c | c | c | l
  case store =>
    simp only [OpsEnv.handler]
    split
    · exact Or.inr ⟨c, rfl, rfl⟩
    · exact Or.inl rfl
  case file =>
    simp only [OpsEnv.handler]
    split <;> exact Or.inl rfl
  all_goals exact Or.inl rfl

/-- The store is the same for a cluster: its row, the rows of its containers, what is logged of it
and the records of its pipelines. -/
structure Store.SameFor (clusterName : String) (s s' : Store) : Prop where
  cluster : s'.getCluster clusterName = s.getCluster clusterName
  containers : s'.listContainersByCluster clusterName = s.listContainersByCluster clusterName
  log : s'.operations.filter (·.clusterName = clusterName) =
    s.operations.filter (·.clusterName = clusterName)
  records : ∀ p, IsPipelineOf clusterName p →
    s'.pipelineRuns.rows.filter (·.pipelineName = p) =
      s.pipelineRuns.rows.filter (·.pipelineName = p)

namespace Store.SameFor

variable {A B : String} {s s' t : Store}

theorem refl (B : String) (s : Store) : SameFor B s s := ⟨rfl, rfl, rfl, fun _ _ => rfl⟩

theorem trans (h : SameFor B s s') (h' : SameFor B s' t) : SameFor B s t :=
  ⟨h'.cluster.trans h.cluster, h'.containers.trans h.containers, h'.log.trans h.log,
    fun p hp => (h'.records p hp).trans (h.records p hp)⟩

/-- The records of another pipeline. -/
theorem of_records {t : Table PipelineRun.key} {p : String} (hp : IsPipelineOf A p) (hne : A ≠ B)
    (h : ∀ p', p' ≠ p → t.rows.filter (·.pipelineName = p') =
      s.pipelineRuns.rows.filter (·.pipelineName = p')) :
    SameFor B s { s with pipelineRuns := t } :=
  ⟨rfl, rfl, rfl, fun p' hp' => h p' fun heq => hne (hp.unique (heq ▸ hp'))⟩

theorem filter_upsert_records {r : PipelineRun} {update : PipelineRun → PipelineRun}
    (hkey : ∀ r, (update r).key = r.key) {p' : String} (hp' : p' ≠ r.pipelineName) :
    (s.pipelineRuns.upsert r update hkey).rows.filter (·.pipelineName = p') =
      s.pipelineRuns.rows.filter (·.pipelineName = p') :=
  Table.filter_upsert (p := fun k => k.1 = p') hkey fun h => hp' (of_decide_eq_true h).symm

/-- **A statement about one cluster changes nothing for another.** -/
theorem of_about {c : StoreCmd} (hc : c.About A) (hne : A ≠ B) : SameFor B s (s.effect c) := by
  rcases c with _ | c | name | name | c | r | ⟨p, n⟩ | ⟨p, n⟩ | ⟨p, n⟩ | _ | p
  case openStore | loadPipelineSteps => exact refl B s
  case upsertCluster =>
    obtain rfl : c.name = A := hc
    refine ⟨?_, rfl, rfl, fun _ _ => rfl⟩
    rw [effect, getCluster_upsertCluster, if_neg hne.symm]
  case deleteContainers =>
    obtain rfl : name = A := hc
    exact ⟨rfl, listContainersByCluster_deleteContainers_of_ne hne.symm, rfl, fun _ _ => rfl⟩
  case deleteClusterRow =>
    obtain rfl : name = A := hc
    exact ⟨getCluster_deleteClusterRow_of_ne hne.symm, rfl, rfl, fun _ _ => rfl⟩
  case upsertContainer =>
    obtain rfl : c.clusterName = A := hc
    exact ⟨rfl, listContainersByCluster_upsertContainer hne, rfl, fun _ _ => rfl⟩
  case logOperation =>
    obtain rfl : r.clusterName = A := hc
    refine ⟨rfl, rfl, ?_, fun _ _ => rfl⟩
    show (s.operations ++ [r]).filter _ = _
    rw [List.filter_append, List.filter_singleton]
    simp [hne]
  case savePipelineStep | startPipelineStep | failPipelineStep =>
    exact of_records hc hne fun p' hp' => filter_upsert_records _ hp'
  case deletePipeline =>
    refine of_records hc hne fun p' hp' => ?_
    rw [Table.delete, List.filter_filter]
    refine List.filter_congr fun r _ => ?_
    by_cases hr : r.pipelineName = p'
    · simp [hr, hp']
    · simp [hr]

/-- So does a request about it, whether it fails or not. -/
theorem handler {c : OpsCmd} (hc : c.About A) (hne : A ≠ B) (w : World ρ) :
    SameFor B w.store (env.handler w c).2.store := by
  rcases store_handler_cases env w c with heq | ⟨c', rfl, heq⟩
  · rw [heq]
    exact refl B _
  · rw [heq]
    exact of_about hc hne

end Store.SameFor

theorem StoreCmd.OfPipeline.about {op : Op} {c : StoreCmd} (hc : c.OfPipeline op.pipelineName) :
    c.About op.clusterName := by
  have hp : IsPipelineOf op.clusterName op.pipelineName := by
    cases op with
    | create => exact Or.inl rfl
    | scale => exact Or.inr (Or.inl rfl)
    | delete => exact Or.inr (Or.inr rfl)
  rcases c with _ | _ | _ | _ | _ | _ | ⟨p, n⟩ | ⟨p, n⟩ | ⟨p, n⟩ | _ | p
  case openStore | loadPipelineSteps => trivial
  case savePipelineStep | startPipelineStep | failPipelineStep | deletePipeline =>
    exact (show _ = op.pipelineName from hc) ▸ hp
  all_goals exact hc.elim

/-- **Operations on other clusters leave a cluster alone in the store**, whenever they are cut and
whatever fails. -/
theorem others_untouched (env : OpsEnv ρ) (clusterName : String) (history : List (Op × ℕ))
    (hothers : ∀ x ∈ history, x.1.clusterName ≠ clusterName) (w : World ρ) :
    Store.SameFor clusterName w.store (env.afterCuts history w).store := by
  refine afterCuts_inv (I := fun w' => Store.SameFor clusterName w.store w'.store)
    (fun x hx w' hw' => ?_) (Store.SameFor.refl _ _)
  have hkeep : ∀ w₁ c, OpsCmd.About x.1.clusterName c → Store.SameFor clusterName w.store w₁.store →
      Store.SameFor clusterName w.store (env.handler w₁ c).2.store :=
    fun w₁ c hc hw₁ => hw₁.trans (Store.SameFor.handler hc (hothers x hx) w₁)
  exact x.1.throughout (fun w₁ c hc => hkeep w₁ (.store c) hc.about)
    (fun w₁ path => hkeep w₁ _ trivial) (fun step hstep => hstep.about.keepsThroughout hkeep) hw'

/-- A cluster is created beside another one, and deleted, and both times the process dies. -/
theorem others_untouched_create_delete :
    Store.SameFor "a" (worldAfter [createA]).store (steadyEnv.afterCuts
      [(.create plainConfig 1 2 "b", 30), (.delete plainConfig "b", 9)]
      (worldAfter [createA])).store :=
  others_untouched steadyEnv "a" [(.create plainConfig 1 2 "b", 30), (.delete plainConfig "b", 9)]
    (by decide) (worldAfter [createA])

/-! ### No row of a container without one of its cluster -/

namespace Store

/-- Each container that has a row is of a cluster that has one. -/
def RowsBacked (s : Store) : Prop := ∀ r ∈ s.containers.rows, r.clusterName ∈ s.clusters.keys

/-- Nothing refers to the row of a cluster. -/
def NoRows (s : Store) (clusterName : String) : Prop :=
  ∀ r ∈ s.containers.rows, r.clusterName ≠ clusterName

variable {s : Store}

theorem mem_keys_upsertCluster {c : ClusterRecord} {name : String} :
    name ∈ (s.upsertCluster c).clusters.keys ↔ name ∈ s.clusters.keys ∨ name = c.name := by
  refine Table.mem_keys_upsert ?_
  exact fun _ => rfl

theorem RowsBacked.upsertContainer (h : s.RowsBacked) {c : ContainerRecord}
    (hc : c.clusterName ∈ s.clusters.keys) : (s.upsertContainer c).RowsBacked := by
  intro r hr
  obtain ⟨hold, -⟩ | ⟨old, hold, -, rfl⟩ | ⟨-, rfl⟩ := (Table.mem_upsert fun old =>
    (rfl : ContainerRecord.key { c with clusterName := old.clusterName, name := old.name } =
      old.key)).mp hr
  · exact h r hold
  · exact h old hold
  · exact hc

theorem RowsBacked.deleteClusterRow (h : s.RowsBacked) {name : String} (hname : s.NoRows name) :
    (s.deleteClusterRow name).RowsBacked := by
  intro r hr
  obtain ⟨c, hc, hkey⟩ := List.mem_map.mp (h r hr)
  refine List.mem_map.mpr ⟨c, Table.mem_delete.mpr ⟨hc, fun heq => hname r hr ?_⟩, hkey⟩
  rw [← hkey]
  exact of_decide_eq_true heq

end Store

/-- A statement that neither writes the row of a container nor deletes that of a cluster. -/
def StoreCmd.Plain : StoreCmd → Prop
  | .upsertContainer _ | .deleteClusterRow _ => False
  | _ => True

def OpsCmd.Plain : OpsCmd → Prop
  | .store c => c.Plain
  | .podman _ | .redis _ | .file _ | .mapOrder _ => True

/-- Such a statement cannot take a row away from under another. -/
theorem Store.RowsBacked.effect {s : Store} (h : s.RowsBacked) {c : StoreCmd} (hc : c.Plain) :
    (s.effect c).RowsBacked := by
  rcases c with _ | c | name | name | c | _ | _ | _ | _ | _ | _
  case upsertCluster =>
    exact fun r hr => mem_keys_upsertCluster.mpr (Or.inl (h r hr))
  case deleteContainers => exact fun r hr => h r (Table.mem_delete.mp hr).1
  case deleteClusterRow => exact hc.elim
  case upsertContainer => exact hc.elim
  all_goals exact h

section Backed

variable {w : World ρ} {m : Manager} {clusterName : String}

end Backed

end ClusterManager
