import ClusterManager.Ops.Create
import ClusterManager.Ops.Delete
import ClusterManager.Ops.Scale

/-!
# Which part of the world a step is about

Most steps talk to one part of the world only. `OpsCmd.ToRedis`, `OpsCmd.ToStore` and so
on say which requests go there, `exec_of_toRedis` and so on what follows: the other parts
are as before.
-/

namespace ClusterManager

namespace OpsCmd

/-- A request to Redis, or none at all. -/
def ToRedis : OpsCmd → Prop
  | .redis _ | .mapOrder _ => True
  | .podman _ | .store _ | .file _ => False

instance : DecidablePred ToRedis
  | .redis _ | .mapOrder _ => isTrue trivial
  | .podman _ | .store _ | .file _ => isFalse id

def ToPodman : OpsCmd → Prop
  | .podman _ => True
  | .redis _ | .mapOrder _ | .store _ | .file _ => False

def ToStore : OpsCmd → Prop
  | .store _ => True
  | .podman _ | .redis _ | .mapOrder _ | .file _ => False

def ToFile : OpsCmd → Prop
  | .file _ => True
  | .podman _ | .redis _ | .mapOrder _ | .store _ => False

end OpsCmd

section Frames

variable {ρ α : Type} {env : OpsEnv ρ} {m : Manager} {w : World ρ} {x : OpsM α}

theorem exec_of_toRedis (hx : Session.Sends OpsCmd.ToRedis x) :
    (Session.exec env.handler x m w).2 =
      { w with redis := (Session.exec env.handler x m w).2.redis } := by
  refine hx.exec_inv (J := fun w' : World ρ => w' = { w with redis := w'.redis }) ?_ rfl
  rintro w' (c | c | c | c | l) hc hw'
  · exact hc.elim
  · rw [hw']
    rfl
  · exact hc.elim
  · exact hc.elim
  · exact hw'

theorem exec_of_toPodman (hx : Session.Sends OpsCmd.ToPodman x) :
    (Session.exec env.handler x m w).2 =
      { w with podman := (Session.exec env.handler x m w).2.podman } := by
  refine hx.exec_inv (J := fun w' : World ρ => w' = { w with podman := w'.podman }) ?_ rfl
  rintro w' (c | c | c | c | l) hc hw'
  · rw [hw']
    rfl
  · exact hc.elim
  · exact hc.elim
  · exact hc.elim
  · exact hc.elim

theorem exec_of_toStore (hx : Session.Sends OpsCmd.ToStore x) :
    (Session.exec env.handler x m w).2 =
      { w with
        store := (Session.exec env.handler x m w).2.store
        clock := (Session.exec env.handler x m w).2.clock } := by
  refine hx.exec_inv
    (J := fun w' : World ρ => w' = { w with store := w'.store, clock := w'.clock }) ?_ rfl
  rintro w' (c | c | c | c | l) hc hw'
  · exact hc.elim
  · exact hc.elim
  · rw [hw', handler_store_eq]
  · exact hc.elim
  · exact hc.elim

theorem exec_of_toFile (hx : Session.Sends OpsCmd.ToFile x) :
    (Session.exec env.handler x m w).2 =
      { w with
        files := (Session.exec env.handler x m w).2.files
        clock := (Session.exec env.handler x m w).2.clock } := by
  refine hx.exec_inv
    (J := fun w' : World ρ => w' = { w with files := w'.files, clock := w'.clock }) ?_ rfl
  rintro w' (c | c | c | c | l) hc hw'
  · exact hc.elim
  · exact hc.elim
  · exact hc.elim
  · rw [hw']
    simp only [OpsEnv.handler]
    split <;> rfl
  · exact hc.elim

/-! ### The requests of the building blocks -/

theorem sends_podman (p : PodmanProgram α) : Session.Sends OpsCmd.ToPodman (OpsM.podman p) :=
  Session.Sends.lift (p.sends_true.embed fun _ _ => trivial)

theorem sends_manager (y : ManagerM α) : Session.Sends OpsCmd.ToRedis (OpsM.manager y) :=
  (Session.Sends.embed y).mono fun _ h => by
    obtain ⟨c, rfl⟩ := h
    trivial

theorem sends_store (c : StoreCmd) : Session.Sends OpsCmd.ToStore (OpsM.store c) :=
  Session.Sends.lift ⟨trivial, fun _ => trivial⟩

theorem sends_file (c : FileCmd) : Session.Sends OpsCmd.ToFile (OpsM.file c) :=
  Session.Sends.lift ⟨trivial, fun _ => trivial⟩

theorem sends_mapOrder (l : List (String × List String)) :
    Session.Sends OpsCmd.ToRedis (OpsM.mapOrder l) :=
  Session.Sends.lift ⟨trivial, fun _ => trivial⟩

theorem sends_upsertContainers (clusterName : String) :
    Session.Sends OpsCmd.ToStore (upsertContainers clusterName) :=
  Session.Sends.get.bind fun _ => Session.Sends.forM fun _ _ =>
    (sends_store _).bind fun _ => Session.Sends.pure _

theorem sends_deleteClusterRows (clusterName : String) :
    Session.Sends OpsCmd.ToStore (deleteClusterRows clusterName) := by
  refine (sends_store (.deleteContainers clusterName)).bind fun r => ?_
  split
  · exact Session.Sends.pure _
  · exact (sends_store _).bind fun _ => Session.Sends.pure _

theorem sends_finishPipeline (r : OperationRecord) (pipelineName : String)
    {q : Option (Persister OpsCmd OpsCmd.Reply)} (hq : q = none ∨ q = some storePersister) :
    Session.Sends OpsCmd.ToStore (finishPipeline r pipelineName q) := by
  refine (sends_store (.logOperation r)).bind fun _ => ?_
  rcases hq with rfl | rfl
  · exact Session.Sends.pure _
  · exact (sends_store (.deletePipeline pipelineName)).bind fun _ => Session.Sends.pure _

theorem sends_listPods (cfg : RuntimeConfig) (clusterName : String) :
    Session.Sends OpsCmd.ToPodman (listPods cfg clusterName) :=
  Session.Sends.get.bind fun _ => (sends_podman _).bind fun _ =>
    (Session.Sends.modify _).bind fun _ => Session.Sends.pure _

theorem sends_createPodsForCluster (cfg : RuntimeConfig) (clusterName : String) (sum : ℤ) :
    Session.Sends OpsCmd.ToPodman (createPodsForCluster cfg clusterName sum) :=
  Session.Sends.get.bind fun _ => (sends_podman _).bind fun _ =>
    (Session.Sends.modify _).bind fun _ => (Session.Sends.orFail _ _).bind fun _ =>
      Session.Sends.pure _

theorem sends_deletePods (clusterName : String) :
    Session.Sends OpsCmd.ToPodman (deletePods clusterName) :=
  (sends_podman _).bind fun _ => (Session.Sends.orFail _ _).bind fun _ => Session.Sends.pure _

/-- An operation of the cluster manager on the first node of a cluster. -/
theorem sends_onClusterNode (clusterName msg : String) (f : RuntimeNode → ManagerM PUnit) :
    Session.Sends OpsCmd.ToRedis (do
      let c ← get
      match findClusterNode c clusterName with
      | none => Session.fail msg
      | some node => OpsM.manager (f node)) := by
  refine Session.Sends.get.bind fun c => ?_
  split
  · exact Session.Sends.fail _
  · exact sends_manager _

end Frames

/-! ### The requests of the steps -/

namespace Scale

variable {cfg : RuntimeConfig} {additionalShards nodesPerShard : ℤ} {clusterName : String}

theorem validate_sends :
    Session.Sends OpsCmd.ToPodman (validate cfg additionalShards clusterName).action := by
  simp only [validate, Session.fail_bind]
  split
  · exact Session.Sends.fail _
  refine (sends_listPods _ _).bind fun r => (Session.Sends.orFail _ _).bind fun _ =>
    Session.Sends.get.bind fun c => ?_
  split
  · exact Session.Sends.fail _
  · exact Session.Sends.pure _

theorem syncState_sends : Session.Sends OpsCmd.ToRedis (syncState clusterName).action := by
  refine Session.Sends.get.bind fun c => ?_
  split
  · exact Session.Sends.fail _
  · exact ((sends_manager _).wrap _).bind fun _ => ((sends_manager _).wrap _).bind fun _ =>
      (sends_manager _).wrap _

theorem meetNodesStep_sends : Session.Sends OpsCmd.ToRedis (meetNodesStep clusterName).action :=
  sends_onClusterNode clusterName _ fun node => meetNodes node.clientConnAddr clusterName

theorem updateTopology_sends :
    Session.Sends OpsCmd.ToRedis (updateTopology clusterName).action :=
  sends_onClusterNode clusterName _ fun node => updateAfterMeet node clusterName

theorem setRoles_sends :
    Session.Sends OpsCmd.ToRedis (setRoles additionalShards nodesPerShard clusterName).action := by
  refine (sends_manager _).bind fun _ => Session.Sends.get.bind fun c => ?_
  simp only [Session.throw_bind]
  split
  · exact Session.Sends.throw _
  exact (sends_manager _).bind fun r => (sends_mapOrder _).bind fun order =>
    Session.Sends.forM fun _ _ => Session.Sends.forM fun _ _ => sends_manager _

theorem persistDb_sends {q : Option (Persister OpsCmd OpsCmd.Reply)}
    (hq : q = none ∨ q = some storePersister) :
    Session.Sends OpsCmd.ToStore
      (persistDb cfg additionalShards nodesPerShard clusterName q).action := by
  simp only [persistDb]
  split
  · exact Session.Sends.pure _
  exact (sends_store _).bind fun r => (Session.Sends.orFail _ _).bind fun _ =>
    Session.Sends.get.bind fun c => (sends_store _).bind fun _ =>
      (sends_upsertContainers _).bind fun _ => sends_finishPipeline _ _ hq

end Scale

namespace Delete

variable {cfg : RuntimeConfig} {clusterName : String}

theorem deleteConfig_sends :
    Session.Sends OpsCmd.ToFile (deleteConfig cfg clusterName).action := by
  refine (sends_file (.fileExists _)).bind fun found => ?_
  dsimp only
  split
  · exact (sends_file (.remove _)).bind fun r => (Session.Sends.orFail _ _).bind fun _ =>
      Session.Sends.pure _
  · exact Session.Sends.pure _

theorem cleanupState_sends :
    Session.Sends OpsCmd.ToFile (cleanupState cfg clusterName).action := by
  refine (sends_file (.readDir _)).bind fun r => ?_
  split
  · exact Session.Sends.pure _
  · exact (sends_file (.remove _)).bind fun r => (Session.Sends.orFail _ _).bind fun _ =>
      Session.Sends.pure _
  · exact Session.Sends.pure _

end Delete

end ClusterManager
