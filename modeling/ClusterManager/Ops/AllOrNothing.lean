import ClusterManager.Backend.Leftovers
import ClusterManager.Ops.Rollback
import ClusterManager.Ops.Steps

/-!
# What a failed creation leaves

`CreateClusterAction` is meant to leave nothing behind when it fails: two of its steps have
an undo that matters here, `create-containers`, which deletes the containers that are
listed for the cluster, and `persist-config`, which removes the settings file. But the
rollback undoes the steps *before* the one that has failed, never that one itself. So what
a failed run leaves is decided by where it fails:

* in `validate`, nothing has been created;
* in `create-containers`, what its tries have started stays, apart from what `CreatePods`
  has cleaned up by itself (`createPods_leavesNone_iff`);
* in a later step the containers are deleted (`rollback_containers`);
* in `persist-config` the settings file may stay, when it cannot be written to its end;
* after `persist-config` the settings file is removed.

`create_allOrNothing_iff` puts these together. A container of the cluster is one that bears
its name; that the pattern of the rollback finds it is due to podman, which starts no
container under a name with other characters (`PodmanEnv.ChecksNames`).
-/

namespace ClusterManager

/-- What podman does with names: a pattern of name characters means what `dotMatch` says, and
no container is started under a name that has other characters. -/
structure PodmanEnv.ChecksNames (env : PodmanEnv) : Prop where
  regex : ∀ pattern name, (∀ c ∈ pattern.toList, nameChar c) →
    env.regex pattern name = dotMatch pattern name
  run : ∀ n spec, (∃ c ∈ spec.name.toList, ¬ nameChar c) → ¬ env.TakesEffect n (.run spec)

/-- The settings that are saved under a path. -/
def Files.settings (f : Files) (path : String) : Option RedisClusterConfig :=
  (f.find path).bind Prod.snd

/-- A request to podman or to the file system does what it is sent for. A file that is not
there need not be removed. -/
def OpsEnv.Succeeds {ρ : Type} (env : OpsEnv ρ) (w : World ρ) : OpsCmd → Prop
  | .podman c => env.podman.error w.podman.clock c = none
  | .file c => env.fileError w.clock c = none ∧ ∀ path, c = .remove path → w.files.entries path = []
  | .redis _ | .store _ | .mapOrder _ => True

namespace Create

variable {ρ : Type} {env : OpsEnv ρ} {cfg : RuntimeConfig} {shardCount nodesPerShard : ℤ}
  {clusterName : String} {w : World ρ}

/-- If the creation returns an error, there is no container of the cluster, and the
settings file is gone, or it is the one from before. -/
def AllOrNothing (env : OpsEnv ρ) (cfg : RuntimeConfig) (shardCount nodesPerShard : ℤ)
    (clusterName : String) (w : World ρ) : Prop :=
  ∀ err w', env.invoke (createClusterAction cfg shardCount nodesPerShard clusterName) w =
      (.error (.error err), w') →
    (∀ c ∈ w'.podman.containers, ¬ c.OfCluster clusterName) ∧
      (w'.files.settings (cfg.clusterRuntimeConfigPath clusterName) = none ∨
        w'.files.settings (cfg.clusterRuntimeConfigPath clusterName) =
          w.files.settings (cfg.clusterRuntimeConfigPath clusterName))

/-- The removals that the rollback sends succeed. -/
def RollbackSucceeds (env : OpsEnv ρ) (cfg : RuntimeConfig) (shardCount nodesPerShard : ℤ)
    (clusterName : String) (w : World ρ) : Prop :=
  ∀ p m₀ w₀ i completed' m' w' step,
    Session.exec env.handler (prepare cfg shardCount nodesPerShard clusterName)
      { nodesPerShard := 0 } w = ((.ok p, m₀), w₀) →
    p.FailsAt env.handler m₀ w₀ i completed' m' w' → p.steps[i]? = some step →
    ∀ x ∈ Session.sent env.handler (p.rollback (p.steps.take i).reverse completed') m'
      (p.failed env.handler step w'), env.Succeeds x.2 x.1

/-- The run comes to the step at `i` and tries it, first with this memory and in this
world. -/
def Tries (env : OpsEnv ρ) (cfg : RuntimeConfig) (shardCount nodesPerShard : ℤ)
    (clusterName : String) (w : World ρ) (i : ℕ) (m₁ : Manager) (w₁ : World ρ) : Prop :=
  ∃ p m₀ w₀ completed w' step,
    Session.exec env.handler (prepare cfg shardCount nodesPerShard clusterName)
      { nodesPerShard := 0 } w = ((.ok p, m₀), w₀) ∧
    p.steps[i]? = some step ∧
    p.Completes env.handler (p.steps.take i) p.completed m₀ w₀ completed m₁ w' ∧
    ¬ completed step.name ∧ w₁ = p.started env.handler step w'

/-- Every try of `create-containers` fails. -/
def ContainersFail (env : OpsEnv ρ) (cfg : RuntimeConfig) (shardCount nodesPerShard : ℤ)
    (clusterName : String) (m₁ : Manager) (w₁ : World ρ) : Prop :=
  ∃ err m' w', Session.exec env.handler (Pipeline.executeStep
    (createContainers cfg shardCount nodesPerShard clusterName)) m₁ w₁ =
      ((.ok (.error err), m'), w')

/-- The settings that `persist-config` writes. -/
def settingsOf (cfg : RuntimeConfig) (m : Manager) : RedisClusterConfig :=
  { nodesPerShard := m.nodesPerShard, port := cfg.redisContainerPort }

/-- Writing the settings fails when the file has been created. -/
def LeavesFile (env : OpsEnv ρ) (cfg : RuntimeConfig) (clusterName : String) (m₁ : Manager)
    (w₁ : World ρ) : Prop :=
  ∃ w₂, (OpsCmd.file (.writeToYAMLFile (cfg.clusterRuntimeConfigPath clusterName)
      (settingsOf cfg m₁)), w₂) ∈
      Session.sent env.handler (persistConfig cfg clusterName).action m₁ w₁ ∧
    (∃ err, env.fileError w₂.clock (.writeToYAMLFile (cfg.clusterRuntimeConfigPath clusterName)
      (settingsOf cfg m₁)) = some err) ∧
    env.fileApplied w₂.clock (.writeToYAMLFile (cfg.clusterRuntimeConfigPath clusterName)
      (settingsOf cfg m₁))

/-! ### The names of the containers -/

/-- The pattern of the rollback finds the containers of the cluster. -/
def Found (env : OpsEnv ρ) (clusterName : String) (w : World ρ) : Prop :=
  ∀ c ∈ w.podman.containers, c.OfCluster clusterName →
    env.podman.regex (clusterName ++ "-redis") c.name

theorem regex_of_nameChar (hnames : env.podman.ChecksNames) {i : ℕ}
    (h : ∀ c ∈ (containerName clusterName i).toList, nameChar c) :
    env.podman.regex (clusterName ++ "-redis") (containerName clusterName i) := by
  have hpat : ∀ c ∈ (clusterName ++ "-redis").toList, nameChar c := by
    intro c hc
    rw [String.toList_append] at hc
    rcases List.mem_append.mp hc with hc | hc
    · refine h c ?_
      rw [containerName, String.toList_append, String.toList_append]
      exact List.mem_append_left _ (List.mem_append_left _ hc)
    · have hmark : ∀ c ∈ "-redis".toList, nameChar c :=
        List.all_eq_true.mp (by decide)
      exact hmark c hc
  rw [hnames.regex _ _ hpat, dotMatch_containerName]
  exact Or.inl (Pattern.matchEnd_self _ _)

/-- No request makes a container of the cluster that is not found. -/
theorem Found.handler (hnames : env.podman.ChecksNames) (w : World ρ) (c : OpsCmd)
    (h : Found env clusterName w) : Found env clusterName (env.handler w c).2 := by
  rcases c with c | c | c | c | l
  · intro x hx hof
    by_cases heffect : env.podman.TakesEffect w.podman.clock c
    swap
    · exact h x (by rwa [← containers_of_not_takesEffect heffect]) hof
    have hx' : x ∈ w.podman.effect env.podman c := by rwa [← containers_of_takesEffect heffect]
    rcases c with _ | _ | _ | _ | spec | name | _ | _ | _ <;>
      try exact h x hx' hof
    · simp only [PodmanState.effect] at hx'
      split at hx'
      · exact h x hx' hof
      rcases List.mem_append.mp hx' with hx' | hx'
      · exact h x hx' hof
      obtain ⟨i, hname⟩ := hof
      obtain rfl := List.mem_singleton.mp hx'
      rw [env.podman.create_name] at hname
      rw [env.podman.create_name, hname]
      refine regex_of_nameChar hnames fun ch hch => ?_
      by_contra hbad
      exact hnames.run _ spec ⟨ch, hname ▸ hch, hbad⟩ heffect
    · exact h x (List.mem_of_mem_filter hx') hof
  · exact h
  · rw [handler_store_eq]
    exact h
  · intro x hx hof
    refine h x ?_ hof
    simp only [OpsEnv.handler] at hx
    split at hx <;> exact hx
  · exact h

/-! ### The settings file -/

section Settings

variable {f : Files} {path : String}

theorem settings_mkdirAll (f : Files) (dir path : String) :
    (f.effect (.mkdirAll dir)).settings path = f.settings path := by
  rw [Files.settings, Files.settings, Files.effect, Table.insertOrIgnore, Table.find_upsert]
  split
  · rcases f.find path with _ | old <;> rfl
  · rfl

theorem settings_writeToYAMLFile (f : Files) (path : String) (data : RedisClusterConfig) :
    (f.effect (.writeToYAMLFile path data)).settings path = some data := by
  rw [Files.settings, Files.effect, Table.find_upsert, if_pos rfl]
  rcases f.find path with _ | old <;> rfl

/-- A file that is removed is gone. -/
theorem settings_remove (h : f.entries path = []) :
    (f.effect (.remove path)).settings path = none := by
  have hfind : (f.delete fun x => x.1 = path).find path = none := by
    refine Table.find_eq_none.mpr fun hmem => ?_
    obtain ⟨x, hx, hkey⟩ := List.mem_map.mp hmem
    exact (Table.mem_delete.mp hx).2 (decide_eq_true hkey)
  rw [Files.settings, Files.effect, if_pos h, hfind]
  rfl

theorem settings_remove_or (f : Files) (path : String) :
    (f.effect (.remove path)).settings path = none ∨
      (f.effect (.remove path)).settings path = f.settings path := by
  by_cases h : f.entries path = []
  · exact Or.inl (settings_remove h)
  · rw [Files.effect, if_neg h]
    exact Or.inr rfl

variable (env w) in
/-- A request does its effect to the files, or nothing. -/
theorem files_handler (c : FileCmd) :
    (env.handler w (.file c)).2.files = w.files.effect c ∨
      (env.handler w (.file c)).2.files = w.files := by
  simp only [OpsEnv.handler]
  split
  · exact Or.inl rfl
  · by_cases h : env.fileApplied w.clock c
    · exact Or.inl (if_pos h)
    · exact Or.inr (if_neg h)

/-- The end of `persist-config`. -/
def writeSettings (cfg : RuntimeConfig) (clusterName : String) : OpsM PUnit := do
  let c ← get
  let r : Except String Unit ← OpsM.file (.writeToYAMLFile
    (cfg.clusterRuntimeConfigPath clusterName) (settingsOf cfg c))
  let _ ← Session.orFail r ""
  return ⟨⟩

theorem exec_writeSettings (env : OpsEnv ρ) (cfg : RuntimeConfig) (clusterName : String)
    (m : Manager) (w : World ρ) :
    Session.exec env.handler (writeSettings cfg clusterName) m w =
      let r := env.handler w (.file (.writeToYAMLFile (cfg.clusterRuntimeConfigPath clusterName)
        (settingsOf cfg m)))
      ((match r.1 with
        | .ok _ => .ok ⟨⟩
        | .error err => .error (.error ("" ++ err)), m), r.2) := by
  rw [writeSettings, Session.exec_bind, Session.exec_get]
  dsimp only
  rw [Session.exec_bind, OpsM.exec_file]
  rcases env.handler w (.file (.writeToYAMLFile (cfg.clusterRuntimeConfigPath clusterName)
    (settingsOf cfg m))) with ⟨err | _, w'⟩ <;> rfl

theorem sent_writeSettings (env : OpsEnv ρ) (cfg : RuntimeConfig) (clusterName : String)
    (m : Manager) (w : World ρ) :
    Session.sent env.handler (writeSettings cfg clusterName) m w =
      [(.file (.writeToYAMLFile (cfg.clusterRuntimeConfigPath clusterName) (settingsOf cfg m)),
        w)] := by
  rw [writeSettings, Session.sent_bind, Session.exec_get]
  dsimp only
  rw [Session.sent_bind, OpsM.exec_file]
  rcases env.handler w (.file (.writeToYAMLFile (cfg.clusterRuntimeConfigPath clusterName)
    (settingsOf cfg m))) with ⟨err | _, w'⟩ <;> rfl

/-- The beginning of `persist-config`: the old file is removed, as far as that works. -/
def clearSettings (cfg : RuntimeConfig) (clusterName : String) : OpsM PUnit := do
  let r : Except String Unit ← OpsM.file (.mkdirAll (cfg.clusterStateDir clusterName))
  let _ ← Session.orFail r ""
  let found : Bool ← OpsM.file (.fileExists (cfg.clusterRuntimeConfigPath clusterName))
  if found then
    let _ ← OpsM.file (.remove (cfg.clusterRuntimeConfigPath clusterName))

theorem persistConfig_eq (cfg : RuntimeConfig) (clusterName : String) :
    (persistConfig cfg clusterName).action = (do
      clearSettings cfg clusterName
      writeSettings cfg clusterName) := by
  simp only [clearSettings, bind_assoc]
  refine congrArg (OpsM.file _ >>= ·) (funext fun r => congrArg (Session.orFail r "" >>= ·)
    (funext fun _ => congrArg (OpsM.file _ >>= ·) (funext fun found => ?_)))
  rcases found with _ | _ <;> rfl

theorem sends_clearSettings (cfg : RuntimeConfig) (clusterName : String) :
    Session.Sends (fun c => ∀ path data, c ≠ .file (.writeToYAMLFile path data))
      (clearSettings cfg clusterName) := by
  have hfile : ∀ c : FileCmd, (∀ path data, c ≠ .writeToYAMLFile path data) →
      Session.Sends (fun c => ∀ path data, c ≠ .file (.writeToYAMLFile path data))
        (OpsM.file c) := fun c hc =>
    Session.Sends.lift ⟨fun path data h => hc path data (OpsCmd.file.inj h), fun _ => trivial⟩
  refine (hfile (.mkdirAll _) nofun).bind fun r => (Session.Sends.orFail _ _).bind fun _ =>
    (hfile (.fileExists _) nofun).bind fun found => ?_
  split
  · exact (hfile (.remove _) nofun).bind fun _ => Session.Sends.pure _
  · exact Session.Sends.pure _

/-- The old file is left when the directory cannot be made; otherwise it may be gone. -/
theorem clearSettings_cases (env : OpsEnv ρ) (cfg : RuntimeConfig) (clusterName : String)
    (m : Manager) (w : World ρ) :
    (∃ err w', Session.exec env.handler (clearSettings cfg clusterName) m w =
        ((.error (.error err), m), w') ∧
      w'.files.settings (cfg.clusterRuntimeConfigPath clusterName) =
        w.files.settings (cfg.clusterRuntimeConfigPath clusterName)) ∨
    ∃ w', Session.exec env.handler (clearSettings cfg clusterName) m w = ((.ok ⟨⟩, m), w') ∧
      (w'.files.settings (cfg.clusterRuntimeConfigPath clusterName) = none ∨
        w'.files.settings (cfg.clusterRuntimeConfigPath clusterName) =
          w.files.settings (cfg.clusterRuntimeConfigPath clusterName)) := by
  have hdir : (env.handler w (.file (.mkdirAll (cfg.clusterStateDir clusterName)))).2.files.settings
      (cfg.clusterRuntimeConfigPath clusterName) =
        w.files.settings (cfg.clusterRuntimeConfigPath clusterName) := by
    rcases files_handler env w (.mkdirAll (cfg.clusterStateDir clusterName)) with h | h
    · rw [h, settings_mkdirAll]
    · rw [h]
  rw [clearSettings, Session.exec_bind, OpsM.exec_file]
  rcases hmk : env.handler w
    (.file (.mkdirAll (cfg.clusterStateDir clusterName))) with ⟨err | _, w₁⟩
  · rw [hmk] at hdir
    exact Or.inl ⟨_, w₁, rfl, hdir⟩
  rw [hmk] at hdir
  refine Or.inr ?_
  dsimp only
  rw [Session.exec_bind_of_ok (Session.exec_orFail_ok _ _ _ _ _), Session.exec_bind,
    OpsM.exec_file]
  have hexists : (env.handler w₁
      (.file (.fileExists (cfg.clusterRuntimeConfigPath clusterName)))).2 =
        { w₁ with clock := w₁.clock + 1 } := handler_file_of_effect rfl
  rcases hr : env.handler w₁ (.file (.fileExists (cfg.clusterRuntimeConfigPath clusterName)))
    with ⟨_ | _, w₂⟩
  · rw [hr] at hexists
    refine ⟨w₂, rfl, Or.inr ?_⟩
    rw [show w₂ = _ from hexists]
    exact hdir
  · rw [hr] at hexists
    refine ⟨(env.handler w₂ (.file (.remove (cfg.clusterRuntimeConfigPath clusterName)))).2, rfl,
      ?_⟩
    have hsame : w₂.files.settings (cfg.clusterRuntimeConfigPath clusterName) =
        w.files.settings (cfg.clusterRuntimeConfigPath clusterName) := by
      rw [show w₂ = _ from hexists]
      exact hdir
    rcases files_handler env w₂ (.remove (cfg.clusterRuntimeConfigPath clusterName)) with h | h
    · rw [h, ← hsame]
      exact settings_remove_or _ _
    · rw [h]
      exact Or.inr hsame

/-- `persist-config` ends before it writes, or comes to write with the old file removed or
left. -/
theorem persistConfig_cases (env : OpsEnv ρ) (cfg : RuntimeConfig) (clusterName : String)
    (m : Manager) (w : World ρ) :
    (∃ err w', Session.exec env.handler (persistConfig cfg clusterName).action m w =
        ((.error (.error err), m), w') ∧
      w'.files.settings (cfg.clusterRuntimeConfigPath clusterName) =
        w.files.settings (cfg.clusterRuntimeConfigPath clusterName) ∧
      ∀ x ∈ Session.sent env.handler (persistConfig cfg clusterName).action m w,
        x.1 ≠ .file (.writeToYAMLFile (cfg.clusterRuntimeConfigPath clusterName)
          (settingsOf cfg m))) ∨
    ∃ w₂, Session.exec env.handler (persistConfig cfg clusterName).action m w =
        Session.exec env.handler (writeSettings cfg clusterName) m w₂ ∧
      (w₂.files.settings (cfg.clusterRuntimeConfigPath clusterName) = none ∨
        w₂.files.settings (cfg.clusterRuntimeConfigPath clusterName) =
          w.files.settings (cfg.clusterRuntimeConfigPath clusterName)) ∧
      ∀ w', (OpsCmd.file (.writeToYAMLFile (cfg.clusterRuntimeConfigPath clusterName)
          (settingsOf cfg m)), w') ∈
        Session.sent env.handler (persistConfig cfg clusterName).action m w ↔ w' = w₂ := by
  rw [persistConfig_eq, Session.exec_bind, Session.sent_bind]
  have hsends := (sends_clearSettings cfg clusterName m).trace (h := env.handler) (s := w)
  rcases clearSettings_cases env cfg clusterName m w with ⟨err, w', hexec, hsame⟩ | ⟨w₂, hexec, h⟩
  · rw [hexec]
    refine Or.inl ⟨err, w', rfl, hsame, fun x hx => ?_⟩
    rw [List.append_nil] at hx
    exact hsends x hx _ _
  · rw [hexec]
    refine Or.inr ⟨w₂, rfl, h, fun w' => ?_⟩
    dsimp only
    rw [sent_writeSettings, List.mem_append, List.mem_singleton]
    constructor
    · rintro (hx | hx)
      · exact absurd rfl (hsends _ hx _ _)
      · exact (Prod.mk.inj hx).2
    · rintro rfl
      exact Or.inr rfl

/-- **What a failed `persist-config` leaves.** -/
theorem persistConfig_failed {m m' : Manager} {w' : World ρ} {err : String}
    (h : Session.exec env.handler (persistConfig cfg clusterName).action m w =
      ((.error (.error err), m'), w')) :
    (LeavesFile env cfg clusterName m w →
      w'.files.settings (cfg.clusterRuntimeConfigPath clusterName) = some (settingsOf cfg m)) ∧
    (¬ LeavesFile env cfg clusterName m w →
      w'.files.settings (cfg.clusterRuntimeConfigPath clusterName) = none ∨
        w'.files.settings (cfg.clusterRuntimeConfigPath clusterName) =
          w.files.settings (cfg.clusterRuntimeConfigPath clusterName)) := by
  rcases persistConfig_cases env cfg clusterName m w with
    ⟨err', w₁, hexec, hsame, hsent⟩ | ⟨w₂, hexec, hsame, hsent⟩
  · cases hexec.symm.trans h
    refine ⟨?_, fun _ => Or.inr hsame⟩
    rintro ⟨w₂, hw₂, -⟩
    exact absurd rfl (hsent _ hw₂)
  have hleaves : LeavesFile env cfg clusterName m w ↔
      (∃ err, env.fileError w₂.clock (.writeToYAMLFile (cfg.clusterRuntimeConfigPath clusterName)
        (settingsOf cfg m)) = some err) ∧
      env.fileApplied w₂.clock (.writeToYAMLFile (cfg.clusterRuntimeConfigPath clusterName)
        (settingsOf cfg m)) := by
    simp only [LeavesFile, hsent, exists_eq_left]
  rw [hexec, exec_writeSettings] at h
  rw [hleaves]
  rcases herr : env.fileError w₂.clock (.writeToYAMLFile (cfg.clusterRuntimeConfigPath clusterName)
    (settingsOf cfg m)) with _ | err'
  · simp only [OpsEnv.handler, herr] at h
    cases h
  · simp only [OpsEnv.handler, herr] at h
    obtain ⟨-, rfl⟩ := Prod.mk.inj h
    by_cases happ : env.fileApplied w₂.clock (.writeToYAMLFile
      (cfg.clusterRuntimeConfigPath clusterName) (settingsOf cfg m))
    · refine ⟨fun _ => ?_, fun hnot => absurd ⟨⟨err', rfl⟩, happ⟩ hnot⟩
      dsimp only
      rw [if_pos happ, settings_writeToYAMLFile]
    · refine ⟨fun hleft => absurd hleft.2 happ, fun _ => ?_⟩
      dsimp only
      rwa [if_neg happ]

end Settings

/-! ### What the rollback removes -/

section Undo

variable {q : Option (Persister OpsCmd OpsCmd.Reply)} {p : Pipeline OpsCmd OpsCmd.Reply Manager}
  {completed : String → Bool} {m : Manager}

/-- Before the containers have been created there is nothing to undo. -/
theorem rollback_of_lt {i : ℕ} (hi : i < 2) :
    p.rollback ((steps cfg shardCount nodesPerShard clusterName q).take i).reverse completed =
      pure completed := by
  obtain rfl | rfl : i = 0 ∨ i = 1 := by omega
  · rfl
  · rfl

/-- Deleting the pipeline changes the store and the clock only. -/
theorem told_deletePipeline (env : OpsEnv ρ)
    (hp : p.persist = none ∨ p.persist = some storePersister) (w : World ρ) :
    (p.told env.handler (fun persist => persist.deletePipeline) w).podman = w.podman ∧
      (p.told env.handler (fun persist => persist.deletePipeline) w).files = w.files := by
  rw [told_eq hp (c := .deletePipeline p.name) fun _ => rfl]
  exact ⟨rfl, rfl⟩

/-- What is left of the containers. -/
def remaining (env : OpsEnv ρ) (clusterName : String) (s : PodmanState) : List Container :=
  s.containers.filter fun c =>
    c.name ∉ (s.listed env.podman true (clusterName ++ "-redis")).filter (· ≠ "")

/-- **The containers are deleted.** -/
theorem rollback_containers {i : ℕ} (hi : 2 ≤ i) (hi' : i ≤ 6)
    (hp : p.persist = none ∨ p.persist = some storePersister)
    (hsucc : ∀ x ∈ Session.sent env.handler (p.rollback
      ((steps cfg shardCount nodesPerShard clusterName q).take i).reverse completed) m w,
        env.Succeeds x.2 x.1) :
    ∃ completed' w', Session.exec env.handler (p.rollback
        ((steps cfg shardCount nodesPerShard clusterName q).take i).reverse completed) m w =
        ((.ok completed', m), w') ∧
      w'.podman.containers = remaining env clusterName w.podman ∧ w'.files = w.files := by
  have hlater : ∀ step ∈ (((steps cfg shardCount nodesPerShard clusterName q).drop 2).take
      (i - 2)).reverse, step.undo = none := by
    intro step hstep
    have hmem : step ∈ ((steps cfg shardCount nodesPerShard clusterName q).drop 2).take 4 :=
      List.mem_of_mem_take (by
        rw [List.take_take, Nat.min_eq_left (show i - 2 ≤ 4 by omega)]
        exact List.mem_reverse.mp hstep)
    simp only [steps, List.drop_succ_cons, List.drop_zero, List.take_succ_cons, List.take_zero,
      List.mem_cons, List.not_mem_nil, or_false] at hmem
    rcases hmem with rfl | rfl | rfl | rfl <;> rfl
  have htake : ((steps cfg shardCount nodesPerShard clusterName q).take i).reverse =
      (((steps cfg shardCount nodesPerShard clusterName q).drop 2).take (i - 2)).reverse ++
        ((steps cfg shardCount nodesPerShard clusterName q).take 2).reverse := by
    rw [← List.reverse_append, ← List.take_append_drop 2 (List.take i _), List.take_take,
      List.drop_take, Nat.min_eq_left hi]
  have htwo : ((steps cfg shardCount nodesPerShard clusterName q).take 2).reverse =
      [createContainers cfg shardCount nodesPerShard clusterName,
        validate cfg shardCount nodesPerShard clusterName] := rfl
  rw [htake, Pipeline.rollback_append_of_no_undo hlater, htwo] at hsucc ⊢
  have hdelete := exec_deletePods env m w clusterName
  obtain ⟨hexec, hsent⟩ := Pipeline.exec_rollback_cons (p := p) (H := env.handler)
    (show (createContainers cfg shardCount nodesPerShard clusterName).undo =
      some (deletePods clusterName) from rfl) hdelete
    (fun err h => by split at h <;> cases h)
    [validate cfg shardCount nodesPerShard clusterName] completed
  have hcontainers : ((deleteResources clusterName).run (podmanHandler env.podman)
      w.podman).2.containers = _ := deleteResources_containers fun x hx => by
      refine hsucc (.podman x.1, { w with podman := x.2 }) (hsent _ (Or.inl ?_))
      rw [deletePods, Session.sent_bind, OpsM.sent_podman]
      exact List.mem_append_left _ (List.mem_map_of_mem hx)
  obtain ⟨hpodman, hfiles⟩ := told_deletePipeline env hp
    { w with podman := ((deleteResources clusterName).run (podmanHandler env.podman) w.podman).2 }
  refine ⟨_, _, hexec.trans rfl, ?_, hfiles⟩
  rw [hpodman]
  exact hcontainers

/-- The undo of `persist-config`. -/
def removeSettings (cfg : RuntimeConfig) (clusterName : String) : OpsM PUnit := do
  let _ ← OpsM.file (.remove (cfg.clusterRuntimeConfigPath clusterName))
  return ⟨⟩

theorem exec_removeSettings (env : OpsEnv ρ) (cfg : RuntimeConfig) (clusterName : String)
    (m : Manager) (w : World ρ) :
    Session.exec env.handler (removeSettings cfg clusterName) m w = ((.ok ⟨⟩, m),
      (env.handler w (.file (.remove (cfg.clusterRuntimeConfigPath clusterName)))).2) := rfl

theorem sent_removeSettings (m : Manager) (w : World ρ) :
    Session.sent env.handler (removeSettings cfg clusterName) m w =
      [(.file (.remove (cfg.clusterRuntimeConfigPath clusterName)), w)] := rfl

theorem podman_handler_file (w : World ρ) (c : FileCmd) :
    (env.handler w (.file c)).2.podman = w.podman := by
  simp only [OpsEnv.handler]
  split <;> rfl

theorem settings_of_succeeds {path : String} (h : env.Succeeds w (.file (.remove path))) :
    (env.handler w (.file (.remove path))).2.files.settings path = none := by
  obtain ⟨herr, hentries⟩ := h
  simp only [OpsEnv.handler, herr]
  exact settings_remove (hentries _ rfl)

/-- The undo of `persist-db`. -/
def removeRows (cfg : RuntimeConfig) (clusterName : String) : OpsM PUnit := do
  if cfg.dbPath = "" then return ⟨⟩
  let r : Except String Unit ← OpsM.store (.openStore cfg.dbPath)
  let _ ← Session.orFail r ""
  deleteClusterRows clusterName

theorem sends_removeRows (cfg : RuntimeConfig) (clusterName : String) :
    Session.Sends OpsCmd.ToStore (removeRows cfg clusterName) := by
  rw [removeRows]
  refine Session.Sends.ite (Session.Sends.pure _) ?_
  exact (sends_store _).bind fun r => (Session.Sends.orFail _ _).bind fun _ =>
    sends_deleteClusterRows clusterName

/-- It changes the store and the clock only, and does not panic. -/
theorem exec_removeRows (env : OpsEnv ρ) (cfg : RuntimeConfig) (clusterName : String)
    (m : Manager) (w : World ρ) :
    ∃ r w', Session.exec env.handler (removeRows cfg clusterName) m w = ((r, m), w') ∧
      w'.podman = w.podman ∧ ∀ err, r ≠ .error (.panic err) := by
  have hpodman : (Session.exec env.handler (removeRows cfg clusterName) m w).2.podman =
      w.podman := by
    rw [exec_of_toStore (sends_removeRows cfg clusterName)]
  rcases hexec : Session.exec env.handler (removeRows cfg clusterName) m w with ⟨⟨r, m'⟩, w'⟩
  rw [hexec] at hpodman
  rw [removeRows] at hexec
  split at hexec
  · cases hexec
    exact ⟨_, _, rfl, hpodman, nofun⟩
  rw [Session.exec_bind, OpsM.exec_store] at hexec
  rcases hopen : env.handler w (.store (.openStore cfg.dbPath)) with ⟨err | _, w₁⟩
  · rw [hopen] at hexec
    cases hexec
    exact ⟨_, _, rfl, hpodman, nofun⟩
  rw [hopen] at hexec
  dsimp only at hexec
  rw [Session.exec_bind_of_ok (Session.exec_orFail_ok _ _ _ _ _), deleteClusterRows,
    Session.exec_bind, OpsM.exec_store] at hexec
  rcases hrows : env.handler w₁ (.store (.deleteContainers clusterName)) with ⟨err | _, w₂⟩
  · rw [hrows] at hexec
    cases hexec
    exact ⟨_, _, rfl, hpodman, nofun⟩
  · rw [hrows] at hexec
    cases hexec
    exact ⟨_, _, rfl, hpodman, nofun⟩

/-- **What is rolled back** when a step after `create-containers` has failed. -/
theorem exec_rollback {i : ℕ} (hi : 2 ≤ i) (hi' : i < 9)
    (hp : p.persist = none ∨ p.persist = some storePersister)
    (hsucc : ∀ x ∈ Session.sent env.handler (p.rollback
      ((steps cfg shardCount nodesPerShard clusterName q).take i).reverse completed) m w,
        env.Succeeds x.2 x.1) :
    ∃ completed' w', Session.exec env.handler (p.rollback
        ((steps cfg shardCount nodesPerShard clusterName q).take i).reverse completed) m w =
        ((.ok completed', m), w') ∧
      w'.podman.containers = remaining env clusterName w.podman ∧
      (i ≤ 6 → w'.files = w.files) ∧
      (6 < i → w'.files.settings (cfg.clusterRuntimeConfigPath clusterName) = none) := by
  by_cases hle : i ≤ 6
  · obtain ⟨completed', w', hexec, hcontainers, hfiles⟩ := rollback_containers hi hle hp hsucc
    exact ⟨completed', w', hexec, hcontainers, fun _ => hfiles, fun h => absurd h (by omega)⟩
  -- the last step that is undone before the containers is `persist-config`
  have hseven : ∀ (w : World ρ) (completed : String → Bool),
      (∀ x ∈ Session.sent env.handler (p.rollback
        ((steps cfg shardCount nodesPerShard clusterName q).take 7).reverse completed) m w,
          env.Succeeds x.2 x.1) →
      ∃ completed' w', Session.exec env.handler (p.rollback
          ((steps cfg shardCount nodesPerShard clusterName q).take 7).reverse completed) m w =
          ((.ok completed', m), w') ∧
        w'.podman.containers = remaining env clusterName w.podman ∧
        w'.files.settings (cfg.clusterRuntimeConfigPath clusterName) = none := by
    intro w completed hsucc
    have htake : ((steps cfg shardCount nodesPerShard clusterName q).take 7).reverse =
        persistConfig cfg clusterName ::
          ((steps cfg shardCount nodesPerShard clusterName q).take 6).reverse := rfl
    rw [htake] at hsucc ⊢
    obtain ⟨hexec, hsent⟩ := Pipeline.exec_rollback_cons (p := p)
      (show (persistConfig cfg clusterName).undo = some (removeSettings cfg clusterName) from rfl)
      (exec_removeSettings env cfg clusterName m w) nofun
      ((steps cfg shardCount nodesPerShard clusterName q).take 6).reverse completed
    have hremoved := settings_of_succeeds (hsucc _ (hsent _ (Or.inl (by
      rw [sent_removeSettings]
      exact List.mem_singleton_self _))))
    obtain ⟨completed', w', hrest, hcontainers, hfiles⟩ := rollback_containers (by omega)
      (Nat.le_refl 6) hp fun x hx => hsucc x (hsent x (Or.inr hx))
    obtain ⟨hpodman, htold⟩ := told_deletePipeline env hp
      (env.handler w (.file (.remove (cfg.clusterRuntimeConfigPath clusterName)))).2
    refine ⟨completed', w', hexec.trans hrest, ?_, ?_⟩
    · rw [hcontainers, hpodman, podman_handler_file]
    · rw [hfiles, htold]
      exact hremoved
  obtain rfl | rfl : i = 7 ∨ i = 8 := by omega
  · obtain ⟨completed', w', hexec, hcontainers, hsettings⟩ := hseven w completed hsucc
    exact ⟨completed', w', hexec, hcontainers, fun h => absurd h (by omega), fun _ => hsettings⟩
  · have htake : ((steps cfg shardCount nodesPerShard clusterName q).take 8).reverse =
        persistDb cfg shardCount nodesPerShard clusterName q ::
          ((steps cfg shardCount nodesPerShard clusterName q).take 7).reverse := rfl
    rw [htake] at hsucc ⊢
    obtain ⟨r, w₁, hundo, hpodman₁, hr⟩ := exec_removeRows env cfg clusterName m w
    obtain ⟨hexec, hsent⟩ := Pipeline.exec_rollback_cons (p := p)
      (show (persistDb cfg shardCount nodesPerShard clusterName q).undo =
        some (removeRows cfg clusterName) from rfl) hundo hr
      ((steps cfg shardCount nodesPerShard clusterName q).take 7).reverse completed
    obtain ⟨completed', w', hrest, hcontainers, hsettings⟩ := hseven _ _ fun x hx =>
      hsucc x (hsent x (Or.inr hx))
    obtain ⟨hpodman, -⟩ := told_deletePipeline env hp w₁
    refine ⟨completed', w', hexec.trans hrest, ?_, fun h => absurd h (by omega), fun _ => hsettings⟩
    rw [hcontainers, hpodman, hpodman₁]

end Undo

/-! ### What the steps leave alone -/

section Steps

variable {q : Option (Persister OpsCmd OpsCmd.Reply)} {p : Pipeline OpsCmd OpsCmd.Reply Manager}
  {f : Files} {m : Manager}

/-- A request to podman that changes no container. -/
def ReadsPodman : OpsCmd → Prop
  | .podman c => c.Reads
  | .redis _ | .store _ | .file _ | .mapOrder _ => False

theorem validate_reads :
    Session.Sends ReadsPodman (validate cfg shardCount nodesPerShard clusterName).action := by
  have hpods : ∀ base, Session.Sends ReadsPodman
      (OpsM.podman (listPodsByCluster cfg base clusterName)) := fun base =>
    Session.Sends.lift (Program.Sends.embed listPodsByCluster_reads fun _ h => h)
  have hlist : Session.Sends ReadsPodman (listPods cfg clusterName) :=
    Session.Sends.get.bind fun c => (hpods c.nodeManager).bind fun _ =>
      (Session.Sends.modify _).bind fun _ => Session.Sends.pure _
  simp only [validate, Session.fail_bind]
  refine Session.Sends.ite (Session.Sends.fail _) (Session.Sends.ite (Session.Sends.fail _)
    (Session.Sends.ite (Session.Sends.fail _) ?_))
  refine hlist.bind fun r => (Session.Sends.orFail _ _).bind fun _ =>
    Session.Sends.get.bind fun c => ?_
  exact Session.Sends.ite (Session.Sends.fail _) (Session.Sends.pure _)

/-- `validate` changes neither the containers nor the files. -/
theorem validate_keeps (containers : List Container) (f : Files) :
    (validate cfg shardCount nodesPerShard clusterName).Keeps env.handler
      fun _ w' => w'.podman.containers = containers ∧ w'.files = f := by
  intro m w hw
  refine validate_reads.exec_inv
    (J := fun w' : World ρ => w'.podman.containers = containers ∧ w'.files = f) ?_ hw
  rintro w' (c | c | c | c | l) hc ⟨hcontainers, hfiles⟩
  · exact ⟨(podmanHandler_reads _ _ hc).trans hcontainers, hfiles⟩
  · exact hc.elim
  · exact hc.elim
  · exact hc.elim
  · exact hc.elim

/-- No step before `persist-config` changes a file. -/
theorem files_kept {step : Step OpsCmd OpsCmd.Reply Manager}
    (hstep : step ∈ (steps cfg shardCount nodesPerShard clusterName q).take 6) :
    step.Keeps env.handler fun _ (w' : World ρ) => w'.files = f := by
  have hredis : ∀ {step : Step OpsCmd OpsCmd.Reply Manager},
      Session.Sends OpsCmd.ToRedis step.action →
        step.Keeps env.handler fun _ (w' : World ρ) => w'.files = f := by
    intro step hsends m w hw
    rw [exec_of_toRedis hsends]
    exact hw
  simp only [steps, List.take_succ_cons, List.take_zero, List.mem_cons, List.not_mem_nil,
    or_false] at hstep
  rcases hstep with rfl | rfl | rfl | rfl | rfl | rfl
  · intro m w hw
    exact (validate_keeps w.podman.containers f m w ⟨rfl, hw⟩).2
  · intro m w hw
    show (Session.exec env.handler (createPodsForCluster _ _ _) m w).2.files = f
    rw [exec_of_toPodman (sends_createPodsForCluster _ _ _)]
    exact hw
  · exact hredis (sends_onClusterNode clusterName _ fun node =>
      meetNodes node.clientConnAddr clusterName)
  · exact hredis (sends_onClusterNode clusterName _ fun node => updateAfterMeet node clusterName)
  · exact hredis (sends_manager _)
  · exact hredis (sends_manager _)

/-- Being told of a step changes the store and the clock only. -/
theorem told_same (env : OpsEnv ρ) (hp : p.persist = none ∨ p.persist = some storePersister)
    (I : World ρ → Prop)
    (hI : ∀ w st n, I w → I { w with store := st, clock := n }) :
    p.TellKeeps env.handler fun _ w' => I w' where
  started step m w h := by
    rw [Pipeline.started, told_eq hp (c := .startPipelineStep p.name step.name) fun _ => rfl]
    exact hI _ _ _ h
  saved step m w h := by
    rw [Pipeline.saved, told_eq hp (c := .savePipelineStep p.name step.name) fun _ => rfl]
    exact hI _ _ _ h
  failed step m w h := by
    rw [Pipeline.failed, told_eq hp (c := .failPipelineStep p.name step.name) fun _ => rfl]
    exact hI _ _ _ h

end Steps

/-! ### How a failed run goes -/

/-- The pipeline of a creation, when there is one, and what has been changed before its
first step. -/
theorem exec_prepare (env : OpsEnv ρ) (cfg : RuntimeConfig) (shardCount nodesPerShard : ℤ)
    (clusterName : String) (m : Manager) (w : World ρ) :
    (∃ err, Session.exec env.handler (prepare cfg shardCount nodesPerShard clusterName) m w =
        ((.error (.error err), m), w)) ∨
      ∃ p n, Session.exec env.handler (prepare cfg shardCount nodesPerShard clusterName) m w =
          ((.ok p, newClusterManager cfg nodesPerShard), { w with clock := n }) ∧
        (p.persist = none ∨ p.persist = some storePersister) ∧
        p.steps = steps cfg shardCount nodesPerShard clusterName p.persist := by
  rw [prepare]
  rcases newNodeManager cfg with err | _
  · exact Or.inl ⟨_, rfl⟩
  obtain ⟨p, n, hmake, -, hpersist, hsteps⟩ := exec_makePipeline env
    (newClusterManager cfg nodesPerShard) w cfg (pipelineName clusterName)
    (steps cfg shardCount nodesPerShard clusterName) fun _ _ => steps_retry _ _ _ _
  refine Or.inr ⟨p, n, ?_, hpersist, hsteps⟩
  rw [Session.exec_bind_of_ok (Session.exec_orFail_ok _ _ _ _ _), Session.exec_bind,
    Session.exec_set]
  exact hmake

theorem eq_of_prepare {m m₀ : Manager} {w₀ : World ρ} {p : Pipeline OpsCmd OpsCmd.Reply Manager}
    (hprep : Session.exec env.handler (prepare cfg shardCount nodesPerShard clusterName) m w =
      ((.ok p, m₀), w₀)) :
    m₀ = newClusterManager cfg nodesPerShard ∧ (∃ n, w₀ = { w with clock := n }) ∧
      (p.persist = none ∨ p.persist = some storePersister) ∧
      p.steps = steps cfg shardCount nodesPerShard clusterName p.persist := by
  obtain ⟨err, hp⟩ | ⟨p', n, hp, hpersist, hsteps⟩ := exec_prepare env cfg shardCount nodesPerShard
    clusterName m w
  · cases hp.symm.trans hprep
  · cases hp.symm.trans hprep
    exact ⟨rfl, ⟨n, rfl⟩, hpersist, hsteps⟩

/-- The step at `i` is tried, first with this memory and in this world; every try fails, and
`w'` is the world then. -/
def Fails (env : OpsEnv ρ) (cfg : RuntimeConfig) (shardCount nodesPerShard : ℤ)
    (clusterName : String) (w : World ρ) (i : ℕ) (m₁ : Manager) (w₁ w' : World ρ) : Prop :=
  ∃ p m₀ w₀ completed w₀' step err m',
    Session.exec env.handler (prepare cfg shardCount nodesPerShard clusterName)
      { nodesPerShard := 0 } w = ((.ok p, m₀), w₀) ∧
    p.steps[i]? = some step ∧
    p.Completes env.handler (p.steps.take i) p.completed m₀ w₀ completed m₁ w₀' ∧
    ¬ completed step.name ∧ w₁ = p.started env.handler step w₀' ∧
    Session.exec env.handler (Pipeline.executeStep step) m₁ w₁ = ((.ok (.error err), m'), w')

section Runs

variable {i : ℕ} {m₁ : Manager} {w₁ w' : World ρ}

theorem Fails.tries (h : Fails env cfg shardCount nodesPerShard clusterName w i m₁ w₁ w') :
    Tries env cfg shardCount nodesPerShard clusterName w i m₁ w₁ := by
  obtain ⟨p, m₀, w₀, completed, w₀', step, err, m', hprep, hget, hbefore, hnot, hw₁, -⟩ := h
  exact ⟨p, m₀, w₀, completed, w₀', step, hprep, hget, hbefore, hnot, hw₁⟩

/-- A creation that returns an error has failed in one of its steps, or before them. -/
theorem fails_of_error {err : String} {w'' : World ρ}
    (h : env.invoke (createClusterAction cfg shardCount nodesPerShard clusterName) w =
      (.error (.error err), w'')) :
    w'' = w ∨ ∃ i m₁ w₁ w', Fails env cfg shardCount nodesPerShard clusterName w i m₁ w₁ w' := by
  rw [OpsEnv.invoke, createClusterAction, Session.exec_bind] at h
  obtain ⟨err', hp⟩ | ⟨p, n, hp, -, -⟩ := exec_prepare env cfg shardCount nodesPerShard clusterName
    { nodesPerShard := 0 } w
  · rw [hp] at h
    exact Or.inl (Prod.mk.inj h).2.symm
  refine Or.inr ?_
  rw [hp] at h
  simp only [exec_runPipeline] at h
  rcases p.completes_or_fails_or_panics (H := env.handler) (newClusterManager cfg nodesPerShard)
    { w with clock := n } with ⟨completed', m', w', hc⟩ | ⟨i, completed', m', w', hf⟩ | ⟨i, hpanic⟩
  · rw [hc.exec_run] at h
    cases h
  · obtain ⟨step, m₁, w₁, err', hget, hbefore, hnot, hexec⟩ := hf
    exact ⟨i, m₁, _, w', p, _, _, completed', w₁, step, err', m', hp, hget, hbefore, hnot, rfl,
      hexec⟩
  · obtain ⟨err'', m', w', hrun⟩ := hpanic.exec_run
    rw [hrun] at h
    cases h

/-- **How a failed run ends.** -/
theorem Fails.invoke (hroll : RollbackSucceeds env cfg shardCount nodesPerShard clusterName w)
    (h : Fails env cfg shardCount nodesPerShard clusterName w i m₁ w₁ w') :
    ∃ err w'', env.invoke (createClusterAction cfg shardCount nodesPerShard clusterName) w =
        (.error (.error err), w'') ∧
      (i < 2 → w''.podman = w'.podman ∧ w''.files = w'.files) ∧
      (2 ≤ i → w''.podman.containers = remaining env clusterName w'.podman ∧
        (i ≤ 6 → w''.files = w'.files) ∧
        (6 < i → w''.files.settings (cfg.clusterRuntimeConfigPath clusterName) = none)) := by
  obtain ⟨p, m₀, w₀, completed, w₀', step, err, m', hprep, hget, hbefore, hnot, rfl, hexec⟩ := h
  have hfail : p.FailsAt env.handler m₀ w₀ i completed m' w' :=
    ⟨step, m₁, w₀', err, hget, hbefore, hnot, hexec⟩
  have hsucc := hroll p m₀ w₀ i completed m' w' step hprep hfail hget
  obtain ⟨rfl, ⟨n, rfl⟩, hpersist, hsteps⟩ := eq_of_prepare hprep
  have hlt : i < 9 := by
    obtain ⟨hlt, -⟩ := List.getElem?_eq_some_iff.mp hget
    rwa [hsteps] at hlt
  obtain ⟨step', err', hget', hrun⟩ := hfail.exec_run
  obtain rfl : step = step' := Option.some.inj (hget.symm.trans hget')
  have hfailed := (told_same env hpersist
    (fun w : World ρ => w.podman = w'.podman ∧ w.files = w'.files) fun _ _ _ h => h).failed
    step m' w' ⟨rfl, rfl⟩
  rw [OpsEnv.invoke, createClusterAction, Session.exec_bind_of_ok hprep, exec_runPipeline, hrun,
    Session.exec_bind, hsteps]
  rw [hsteps] at hsucc
  by_cases hi : i < 2
  · rw [rollback_of_lt hi]
    exact ⟨_, _, rfl, fun _ => hfailed, fun h => absurd hi (by omega)⟩
  · obtain ⟨completed', w'', hroll, hcontainers, hfiles, hsettings⟩ := exec_rollback
      (Nat.not_lt.mp hi) hlt hpersist hsucc
    rw [hroll]
    refine ⟨_, w'', rfl, fun h => absurd h hi, fun _ => ⟨?_, fun h => ?_, hsettings⟩⟩
    · rw [hcontainers, hfailed.1]
    · rw [hfiles h, hfailed.2]

/-- The pipeline of a run that comes to a step. -/
theorem Tries.pipeline (h : Tries env cfg shardCount nodesPerShard clusterName w i m₁ w₁) :
    ∃ p n completed w' step,
      Session.exec env.handler (prepare cfg shardCount nodesPerShard clusterName)
        { nodesPerShard := 0 } w = ((.ok p, newClusterManager cfg nodesPerShard),
          { w with clock := n }) ∧
      (p.persist = none ∨ p.persist = some storePersister) ∧
      p.steps = steps cfg shardCount nodesPerShard clusterName p.persist ∧
      p.steps[i]? = some step ∧
      p.Completes env.handler (p.steps.take i) p.completed (newClusterManager cfg nodesPerShard)
        { w with clock := n } completed m₁ w' ∧
      ¬ completed step.name ∧ w₁ = p.started env.handler step w' := by
  obtain ⟨p, m₀, w₀, completed, w', step, hprep, hget, hbefore, hnot, hw₁⟩ := h
  obtain ⟨rfl, ⟨n, rfl⟩, hpersist, hsteps⟩ := eq_of_prepare hprep
  exact ⟨p, n, completed, w', step, hprep, hpersist, hsteps, hget, hbefore, hnot, hw₁⟩

/-- A step that is tried and fails. -/
theorem Tries.fails (h : Tries env cfg shardCount nodesPerShard clusterName w i m₁ w₁)
    {step : Step OpsCmd OpsCmd.Reply Manager}
    (hstep : ∀ q, (steps cfg shardCount nodesPerShard clusterName q)[i]? = some step)
    {err : String} {m' : Manager} (hexec : Session.exec env.handler (Pipeline.executeStep step)
      m₁ w₁ = ((.ok (.error err), m'), w')) :
    Fails env cfg shardCount nodesPerShard clusterName w i m₁ w₁ w' := by
  obtain ⟨p, n, completed, w₀', step', hprep, -, hsteps, hget, hbefore, hnot, hw₁⟩ := h.pipeline
  obtain rfl : step = step' := by
    rw [hsteps, hstep] at hget
    exact Option.some.inj hget
  exact ⟨p, _, _, completed, w₀', step, err, m', hprep, hget, hbefore, hnot, hw₁, hexec⟩

/-- What every step before the one at `i` keeps holds when that one is tried. -/
theorem Tries.inv {I : World ρ → Prop}
    (h : Tries env cfg shardCount nodesPerShard clusterName w i m₁ w₁)
    (htold : ∀ w st n, I w → I { w with store := st, clock := n })
    (hsteps : ∀ q, ∀ step ∈ (steps cfg shardCount nodesPerShard clusterName q).take i,
      step.Keeps env.handler fun _ w' => I w') (hw : I w) : I w₁ := by
  obtain ⟨p, n, completed, w', step, -, hpersist, hsteps', -, hbefore, -, rfl⟩ := h.pipeline
  have htell := told_same env hpersist I htold
  refine htell.started step m₁ w' (hbefore.inv htell (fun s hs => ?_) (htold _ w.store n hw))
  rw [hsteps'] at hs
  exact hsteps _ s hs

/-- A step that fails is the one that the source has at this place. -/
theorem Fails.executeStep (h : Fails env cfg shardCount nodesPerShard clusterName w i m₁ w₁ w') :
    ∃ q step err m', (steps cfg shardCount nodesPerShard clusterName q)[i]? = some step ∧
      Session.exec env.handler (Pipeline.executeStep step) m₁ w₁ =
        ((.ok (.error err), m'), w') := by
  obtain ⟨p, m₀, w₀, completed, w₀', step, err, m', hprep, hget, -, -, -, hexec⟩ := h
  obtain ⟨-, -, -, hsteps⟩ := eq_of_prepare hprep
  exact ⟨_, step, err, m', hsteps ▸ hget, hexec⟩

theorem Fails.inv {I : World ρ → Prop}
    (h : Fails env cfg shardCount nodesPerShard clusterName w i m₁ w₁ w')
    (htold : ∀ w st n, I w → I { w with store := st, clock := n })
    (hsteps : ∀ q, ∀ step ∈ (steps cfg shardCount nodesPerShard clusterName q).take (i + 1),
      step.Keeps env.handler fun _ w' => I w') (hw : I w) : I w' := by
  have hw₁ : I w₁ := h.tries.inv htold (fun q step hstep =>
    hsteps q step (List.take_subset_take_left _ (Nat.le_succ i) hstep)) hw
  obtain ⟨q, step, err, m', hget, hexec⟩ := h.executeStep
  have hmem : step ∈ (steps cfg shardCount nodesPerShard clusterName q).take (i + 1) := by
    obtain ⟨hlt, rfl⟩ := List.getElem?_eq_some_iff.mp hget
    exact List.mem_take_iff_getElem.mpr ⟨i, by omega, rfl⟩
  have hI := Pipeline.executeStep_inv (hsteps q step hmem) (m := m₁) hw₁
  rwa [hexec] at hI

end Runs

/-! ### The tries of `create-containers` -/

section Tries

variable {m m' : Manager} {w' : World ρ} {err : String}

/-- **What the tries leave.** A cluster that had no container has none after the step has
failed exactly if none of the tries has left one. -/
theorem createContainers_leavesNone_iff
    (hnone : ∀ c ∈ w.podman.containers, ¬ c.OfCluster clusterName)
    (h : Session.exec env.handler (Pipeline.executeStep
      (createContainers cfg shardCount nodesPerShard clusterName)) m w =
        ((.ok (.error err), m'), w')) :
    (∀ c ∈ w'.podman.containers, ¬ c.OfCluster clusterName) ↔
      ∀ j < 2, LeavesNone env.podman cfg clusterName (shardCount * nodesPerShard)
        (Pipeline.beforeTry env.handler (createContainers cfg shardCount nodesPerShard clusterName)
          j m w).1.nodeManager
        (Pipeline.beforeTry env.handler (createContainers cfg shardCount nodesPerShard clusterName)
          j m w).2.podman := by
  have htwo : ((createContainers cfg shardCount nodesPerShard clusterName).retry + 1).toNat = 2 :=
    rfl
  obtain ⟨hend, htries⟩ := Pipeline.executeStep_failed h
  rw [htwo] at hend htries
  obtain ⟨err₀, htry₀⟩ := htries 0 (by omega)
  obtain ⟨err₁, htry₁⟩ := htries 1 (by omega)
  obtain ⟨err₀', hrun₀⟩ := createPods_of_error htry₀
  obtain ⟨err₁', hrun₁⟩ := createPods_of_error htry₁
  -- the second try goes on where the first has ended, and ends where the step ends
  have hlast : (Session.exec env.handler (createPodsForCluster cfg clusterName
      (shardCount * nodesPerShard)) (Pipeline.beforeTry env.handler
        (createContainers cfg shardCount nodesPerShard clusterName) 1 m w).1
      (Pipeline.beforeTry env.handler (createContainers cfg shardCount nodesPerShard clusterName)
        1 m w).2).2 = w' := congrArg Prod.snd hend
  rw [hlast] at hrun₁
  have hfirst := createPods_leavesNone_iff hnone hrun₀
  constructor
  · intro hleft
    -- what the first try leaves, the second one keeps
    have hmid : ∀ c ∈ (Pipeline.beforeTry env.handler
        (createContainers cfg shardCount nodesPerShard clusterName) 1 m w).2.podman.containers,
        ¬ c.OfCluster clusterName := by
      intro c hc
      have hkept : c ∈ ((createPods cfg (Pipeline.beforeTry env.handler
          (createContainers cfg shardCount nodesPerShard clusterName) 1 m w).1.nodeManager
          (shardCount * nodesPerShard) clusterName).run
            (podmanHandler env.podman) _).2.containers :=
        createPods_keeps hc _
      rw [hrun₁] at hkept
      exact hleft c hkept
    intro j hj
    obtain rfl | rfl : j = 0 ∨ j = 1 := by omega
    · exact hfirst.mp hmid
    · exact (createPods_leavesNone_iff hmid hrun₁).mp hleft
  · intro hnone'
    exact (createPods_leavesNone_iff (hfirst.mpr (hnone' 0 (by omega))) hrun₁).mpr
      (hnone' 1 (by omega))

end Tries

/-! ### When nothing is left -/

/-- What the rollback leaves when it finds the containers of the cluster. -/
theorem not_ofCluster_of_remaining (hfound : Found env clusterName w) :
    ∀ c ∈ remaining env clusterName w.podman, ¬ c.OfCluster clusterName := by
  rintro c hc ⟨i, hname⟩
  obtain ⟨hmem, hstay⟩ := List.mem_filter.mp hc
  refine of_decide_eq_true hstay (List.mem_filter.mpr ⟨?_, ?_⟩)
  · exact mem_listed.mpr ⟨c, hmem, Or.inl rfl, hfound c hmem ⟨i, hname⟩, rfl⟩
  · rw [hname]
    simpa using containerName_ne_empty clusterName i

theorem Fails.found (hnone : ∀ c ∈ w.podman.containers, ¬ c.OfCluster clusterName)
    (hnames : env.podman.ChecksNames) {i : ℕ} {m₁ : Manager} {w₁ w' : World ρ}
    (h : Fails env cfg shardCount nodesPerShard clusterName w i m₁ w₁ w') :
    Found env clusterName w' := by
  refine h.inv (I := Found env clusterName) (fun _ _ _ h => h) (fun q step _ m w hw => ?_) ?_
  · exact (Session.sends_true _).exec_inv (fun w c _ => Found.handler hnames w c) hw
  · exact fun c hc hof => absurd hof (hnone c hc)

/-- A file that has been created is left by a step that fails. -/
theorem LeavesFile.action {m₁ : Manager} {w₁ : World ρ}
    (h : LeavesFile env cfg clusterName m₁ w₁) :
    ∃ err w', Session.exec env.handler (persistConfig cfg clusterName).action m₁ w₁ =
      ((.error (.error err), m₁), w') := by
  rcases persistConfig_cases env cfg clusterName m₁ w₁ with
    ⟨err, w', hexec, -, -⟩ | ⟨w₂, hexec, -, hsent⟩
  · exact ⟨err, w', hexec⟩
  obtain ⟨w₃, hmem, ⟨err, herr⟩, -⟩ := h
  obtain rfl := (hsent w₃).mp hmem
  rw [hexec, exec_writeSettings]
  simp only [OpsEnv.handler, herr]
  exact ⟨_, _, rfl⟩

/-- **When a failed creation leaves nothing.** Each try of `create-containers`, if all of
them fail, is refused its first container or cleans up after a wait in vain; and
`persist-config` does not fail with the settings file created, or those settings were
there before. -/
theorem create_allOrNothing_iff (env : OpsEnv ρ) (cfg : RuntimeConfig)
    (shardCount nodesPerShard : ℤ) (clusterName : String) (w : World ρ)
    (hnone : ∀ c ∈ w.podman.containers, ¬ c.OfCluster clusterName)
    (hnames : env.podman.ChecksNames)
    (hroll : RollbackSucceeds env cfg shardCount nodesPerShard clusterName w) :
    AllOrNothing env cfg shardCount nodesPerShard clusterName w ↔
      (∀ m₁ w₁, Tries env cfg shardCount nodesPerShard clusterName w 1 m₁ w₁ →
        ContainersFail env cfg shardCount nodesPerShard clusterName m₁ w₁ →
        ∀ j < 2, LeavesNone env.podman cfg clusterName (shardCount * nodesPerShard)
          (Pipeline.beforeTry env.handler
            (createContainers cfg shardCount nodesPerShard clusterName) j m₁ w₁).1.nodeManager
          (Pipeline.beforeTry env.handler
            (createContainers cfg shardCount nodesPerShard clusterName) j m₁ w₁).2.podman) ∧
      ∀ m₁ w₁, Tries env cfg shardCount nodesPerShard clusterName w 6 m₁ w₁ →
        LeavesFile env cfg clusterName m₁ w₁ →
        w.files.settings (cfg.clusterRuntimeConfigPath clusterName) =
          some (settingsOf cfg m₁) := by
  -- the containers and the files are untouched until they are first written
  have hold : ∀ {m₁ w₁}, Tries env cfg shardCount nodesPerShard clusterName w 1 m₁ w₁ →
      ∀ c ∈ w₁.podman.containers, ¬ c.OfCluster clusterName := by
    intro m₁ w₁ htries
    have h := htries.inv (I := fun w' => w'.podman.containers = w.podman.containers ∧
      w'.files = w.files) (fun _ _ _ h => h) (fun q step hstep => by
        obtain rfl := List.mem_singleton.mp hstep
        exact validate_keeps _ _) ⟨rfl, rfl⟩
    rw [h.1]
    exact hnone
  have hfiles : ∀ {m₁ w₁}, Tries env cfg shardCount nodesPerShard clusterName w 6 m₁ w₁ →
      w₁.files = w.files := fun htries =>
    htries.inv (I := fun w' => w'.files = w.files) (fun _ _ _ h => h)
      (fun q step hstep => files_kept hstep) rfl
  constructor
  · intro hall
    refine ⟨fun m₁ w₁ htries hcontainers => ?_, fun m₁ w₁ htries hleaves => ?_⟩
    · obtain ⟨err, m', w', hexec⟩ := hcontainers
      refine (createContainers_leavesNone_iff (hold htries) hexec).mp ?_
      obtain ⟨err', w'', hinvoke, hsame, -⟩ :=
        (htries.fails (fun q => rfl) hexec).invoke hroll
      rw [← (hsame (by omega)).1]
      exact (hall err' w'' hinvoke).1
    · obtain ⟨err, w', haction⟩ := hleaves.action
      obtain ⟨err', hexec⟩ := Pipeline.executeStep_of_error rfl haction
      obtain ⟨err'', w'', hinvoke, -, hrest⟩ :=
        (htries.fails (fun q => rfl) hexec).invoke hroll
      have hleft := (persistConfig_failed haction).1 hleaves
      have hafter := (hall err'' w'' hinvoke).2
      rw [(hrest (by omega)).2.1 (by omega), hleft] at hafter
      exact (hafter.resolve_left nofun).symm
  · rintro ⟨hcontainers, hsettings⟩ err w'' hinvoke
    rcases fails_of_error hinvoke with rfl | ⟨i, m₁, w₁, w', hfails⟩
    · exact ⟨hnone, Or.inr rfl⟩
    obtain ⟨err', w₂, hinvoke', hearly, hlate⟩ := hfails.invoke hroll
    cases hinvoke.symm.trans hinvoke'
    refine ⟨?_, ?_⟩
    · rcases Nat.lt_or_ge i 2 with hi | hi
      · rw [(hearly hi).1]
        obtain rfl | rfl : i = 0 ∨ i = 1 := by omega
        · have h := hfails.inv (I := fun w' => w'.podman.containers = w.podman.containers ∧
            w'.files = w.files) (fun _ _ _ h => h) (fun q step hstep => by
              obtain rfl := List.mem_singleton.mp hstep
              exact validate_keeps _ _) ⟨rfl, rfl⟩
          rw [h.1]
          exact hnone
        · obtain ⟨q, step, err', m', hget, hexec⟩ := hfails.executeStep
          obtain rfl : createContainers cfg shardCount nodesPerShard clusterName = step :=
            Option.some.inj hget
          exact (createContainers_leavesNone_iff (hold hfails.tries) hexec).mpr
            (hcontainers m₁ w₁ hfails.tries ⟨err', m', w', hexec⟩)
      · rw [(hlate hi).1]
        exact not_ofCluster_of_remaining (hfails.found hnone hnames)
    · rcases Nat.lt_trichotomy i 6 with hi | rfl | hi
      · have hsame : w'.files = w.files := hfails.inv (I := fun w' => w'.files = w.files)
          (fun _ _ _ h => h) (fun q step hstep =>
            files_kept (List.take_subset_take_left _ (by omega) hstep)) rfl
        refine Or.inr ?_
        rcases Nat.lt_or_ge i 2 with hi' | hi'
        · rw [(hearly hi').2, hsame]
        · rw [(hlate hi').2.1 (by omega), hsame]
      · obtain ⟨q, step, err', m', hget, hexec⟩ := hfails.executeStep
        obtain rfl : persistConfig cfg clusterName = step := Option.some.inj hget
        obtain ⟨err₁, haction⟩ := Pipeline.action_of_executeStep_error rfl hexec
        obtain ⟨hleft, hnot⟩ := persistConfig_failed haction
        rw [(hlate (by omega)).2.1 (Nat.le_refl 6)]
        by_cases hleaves : LeavesFile env cfg clusterName m₁ w₁
        · rw [hleft hleaves, hsettings m₁ w₁ hfails.tries hleaves]
          exact Or.inr rfl
        · rw [← hfiles hfails.tries]
          exact hnot hleaves
      · exact Or.inl ((hlate (by omega)).2.2 hi)

/-! ### Podman that cannot run containers -/

/-- Podman that starts none of the containers `refused`. -/
def refusingPodman (refused : String → Bool) : PodmanEnv where
  regex := dotMatch
  error _
    | .run spec =>
      if refused spec.name then some "no space left on device"
      else if spec.name.toList.all nameChar then none else some "invalid name"
    | _ => none
  create _ spec :=
    { name := spec.name, id := spec.name, ip := "10.88.0.9", ports := [(6379, 40009)] }
  create_name := Scale.readyPodman.create_name

theorem refusingPodman_checksNames (refused : String → Bool) :
    (refusingPodman refused).ChecksNames where
  regex _ _ _ := rfl
  run n spec := by
    rintro ⟨c, hc, hbad⟩ (h | h)
    · simp only [refusingPodman] at h
      split at h
      · cases h
      split at h
      · rename_i hall
        exact hbad (List.all_eq_true.mp hall c hc)
      · cases h
    · cases h

def refusingEnv (refused : String → Bool) : OpsEnv Unit :=
  { Scale.aloofEnv with podman := refusingPodman refused }

/-- A host without containers. -/
def bareWorld : World Unit where
  podman := { containers := [] }
  redis := ()

theorem refuses_of_refused (n : ℕ) (s : PodmanState) :
    Refuses (refusingEnv fun _ => true).podman plainConfig "a" n s :=
  Or.inr (Or.inr (by rintro (h | h) <;> cases h))

/-- When no container can be run, `create-containers` is not passed. -/
theorem not_tries_of_refused {i : ℕ} (hi : 2 ≤ i) {m₁ : Manager} {w₁ : World Unit} :
    ¬ Tries (refusingEnv fun _ => true) plainConfig 1 2 "a" bareWorld i m₁ w₁ := by
  intro h
  obtain ⟨p, n, completed, w', step, hprep, -, -, -, hbefore, -, -⟩ := h.pipeline
  obtain ⟨rfl, -, -⟩ := prepare_ok (fun _ _ => rfl) (by decide) hprep
  obtain ⟨k, rfl⟩ : ∃ k, i = k + 2 := ⟨i - 2, by omega⟩
  obtain ⟨_, m₂, w₂, m₃, w₃, -, hexec, -⟩ := Pipeline.Completes.at_step
    [validate plainConfig 1 2 "a"] hbefore
    (show ¬ (fun _ => false) (createContainers plainConfig 1 2 "a").name from by decide) (by decide)
  obtain ⟨j, -, haction, -⟩ := Pipeline.executeStep_ok hexec
  generalize Pipeline.beforeTry _ _ j m₂ _ = before at haction
  obtain ⟨m₄, w₄⟩ := before
  obtain ⟨err, s', hrun, -⟩ := (refuses_of_refused (m₄.nodeManager.num + 1) w₄.podman).run
    (show 0 < ((1 : ℤ) * 2).toNat by decide) (m₄.nodeManager.num + 1) m₄.nodeManager
  have hfails := exec_createPodsForCluster (refusingEnv fun _ => true) m₄ w₄ plainConfig "a" (1 * 2)
  rw [createPods, hrun] at hfails
  cases hfails.symm.trans haction

/-- When no container can be run, nothing is left. -/
theorem allOrNothing_of_refused :
    AllOrNothing (refusingEnv fun _ => true) plainConfig 1 2 "a" bareWorld := by
  refine (create_allOrNothing_iff (refusingEnv fun _ => true) plainConfig 1 2 "a" bareWorld
    nofun (refusingPodman_checksNames fun _ => true) ?_).mpr ⟨?_, ?_⟩
  · intro p m₀ w₀ i completed' m' w' step hprep hfail hget x hx
    have hi : i < 2 := by
      by_contra hi
      obtain ⟨step', m₁, w₁, err, hget', hbefore, hnot, -⟩ := hfail
      exact not_tries_of_refused (Nat.not_lt.mp hi)
        ⟨p, m₀, w₀, completed', w₁, step', hprep, hget', hbefore, hnot, rfl⟩
    obtain ⟨rfl, -, -⟩ := prepare_ok (fun _ _ => rfl) (by decide) hprep
    rw [rollback_of_lt hi] at hx
    cases hx
  · intro m₁ w₁ _ _ j _
    exact Or.inl (refuses_of_refused _ _)
  · intro m₁ w₁ htries
    exact absurd htries (not_tries_of_refused (by omega))

/-- The second container cannot be run, and the first one stays. -/
theorem not_allOrNothing_of_failed_run :
    (∀ n c, (∀ spec, c ≠ .run spec) → (refusingEnv (· = "a-redis-2")).podman.error n c = none) ∧
      ¬ AllOrNothing (refusingEnv (· = "a-redis-2")) plainConfig 1 2 "a" bareWorld := by
  refine ⟨fun n c hc => ?_, fun hall => ?_⟩
  · rcases c with _ | _ | _ | _ | spec | _ | _ | _ | _ <;> first | rfl | exact absurd rfl (hc spec)
  have herr : returnsError ((refusingEnv (· = "a-redis-2")).invoke
      (createClusterAction plainConfig 1 2 "a") bareWorld).1 := by decide +kernel
  have hleft : ((refusingEnv (· = "a-redis-2")).invoke
      (createClusterAction plainConfig 1 2 "a") bareWorld).2.podman.containers.map Container.name =
        ["a-redis-1"] := by decide +kernel
  unfold AllOrNothing at hall
  generalize (refusingEnv (· = "a-redis-2")).invoke (createClusterAction plainConfig 1 2 "a")
    bareWorld = r at hall herr hleft
  obtain ⟨err, herr⟩ := returnsError_iff.mp herr
  have hmem : "a-redis-1" ∈ r.2.podman.containers.map Container.name := by
    rw [hleft]
    exact List.mem_singleton_self _
  obtain ⟨c, hc, hname⟩ := List.mem_map.mp hmem
  exact (hall err r.2 (Prod.ext herr rfl)).1 c hc ⟨1, hname⟩

end Create

end ClusterManager
