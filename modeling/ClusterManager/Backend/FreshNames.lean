import Mathlib.Data.Fintype.EquivFin
import ClusterManager.Backend.Leftovers

/-!
# The names of new containers

A container of a cluster is called `<cluster>-redis-<i>`. Nothing records which indices are in
use: `CreatePods` goes on after the *number* of nodes that are tracked, and that number is what
`ListPodsByCluster` has left there. The listing asks podman for the running containers only, and
skips a container whose address, port or ID is not told. So the number it ends with is the number
of containers that run and are told (`foundPods`), and the next index is the one after it,
whatever the indices of these containers are.

As long as the containers of a cluster are `1, …, k` and all of them are found, the index after
`k` is free. When one of them has stopped, or has been removed, the number falls behind the
greatest index, and the next index is the index of a container that is there. The names are fresh
exactly if none of the indices after that number is taken (`freshNames_iff`), which is a condition
on the containers and on what podman tells of them.
-/

namespace ClusterManager

section Listing

variable {env : PodmanEnv} {cfg : RuntimeConfig} {clusterName : String} {s : PodmanState}

/-! ### What a listing is told -/

/-- What podman is asked about a container that it has listed. -/
def inquiries (port : ℕ) (name : String) : List PodmanCmd :=
  [.inspectIP name, .port name port, .inspectID name]

/-- What podman has on a container is enough for the listing: an address, and a host port that
is one. -/
def PodmanState.shows (s : PodmanState) (port : ℕ) (name : String) : Bool :=
  (s.find name).any fun c => c.ip ≠ "<nil>" ∧ (c.ports.lookup port).any (· < 2 ^ 16)

/-- The names of the running containers that match a pattern. -/
def PodmanState.runningNames (s : PodmanState) (regex : String → String → Bool)
    (pattern : String) : List String :=
  (s.containers.filter fun c => c.running && regex pattern c.name).map Container.name

/-- The number of containers that a listing of the cluster finds, if podman tells of the
containers in `told`. -/
def foundPods (regex : String → String → Bool) (told : String → Bool) (cfg : RuntimeConfig)
    (clusterName : String) (s : PodmanState) : ℕ :=
  ((s.runningNames regex (clusterName ++ "-redis")).filter fun name =>
    name ≠ "" ∧ told name ∧ s.shows cfg.redisContainerPort.toNat name).length

/-- Of a container in `told`, podman tells what it is asked. Of another one there is something
it does not tell. -/
def Tells (env : PodmanEnv) (asked : List (PodmanCmd × PodmanState)) (told : String → Bool)
    (port : ℕ) (name : String) : Prop :=
  if told name then ∀ x ∈ asked, x.1 ∈ inquiries port name → env.error x.2.clock x.1 = none
  else ∃ c ∈ inquiries port name, ∀ x ∈ asked, x.1 = c → env.error x.2.clock x.1 ≠ none

/-- The questions about one container, up to the first that is not answered. -/
def inspectPod (port : ℕ) (name : String) :
    PodmanProgram (Option (String × UInt16 × String)) := do
  match ← getContainerIP name with
  | .error _ => return none
  | .ok ip =>
    match ← getContainerHostPort name port with
    | .error _ => return none
    | .ok hostPort =>
      match ← getContainerFullID name with
      | .error _ => return none
      | .ok fullID => return some (ip, hostPort, fullID)

/-- A pass of the listing asks its questions, and tracks the container if it has the answers. -/
theorem trackListed_cons {name : String} (hname : name ≠ "") (rest : List String)
    (base : BaseNodeManager) :
    trackListed cfg clusterName (name :: rest) base =
      (do match ← inspectPod cfg.redisContainerPort.toNat name with
        | none => trackListed cfg clusterName rest base
        | some (ip, hostPort, fullID) =>
          trackListed cfg clusterName rest
            (base.addNode (listedNode cfg clusterName name ip fullID hostPort))) := by
  rw [trackListed, if_neg hname, inspectPod, bind_assoc]
  refine congrArg (getContainerIP name >>= ·) (funext fun r => ?_)
  rcases r with err | ip
  · rfl
  simp only [bind_assoc]
  refine congrArg (getContainerHostPort name _ >>= ·) (funext fun r => ?_)
  rcases r with err | hostPort
  · rfl
  simp only [bind_assoc]
  refine congrArg (getContainerFullID name >>= ·) (funext fun r => ?_)
  rcases r with err | fullID <;> rfl

theorem inspectPod_asks (port : ℕ) (name : String) :
    (inspectPod port name).Sends (· ∈ inquiries port name) := by
  refine Program.Sends.bind ?_ fun r => ?_
  · refine Program.Sends.bind (Program.Sends.send (by simp [inquiries])) fun r => ?_
    split
    · trivial
    · split <;> trivial
  split
  · trivial
  refine Program.Sends.bind ?_ fun r => ?_
  · refine Program.Sends.bind (Program.Sends.send (by simp [inquiries])) fun r => ?_
    split
    · trivial
    · split
      · trivial
      · split <;> trivial
  split
  · trivial
  refine Program.Sends.bind (Program.Sends.send (by simp [inquiries])) fun r => ?_
  split <;> trivial

theorem reads_of_mem_inquiries {port : ℕ} {name : String} {c : PodmanCmd}
    (hc : c ∈ inquiries port name) : c.Reads := by
  simp only [inquiries, List.mem_cons, List.not_mem_nil, or_false] at hc
  rcases hc with rfl | rfl | rfl <;> trivial

/-- The line in which podman tells a host port ends with it. -/
theorem afterLast_portLine (hostPort : ℕ) :
    Text.afterLast ':' ("0.0.0.0:" ++ toString hostPort) = some (toString hostPort) :=
  Text.afterLast_ends (a := "0.0.0.0") (by decide) (Text.notMem_toString (by decide) _)

theorem getContainerIP_isOk_iff (env : PodmanEnv) (s : PodmanState) (ref : String) :
    ((getContainerIP ref).run (podmanHandler env) s).1.isOk ↔
      env.error s.clock (.inspectIP ref) = none ∧ ∃ c, s.find ref = some c ∧ c.ip ≠ "<nil>" := by
  rw [getContainerIP, Program.run_bind, Program.run_send, podmanHandler]
  rcases env.error s.clock (.inspectIP ref) with _ | err
  · simp only [PodmanState.reply]
    rcases s.find ref with _ | c
    · simp [Except.isOk, Except.toBool]
    · by_cases hip : c.ip = "<nil>" <;> simp [hip, Except.isOk, Except.toBool]
  · simp [PodmanState.failure, Except.isOk, Except.toBool]

theorem getContainerHostPort_isOk_iff (env : PodmanEnv) (s : PodmanState) (ref : String)
    (port : ℕ) :
    ((getContainerHostPort ref port).run (podmanHandler env) s).1.isOk ↔
      env.error s.clock (.port ref port) = none ∧
        ∃ c, s.find ref = some c ∧ (c.ports.lookup port).any (· < 2 ^ 16) := by
  rw [getContainerHostPort, Program.run_bind, Program.run_send, podmanHandler]
  rcases env.error s.clock (.port ref port) with _ | err
  · simp only [PodmanState.reply]
    rcases s.find ref with _ | c
    · simp [Except.isOk, Except.toBool]
    simp only [Option.bind_some]
    rcases hport : c.ports.lookup port with _ | hostPort
    · simp [hport, Except.isOk, Except.toBool]
    dsimp only
    rw [afterLast_portLine]
    dsimp only
    rw [Text.parseUint_toString]
    by_cases hlt : hostPort < 2 ^ 16
    · rw [if_pos hlt]
      exact iff_of_true rfl ⟨trivial, c, rfl, by rw [hport]; exact decide_eq_true hlt⟩
    · rw [if_neg hlt]
      refine iff_of_false (fun h => by cases h) ?_
      rintro ⟨-, c', hc', hbound⟩
      cases hc'
      rw [hport] at hbound
      exact hlt (of_decide_eq_true hbound)
  · simp [PodmanState.failure, Except.isOk, Except.toBool]

theorem getContainerFullID_isOk_iff (env : PodmanEnv) (s : PodmanState) (ref : String) :
    ((getContainerFullID ref).run (podmanHandler env) s).1.isOk ↔
      env.error s.clock (.inspectID ref) = none ∧ ∃ c, s.find ref = some c := by
  rw [getContainerFullID, Program.run_send, podmanHandler]
  rcases env.error s.clock (.inspectID ref) with _ | err
  · simp only [PodmanState.reply]
    rcases s.find ref with _ | c <;> simp [Except.isOk, Except.toBool]
  · simp [PodmanState.failure, Except.isOk, Except.toBool]

theorem run_getContainerIP_of_find {ref : String} {c : Container}
    (hok : env.error s.clock (.inspectIP ref) = none) (hfind : s.find ref = some c)
    (hip : c.ip ≠ "<nil>") : (getContainerIP ref).run (podmanHandler env) s =
      (.ok c.ip, { s with clock := s.clock + 1 }) := by
  rw [getContainerIP, Program.run_bind, Program.run_send, podmanHandler_of_ok hok]
  simp only [PodmanState.reply, hfind, if_neg hip]
  rfl

theorem run_getContainerHostPort_of_find {ref : String} {c : Container} {port hostPort : ℕ}
    (hok : env.error s.clock (.port ref port) = none) (hfind : s.find ref = some c)
    (hport : c.ports.lookup port = some hostPort) (hlt : hostPort < 2 ^ 16) :
    (getContainerHostPort ref port).run (podmanHandler env) s =
      (.ok (UInt16.ofNat hostPort), { s with clock := s.clock + 1 }) := by
  rw [getContainerHostPort, Program.run_bind, Program.run_send, podmanHandler_of_ok hok]
  simp only [PodmanState.reply, hfind, Option.bind_some, hport, afterLast_portLine,
    Text.parseUint_toString, if_pos hlt]
  rfl

/-- A container that has what it needs gets ready at the first look. -/
theorem run_waitReady_of_find {ref : String} {c : Container} {port hostPort : ℕ}
    (hfind : s.find ref = some c) (hip : c.ip ≠ "" ∧ c.ip ≠ "<nil>")
    (hport : c.ports.lookup port = some hostPort) (hbound : 0 < hostPort ∧ hostPort < 2 ^ 16)
    (hok : ∀ k, env.error k (.inspectIP ref) = none ∧ env.error k (.port ref port) = none)
    (htime : ∀ k, env.expired k = false ∧ env.ctxDone k = none) (k : ℕ) :
    (waitReady ref port (k + 1)).run (podmanHandler env) s =
      (.ready c.ip (UInt16.ofNat hostPort), { s with clock := s.clock + 4 }) := by
  have hne : UInt16.ofNat hostPort ≠ 0 := by
    intro h
    have hnat := congrArg UInt16.toNat h
    rw [UInt16.toNat_ofNat_of_lt' hbound.2] at hnat
    exact absurd hnat hbound.1.ne'
  have hlater : ∀ k, ({ s with clock := k } : PodmanState).find ref = some c := fun _ => hfind
  rw [waitReady, Program.run_bind, Program.run_send, podmanHandler_deadline, (htime _).1,
    podmanHandler_snd_of_reads env s (c := .deadline) trivial]
  simp only [Bool.false_eq_true, if_false, Program.run_bind, Program.run_send]
  rw [podmanHandler_ctxDone, (htime _).2, podmanHandler_snd_of_reads env _ (c := .ctxDone) trivial]
  dsimp only
  rw [Program.run_bind, run_getContainerIP_of_find (hok _).1 (hlater _) hip.2]
  dsimp only
  rw [if_neg hip.1, Program.run_bind,
    run_getContainerHostPort_of_find (hok _).2 (hlater _) hport hbound.2]
  dsimp only
  rw [if_neg hne]
  rfl

theorem shows_iff {port : ℕ} {name : String} : s.shows port name ↔
    ∃ c, s.find name = some c ∧ c.ip ≠ "<nil>" ∧ (c.ports.lookup port).any (· < 2 ^ 16) := by
  rw [PodmanState.shows, Option.any_eq_true]
  simp only [decide_eq_true_iff]

/-- The questions about a container come one after the other, and nothing changes meanwhile. -/
theorem inspectPod_spec (env : PodmanEnv) (port : ℕ) (name : String) (s : PodmanState) :
    (((inspectPod port name).run (podmanHandler env) s).1.isSome ∧ s.shows port name ∧
      ∀ c ∈ inquiries port name, ∃ x ∈ (inspectPod port name).trace (podmanHandler env) s,
        x.1 = c ∧ env.error x.2.clock x.1 = none) ∨
    (((inspectPod port name).run (podmanHandler env) s).1 = none ∧ (s.shows port name →
      ∃ x ∈ (inspectPod port name).trace (podmanHandler env) s,
        env.error x.2.clock x.1 ≠ none)) := by
  have hip := getContainerIP_isOk_iff env s name
  have hip_trace : (.inspectIP name, s) ∈ (getContainerIP name).trace (podmanHandler env) s :=
    List.mem_cons_self
  have hip_find : ((getContainerIP name).run (podmanHandler env) s).2.find name = s.find name :=
    find_congr (containers_run_of_reads (getContainerIP_reads name)) name
  rw [inspectPod, Program.run_bind, Program.trace_bind]
  generalize (getContainerIP name).run (podmanHandler env) s = r at hip hip_find ⊢
  rcases r with ⟨err | ip, s₁⟩
  · refine Or.inr ⟨rfl, fun hshows => ⟨_, List.mem_append_left _ hip_trace, fun herr => ?_⟩⟩
    obtain ⟨c, hc, hne, -⟩ := shows_iff.mp hshows
    cases hip.mpr ⟨herr, c, hc, hne⟩
  obtain ⟨hip_error, c, hc, hne⟩ := hip.mp rfl
  dsimp only at hip_find ⊢
  have hport := getContainerHostPort_isOk_iff env s₁ name port
  have hport_trace : (.port name port, s₁) ∈
      (getContainerHostPort name port).trace (podmanHandler env) s₁ := List.mem_cons_self
  have hport_find : ((getContainerHostPort name port).run (podmanHandler env) s₁).2.find name =
      s₁.find name :=
    find_congr (containers_run_of_reads (getContainerHostPort_reads name port)) name
  rw [hip_find, hc] at hport
  rw [Program.run_bind, Program.trace_bind]
  generalize (getContainerHostPort name port).run (podmanHandler env) s₁ = r at hport hport_find ⊢
  rcases r with ⟨err | hostPort, s₂⟩
  · refine Or.inr ⟨rfl, fun hshows => ⟨_, List.mem_append_right _
      (List.mem_append_left _ hport_trace), fun herr => ?_⟩⟩
    obtain ⟨c', hc', -, hbound⟩ := shows_iff.mp hshows
    cases hport.mpr ⟨herr, c', hc.symm.trans hc', hbound⟩
  obtain ⟨hport_error, c', hc', hbound⟩ := hport.mp rfl
  cases hc'
  dsimp only at hport_find ⊢
  have hid := getContainerFullID_isOk_iff env s₂ name
  have hid_trace : (.inspectID name, s₂) ∈
      (getContainerFullID name).trace (podmanHandler env) s₂ := List.mem_cons_self
  rw [hport_find, hip_find, hc] at hid
  rw [Program.run_bind, Program.trace_bind]
  generalize (getContainerFullID name).run (podmanHandler env) s₂ = r at hid ⊢
  rcases r with ⟨err | fullID, s₃⟩
  · refine Or.inr ⟨rfl, fun _ => ⟨_, List.mem_append_right _ (List.mem_append_right _
      (List.mem_append_left _ hid_trace)), fun herr => ?_⟩⟩
    cases hid.mpr ⟨herr, c, rfl⟩
  refine Or.inl ⟨rfl, shows_iff.mpr ⟨c, hc, hne, hbound⟩, fun q hq => ?_⟩
  simp only [inquiries, List.mem_cons, List.not_mem_nil, or_false] at hq
  rcases hq with rfl | rfl | rfl
  · exact ⟨_, List.mem_append_left _ hip_trace, rfl, hip_error⟩
  · exact ⟨_, List.mem_append_right _ (List.mem_append_left _ hport_trace), rfl, hport_error⟩
  · exact ⟨_, List.mem_append_right _ (List.mem_append_right _
      (List.mem_append_left _ hid_trace)), rfl, (hid.mp rfl).1⟩

/-- **A container is found** if podman tells of it and what it has is enough. -/
theorem inspectPod_isSome_iff {asked : List (PodmanCmd × PodmanState)} {told : String → Bool}
    {port : ℕ} {name : String} (htells : Tells env asked told port name)
    (hasked : (inspectPod port name).trace (podmanHandler env) s ⊆ asked) :
    ((inspectPod port name).run (podmanHandler env) s).1.isSome ↔
      told name ∧ s.shows port name := by
  rw [Tells] at htells
  rcases inspectPod_spec env port name s with ⟨hsome, hshows, hall⟩ | ⟨hnone, hfail⟩
  · refine iff_of_true hsome ⟨?_, hshows⟩
    by_contra htold
    rw [if_neg htold] at htells
    obtain ⟨c, hc, hsilent⟩ := htells
    obtain ⟨x, hx, rfl, hok⟩ := hall c hc
    exact hsilent x (hasked hx) rfl hok
  · rw [hnone]
    refine iff_of_false nofun ?_
    rintro ⟨htold, hshows⟩
    rw [if_pos htold] at htells
    obtain ⟨x, hx, herr⟩ := hfail hshows
    exact herr (htells x (hasked hx) ((inspectPod_asks port name).trace x hx))

/-- **The listing counts what it finds.** -/
theorem num_trackListed {asked : List (PodmanCmd × PodmanState)} {told : String → Bool}
    {s₁ : PodmanState} (hs₁ : s₁.containers = s.containers) (names : List String)
    (base : BaseNodeManager)
    (htells : ∀ name ∈ names, Tells env asked told cfg.redisContainerPort.toNat name)
    (hasked : (trackListed cfg clusterName names base).trace (podmanHandler env) s₁ ⊆ asked) :
    ((trackListed cfg clusterName names base).run (podmanHandler env) s₁).1.num =
      base.num + (names.filter fun name =>
        name ≠ "" ∧ told name ∧ s.shows cfg.redisContainerPort.toNat name).length := by
  induction names generalizing s₁ base with
  | nil => rfl
  | cons name names ih =>
    have htells' := fun x hx => htells x (List.mem_cons_of_mem name hx)
    by_cases hname : name = ""
    · rw [List.filter_cons_of_neg (by simp [hname])]
      rw [trackListed, if_pos hname] at hasked ⊢
      exact ih hs₁ _ htells' hasked
    rw [trackListed_cons hname, Program.trace_bind] at hasked
    rw [trackListed_cons hname, Program.run_bind]
    obtain ⟨hask, hasked⟩ := List.append_subset.mp hasked
    have hfound := inspectPod_isSome_iff (htells name List.mem_cons_self) hask
    have hs₂ : ((inspectPod cfg.redisContainerPort.toNat name).run
        (podmanHandler env) s₁).2.containers = s.containers :=
      (containers_run_of_reads ((inspectPod_asks _ name).mono
        fun _ h => reads_of_mem_inquiries h)).trans hs₁
    have hshows : s₁.shows cfg.redisContainerPort.toNat name =
        s.shows cfg.redisContainerPort.toNat name := by
      rw [PodmanState.shows, PodmanState.shows, find_congr hs₁]
    rw [hshows] at hfound
    generalize (inspectPod cfg.redisContainerPort.toNat name).run (podmanHandler env) s₁ = r
      at hasked hfound hs₂ ⊢
    rcases r with ⟨_ | ⟨ip, hostPort, fullID⟩, s₂⟩
    · have hout : ¬ (told name ∧ s.shows cfg.redisContainerPort.toNat name) :=
        fun h => by cases hfound.mpr h
      rw [List.filter_cons_of_neg (by simpa [hname] using hout)]
      exact ih hs₂ _ htells' hasked
    · rw [List.filter_cons_of_pos (by simpa [hname] using hfound.mp rfl), List.length_cons,
        Nat.add_comm _ 1, ← Nat.add_assoc]
      exact ih hs₂ _ htells' hasked

end Listing

/-! ### Names that are free -/

section Fresh

variable {regex : String → String → Bool} {told : String → Bool} {cfg : RuntimeConfig}
  {clusterName : String} {n : ℤ} {s : PodmanState}

/-- **New containers get fresh names.** Podman matches names by `regex`, tells of the containers
in `told` when the cluster is listed, and does whatever it does else, at any time. After a listing
of the cluster, a call of `CreatePods` for `n` containers hands no name to `podman run` that a
container has already. -/
def FreshNames (regex : String → String → Bool) (told : String → Bool) (cfg : RuntimeConfig)
    (clusterName : String) (n : ℤ) (s : PodmanState) : Prop :=
  ∀ (env : PodmanEnv) (base base' : BaseNodeManager) (s' : PodmanState), env.regex = regex →
    (∀ name ∈ s.runningNames regex (clusterName ++ "-redis"),
      Tells env ((listPodsByCluster cfg base clusterName).trace (podmanHandler env) s) told
        cfg.redisContainerPort.toNat name) →
    (listPodsByCluster cfg base clusterName).run (podmanHandler env) s = ((.ok (), base'), s') →
    ∀ x ∈ (createPods cfg base' n clusterName).trace (podmanHandler env) s', ∀ spec,
      x.1 = .run spec → spec.name ∉ s.containers.map Container.name

theorem listed_eq_runningNames (env : PodmanEnv) (pattern : String) :
    s.listed env false pattern = s.runningNames env.regex pattern := by
  simp [PodmanState.listed, PodmanState.runningNames]

/-- A listing that succeeds leaves the number of the containers it has found. -/
theorem num_listPodsByCluster {env : PodmanEnv} {base base' : BaseNodeManager} {s' : PodmanState}
    (htells : ∀ name ∈ s.runningNames env.regex (clusterName ++ "-redis"),
      Tells env ((listPodsByCluster cfg base clusterName).trace (podmanHandler env) s) told
        cfg.redisContainerPort.toNat name)
    (hrun : (listPodsByCluster cfg base clusterName).run (podmanHandler env) s =
      ((.ok (), base'), s')) :
    base'.num = foundPods env.regex told cfg clusterName s := by
  have hs₁ := podmanHandler_reads env s (c := .ps false (clusterName ++ "-redis")) trivial
  have hnames : ∀ names, (podmanHandler env s (.ps false (clusterName ++ "-redis"))).1 = .ok names →
      names = s.runningNames env.regex (clusterName ++ "-redis") := by
    intro names h
    rw [podmanHandler] at h
    split at h
    · exact (Except.ok.inj h).symm.trans (listed_eq_runningNames env _)
    · cases h
  -- what the passes ask is asked by the listing
  have hasked : ∀ names, (podmanHandler env s (.ps false (clusterName ++ "-redis"))).1 = .ok names →
      (trackListed cfg clusterName names base.resetMaps).trace (podmanHandler env)
          (podmanHandler env s (.ps false (clusterName ++ "-redis"))).2 ⊆
        (listPodsByCluster cfg base clusterName).trace (podmanHandler env) s := by
    intro names h x hx
    rw [listPodsByCluster, Program.trace_bind, Program.run_send, h]
    exact List.mem_append_right _ (by
      rw [Program.trace_bind]
      exact List.mem_append_left _ hx)
  rw [listPodsByCluster, Program.run_bind, Program.run_send] at hrun
  rcases hps : (podmanHandler env s (.ps false (clusterName ++ "-redis"))).1 with err | names
  · rw [hps] at hrun
    cases hrun
  rw [hps] at hrun
  dsimp only at hrun
  rw [Program.run_bind] at hrun
  have hcount := num_trackListed hs₁ names base.resetMaps
    (fun name hname => htells name (hnames names hps ▸ hname)) (hasked names hps)
  rw [hnames names hps] at hcount hrun
  cases hrun
  exact hcount.trans (Nat.zero_add _)

/-- The names are fresh if the indices after the number of found containers are free. -/
theorem freshNames_of_free
    (hfree : ∀ i, foundPods regex told cfg clusterName s < i →
      i ≤ foundPods regex told cfg clusterName s + n.toNat →
      containerName clusterName i ∉ s.containers.map Container.name) :
    FreshNames regex told cfg clusterName n s := by
  rintro env base base' s' rfl htells hrun x hx spec hspec
  have hnum := num_listPodsByCluster htells hrun
  have hruns : (createPods cfg base' n clusterName).Sends fun cmd => ∀ spec, cmd = .run spec →
      spec.name ∉ s.containers.map Container.name := by
    refine createPodsFrom_sends (fun cmd hcmd spec h => ?_) (fun i hi spec h => ?_)
      (fun _ _ => nofun) _
    · subst h
      exact hcmd.elim
    · cases h
      obtain ⟨k, hk, rfl⟩ := List.mem_map.mp hi
      rw [List.mem_range] at hk
      exact hfree _ (by omega) (by omega)
  exact hruns.trace x hx spec hspec

/-! ### A call that gets to an index -/

/-- After containers that got ready, the loop asks for what it asks for from there on. -/
theorem PodsReady.trace_subset {env : PodmanEnv} {l : List ℕ} {s' : PodmanState}
    (h : PodsReady env cfg clusterName l s s') (start : ℕ) (rest : List ℕ)
    (base : BaseNodeManager) :
    ∃ base', (createPodsFrom cfg clusterName start rest base').trace (podmanHandler env) s' ⊆
      (createPodsFrom cfg clusterName start (l ++ rest) base).trace (podmanHandler env) s := by
  induction h generalizing base with
  | nil => exact ⟨base, List.Subset.refl _⟩
  | @cons i l id ip hostPort s s₁ s₂ s' hstart hwait _ ih =>
    obtain ⟨base', hsub⟩ :=
      ih (addRuntimeNode base (createdNode cfg clusterName i id ip hostPort))
    refine ⟨base', fun x hx => ?_⟩
    rw [List.cons_append, createPodsFrom_eq, Program.trace_bind, hstart]
    refine List.mem_append_right _ ?_
    dsimp only
    rw [Program.trace_bind, hwait]
    exact List.mem_append_right _ (hsub hx)

/-- Podman that creates what it is asked for, gives every container the same ID and a usable
address, and keeps the addresses of the containers outside `told` to itself. -/
def eagerPodman (regex : String → String → Bool) (told : String → Bool) (names : List String)
    (id : String) (port : ℕ) : PodmanEnv where
  regex := regex
  error _ c := match c with
    | .inspectIP ref => if ref ∈ names ∧ ¬ told ref then some "no address" else none
    | _ => none
  create _ spec := { name := spec.name, id := id, ip := "10.88.0.9", ports := [(port, 40001)] }

/-- A container that goes by the ID has what a container needs to get ready. -/
def Usable (id : String) (port : ℕ) (s : PodmanState) : Prop :=
  ∀ c ∈ s.containers, c.name = id ∨ c.id = id →
    c.ip = "10.88.0.9" ∧ c.ports.lookup port = some 40001

section Eager

variable (regex told cfg) {names : List String} {id : String} {port : ℕ}

variable (names id port) in
/-- Such a podman starts a container under a name that is free. -/
theorem run_startPod_eager {i : ℕ}
    (hnew : containerName clusterName i ∉ s.containers.map Container.name) :
    (startPod cfg clusterName i).run (podmanHandler (eagerPodman regex told names id port)) s =
      (.ok id,
        { containers := s.containers ++
            [(eagerPodman regex told names id port).create 0 (runSpec cfg clusterName i)]
          clock := s.clock + 3 }) := by
  have hname : (runSpec cfg clusterName i).name = containerName clusterName i := rfl
  simp [startPod, podmanHandler, eagerPodman, PodmanState.reply, PodmanState.effect, hname, hnew]

/-- The container gets ready at the first look. -/
theorem run_waitReady_eager (hid : id ∉ names) (huse : Usable id port s)
    (hmem : ∃ c ∈ s.containers, c.id = id) (k : ℕ) :
    (waitReady id port (k + 1)).run (podmanHandler (eagerPodman regex told names id port)) s =
      (.ready "10.88.0.9" 40001, { s with clock := s.clock + 4 }) := by
  obtain ⟨c, hc, hcid⟩ : ∃ c, s.find id = some c ∧ (c.name = id ∨ c.id = id) := by
    obtain ⟨c, hc, hcid⟩ := hmem
    rcases hfind : s.find id with _ | c'
    · have hnot := List.find?_eq_none.mp hfind c hc
      simp [hcid] at hnot
    · exact ⟨c', rfl, by simpa using List.find?_some hfind⟩
  obtain ⟨hip, hport⟩ := huse c (List.mem_of_find?_eq_some hc) hcid
  have herr : ∀ k, (eagerPodman regex told names id port).error k (.inspectIP id) = none := by
    simp [eagerPodman, hid]
  rw [← hip]
  exact run_waitReady_of_find hc (by rw [hip]; decide) hport (by decide) (fun k => ⟨herr k, rfl⟩)
    (fun _ => ⟨rfl, rfl⟩) k

theorem Usable.startPod (huse : Usable id port s) {c : Container} {k : ℕ}
    (hip : c.ip = "10.88.0.9") (hports : c.ports = [(port, 40001)]) :
    Usable id port { containers := s.containers ++ [c], clock := k } := by
  intro c' hc' hid
  rcases List.mem_append.mp hc' with hc' | hc'
  · exact huse c' hc' hid
  · obtain rfl := List.mem_singleton.mp hc'
    exact ⟨hip, by rw [hports]; simp⟩

/-- All containers get ready whose names are free. -/
theorem podsReady_eager (hid : id ∉ names) (huse : Usable id cfg.redisContainerPort.toNat s)
    {l : List ℕ} (hl : l.Nodup)
    (hfree : ∀ i ∈ l, containerName clusterName i ∉ s.containers.map Container.name) :
    ∃ s', PodsReady (eagerPodman regex told names id cfg.redisContainerPort.toNat) cfg clusterName
      l s s' := by
  induction l generalizing s with
  | nil => exact ⟨s, .nil⟩
  | cons i l ih =>
    obtain ⟨hi, hl⟩ := List.nodup_cons.mp hl
    set new := (eagerPodman regex told names id cfg.redisContainerPort.toNat).create 0
      (runSpec cfg clusterName i)
    have hstart := run_startPod_eager regex told cfg names id cfg.redisContainerPort.toNat
      (hfree i List.mem_cons_self)
    have huse₁ : ∀ k, Usable id cfg.redisContainerPort.toNat
        { containers := s.containers ++ [new], clock := k } := fun _ => huse.startPod rfl rfl
    have hwait := run_waitReady_eager regex told hid (huse₁ (s.clock + 3))
      ⟨new, List.mem_append_right _ (List.mem_singleton_self _), rfl⟩ 60
    have hfree₁ : ∀ j ∈ l, containerName clusterName j ∉
        (s.containers ++ [new]).map Container.name := by
      intro j hj
      rw [List.map_append, List.mem_append, not_or]
      refine ⟨hfree j (List.mem_cons_of_mem _ hj), fun hmem => hi ?_⟩
      rw [containerName_inj.mp (List.mem_singleton.mp hmem).symm]
      exact hj
    obtain ⟨s', hready⟩ := ih (huse₁ (s.clock + 3 + 4)) hl hfree₁
    exact ⟨s', .cons hstart hwait hready⟩

variable (clusterName names id port) in
/-- The call then asks for a container under the next name. -/
theorem exists_run_eager (start i : ℕ) (rest : List ℕ) (base : BaseNodeManager)
    (s : PodmanState) :
    ∃ x ∈ (createPodsFrom cfg clusterName start (i :: rest) base).trace
      (podmanHandler (eagerPodman regex told names id port)) s,
      x.1 = .run (runSpec cfg clusterName i) := by
  rw [createPodsFrom_eq, Program.trace_bind]
  refine ⟨(.run (runSpec cfg clusterName i), { s with clock := s.clock + 2 }),
    List.mem_append_left _ ?_, rfl⟩
  simp [startPod, podmanHandler, eagerPodman, PodmanState.reply, PodmanState.effect]

variable (clusterName names id port s) in
/-- The listing of such a podman. -/
theorem run_listPodsByCluster_eager (base : BaseNodeManager) :
    ∃ base' s', (listPodsByCluster cfg base clusterName).run
        (podmanHandler (eagerPodman regex told names id port)) s = ((.ok (), base'), s') ∧
      s'.containers = s.containers := by
  have hold : ((listPodsByCluster cfg base clusterName).run
      (podmanHandler (eagerPodman regex told names id port)) s).2.containers = s.containers :=
    containers_run_of_reads listPodsByCluster_reads
  have hok : ((listPodsByCluster cfg base clusterName).run
      (podmanHandler (eagerPodman regex told names id port)) s).1.1 = .ok () := by
    rw [listPodsByCluster, Program.run_bind, Program.run_send, podmanHandler_of_ok rfl]
    simp only [PodmanState.reply, Program.run_bind]
    rfl
  rcases hrun : (listPodsByCluster cfg base clusterName).run
    (podmanHandler (eagerPodman regex told names id port)) s with ⟨⟨r, base'⟩, s'⟩
  rw [hrun] at hold hok
  obtain rfl : r = .ok () := hok
  exact ⟨base', s', rfl, hold⟩

end Eager

/-- Some ID is no name and no ID of a container. -/
theorem exists_fresh_id (s : PodmanState) :
    ∃ id, id ∉ s.containers.map Container.name ∧ id ∉ s.containers.map Container.id := by
  have hinf : Infinite String :=
    Infinite.of_injective (containerName "") fun _ _ h => containerName_inj.mp h
  obtain ⟨id, hid⟩ := hinf.exists_notMem_finset
    (s.containers.map Container.name ++ s.containers.map Container.id).toFinset
  rw [List.mem_toFinset, List.mem_append, not_or] at hid
  exact ⟨id, hid⟩

/-- Names that are fresh whatever podman does have free indices. -/
theorem free_of_freshNames (h : FreshNames regex told cfg clusterName n s) {k : ℕ}
    (hk : k < n.toNat) :
    containerName clusterName (foundPods regex told cfg clusterName s + 1 + k) ∉
      s.containers.map Container.name := by
  -- the call gets to an index when the indices before it are free
  induction k using Nat.strong_induction_on with
  | _ k ih =>
    obtain ⟨id, hid, hid'⟩ := exists_fresh_id s
    let env := eagerPodman regex told (s.containers.map Container.name) id
      cfg.redisContainerPort.toNat
    obtain ⟨base', s', hrun, hs'⟩ := run_listPodsByCluster_eager regex told cfg clusterName s
      (s.containers.map Container.name) id cfg.redisContainerPort.toNat {}
    have htells : ∀ name ∈ s.runningNames regex (clusterName ++ "-redis"),
        Tells env ((listPodsByCluster cfg {} clusterName).trace (podmanHandler env) s) told
          cfg.redisContainerPort.toNat name := by
      intro name hname
      obtain ⟨c, hc, rfl⟩ := List.mem_map.mp hname
      have hmem := List.mem_map_of_mem (f := Container.name) (List.mem_of_mem_filter hc)
      rw [Tells]
      split
      · rename_i htold
        intro x _ hx
        simp only [inquiries, List.mem_cons, List.not_mem_nil, or_false] at hx
        rcases hx with hx | hx | hx <;> rw [hx]
        · exact if_neg fun h => h.2 htold
        · rfl
        · rfl
      · rename_i htold
        refine ⟨_, List.mem_cons_self, fun x _ hx => ?_⟩
        rw [hx]
        exact ne_of_eq_of_ne (if_pos ⟨hmem, htold⟩) nofun
    have hnum := num_listPodsByCluster htells hrun
    have huse : Usable id cfg.redisContainerPort.toNat s' := by
      intro c hc hcid
      rw [hs'] at hc
      rcases hcid with rfl | rfl
      · exact absurd (List.mem_map_of_mem hc) hid
      · exact absurd (List.mem_map_of_mem hc) hid'
    obtain ⟨rest, hsplit⟩ := exists_range_map_add_eq hk (base'.num + 1)
    have hfree : ∀ i ∈ (List.range k).map (base'.num + 1 + ·),
        containerName clusterName i ∉ s'.containers.map Container.name := by
      intro i hi
      obtain ⟨j, hj, rfl⟩ := List.mem_map.mp hi
      rw [List.mem_range] at hj
      rw [hs', hnum]
      exact ih j hj (hj.trans hk)
    obtain ⟨s₁, hready⟩ := podsReady_eager regex told cfg hid huse
      (List.nodup_range.map fun _ _ => Nat.add_left_cancel) hfree
    obtain ⟨base'', hsub⟩ := hready.trace_subset (base'.num + 1) ((base'.num + 1 + k) :: rest) base'
    obtain ⟨x, hx, hxrun⟩ := exists_run_eager regex told cfg clusterName
      (s.containers.map Container.name) id cfg.redisContainerPort.toNat (base'.num + 1)
      (base'.num + 1 + k) rest base'' s₁
    have hcall : x ∈ (createPods cfg base' n clusterName).trace (podmanHandler env) s' := by
      rw [createPods, hsplit]
      exact hsub hx
    have hfresh := h env {} base' s' rfl htells hrun x hcall _ hxrun
    rw [hnum] at hfresh
    exact hfresh

/-- **When new containers get fresh names.** They do, whatever podman does, exactly if none of
the `n` indices after the number of found containers is the index of a container, running or not. -/
theorem freshNames_iff (regex : String → String → Bool) (told : String → Bool)
    (cfg : RuntimeConfig) (clusterName : String) (n : ℤ) (s : PodmanState) :
    FreshNames regex told cfg clusterName n s ↔
      ∀ i, foundPods regex told cfg clusterName s < i →
        i ≤ foundPods regex told cfg clusterName s + n.toNat →
        containerName clusterName i ∉ s.containers.map Container.name := by
  refine ⟨fun h i hlt hle => ?_, freshNames_of_free⟩
  obtain ⟨k, rfl⟩ : ∃ k, i = foundPods regex told cfg clusterName s + 1 + k :=
    ⟨i - (foundPods regex told cfg clusterName s + 1), by omega⟩
  exact free_of_freshNames h (by omega)

/-- Of three containers the second has stopped. Two are found, and the next one is to be called
as the third. -/
theorem not_freshNames_stopped :
    ¬ FreshNames dotMatch (fun _ => true) plainConfig "prod" 1
      ⟨[⟨"prod-redis-1", "a1", "10.88.0.2", true, [(6379, 40001)]⟩,
        ⟨"prod-redis-2", "a2", "", false, []⟩,
        ⟨"prod-redis-3", "a3", "10.88.0.4", true, [(6379, 40003)]⟩], 0⟩ := by
  intro h
  exact free_of_freshNames h (k := 0) (by decide) (by decide)

end Fresh

end ClusterManager
