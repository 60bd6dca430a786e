import ClusterManager.Backend.Containerd
import ClusterManager.Backend.Containers
import Mathlib.Data.List.Forall2

/-!
# The ports of a cluster on one host

The containers of the containerd backend share the ports of the host, so the backend counts them
out: the Redis with the index `i` listens on the configured port plus `i - 1`, and talks to the
other nodes on the port 10000 above. Both are computed as integers and handed to `redis-server` as
they are. What is remembered of a node is a `uint16`, and listing the cluster computes it once more,
from the index that is kept in a label.

Nothing bounds the sums. A configured port near the end of the range gives a bus port that is no
port, or a port that is remembered as another one; and with more than 10000 nodes a node listens
where an earlier one has its bus. The containers are made all the same, and `createPods` returns
without an error. So the ports are right as long as the indices are small enough for the configured
port (`portsHold_iff`).
-/

namespace ClusterManager

namespace Containerd

/-! ### What a server is told -/

/-- The argument that stands after a flag. -/
def flagValue (flag : String) (args : List String) : Option String :=
  ((args.dropWhile (· ≠ flag)).drop 1).head?

theorem flagValue_append {flag value : String} {args rest : List String} (h : flag ∉ args) :
    flagValue flag (args ++ flag :: value :: rest) = some value := by
  have hskip : ∀ arg ∈ args, decide (arg ≠ flag) = true := by
    intro arg harg
    exact decide_eq_true fun heq => h (heq ▸ harg)
  rw [flagValue, List.dropWhile_append_of_pos hskip, List.dropWhile_cons_of_neg (by simp)]
  rfl

theorem flag_ne_toString {flag : String} (h : '-' ∈ flag.toList) (n : ℕ) : flag ≠ toString n :=
  fun heq => Text.notMem_toString (by decide) n (heq ▸ h)

theorem flag_ne_conf {flag : String} (h : '/' ∉ flag.toList) (path : String) :
    flag ≠ path ++ "/redis.conf" := by
  rintro rfl
  exact h (by simp)

/-- The number that a flag sets, be it a port or not. -/
def CtrContainer.setBy (flag : String) (c : CtrContainer) : Option ℕ :=
  (flagValue flag c.spec.args).bind fun value => Text.digits value.toList

/-- The port of the Redis, -/
def CtrContainer.port : CtrContainer → Option ℕ := CtrContainer.setBy "--port"

/-- and the port of its bus. -/
def CtrContainer.busPort : CtrContainer → Option ℕ :=
  CtrContainer.setBy "--cluster-announce-bus-port"

/-- The port of an index, in natural numbers. -/
def portNumber (cfg : RuntimeConfig) (i : ℕ) : ℕ := cfg.redisContainerPort.toNat + (i - 1)

section Told

variable {cfg : RuntimeConfig} {clusterName : String} {i : ℕ} {c : CtrContainer}

theorem redisPort_eq_portNumber (hi : 0 < i) : redisPort cfg i = (portNumber cfg i : ℤ) := by
  rw [redisPort, portNumber]
  omega

theorem MadeFor.port_eq (h : MadeFor cfg clusterName i c) (hi : 0 < i) :
    c.port = some (portNumber cfg i) := by
  obtain ⟨-, path, hspec⟩ := h
  have hflag : "--port" ∉ ["redis-server", cfg.redisConfigPath ++ "/redis.conf"] := by
    simp only [List.mem_cons, not_or]
    exact ⟨by decide, flag_ne_conf (by decide) _, List.not_mem_nil⟩
  rw [CtrContainer.port, CtrContainer.setBy, hspec, containerSpec, redisArgs,
    redisPort_eq_portNumber hi]
  refine (congrArg (Option.bind · _) (flagValue_append hflag)).trans ?_
  exact Text.digits_toString (portNumber cfg i)

theorem MadeFor.busPort_eq (h : MadeFor cfg clusterName i c) (hi : 0 < i) :
    c.busPort = some (portNumber cfg i + 10000) := by
  obtain ⟨-, path, hspec⟩ := h
  have hflag : "--cluster-announce-bus-port" ∉
      ["redis-server", cfg.redisConfigPath ++ "/redis.conf", "--port",
        toString (portNumber cfg i : ℤ)] := by
    simp only [List.mem_cons, not_or]
    exact ⟨by decide, flag_ne_conf (by decide) _, by decide, flag_ne_toString (by decide) _,
      List.not_mem_nil⟩
  rw [CtrContainer.busPort, CtrContainer.setBy, hspec, containerSpec, redisArgs,
    redisPort_eq_portNumber hi]
  refine (congrArg (Option.bind · _) (flagValue_append hflag)).trans ?_
  exact Text.digits_toString (portNumber cfg i + 10000)

/-- A port that fits is remembered as it is. -/
theorem toNat_redisPort (hi : 0 < i) (hfits : portNumber cfg i < 2 ^ 16) :
    (UInt16.ofInt (redisPort cfg i)).toNat = portNumber cfg i := by
  have hmod : ((portNumber cfg i : ℤ) % 2 ^ 16).toNat = portNumber cfg i := by omega
  rw [redisPort_eq_portNumber hi, UInt16.ofInt, hmod]
  exact UInt16.toNat_ofNat_of_lt' hfits

end Told

/-! ### What is to hold of the ports -/

/-- The container is a node of the cluster, made with this configuration. -/
def NodeOf (cfg : RuntimeConfig) (clusterName : String) (c : CtrContainer) : Prop :=
  ∃ i, 0 < i ∧ MadeFor cfg clusterName i c

/-- A port of the host. -/
def ValidPort (port : ℕ) : Prop := 1 ≤ port ∧ port ≤ 65535

/-- A node is remembered with the port that its Redis has been told. -/
def Records (node : RuntimeNode) (c : CtrContainer) : Prop :=
  node.name = c.id ∧ c.port = some node.hostPort.toNat ∧ node.conPort = node.hostPort

/-- What is to hold of the ports when the containers of `s'` have been made from those of `s`, and
the nodes of `base'` have been added to those of `base`. -/
structure PortsHold (cfg : RuntimeConfig) (clusterName : String) (base base' : BaseNodeManager)
    (s s' : ContainerdState) : Prop where
  inRange : ∀ c ∈ s'.containers, NodeOf cfg clusterName c →
    ∃ port bus, c.port = some port ∧ c.busPort = some bus ∧ ValidPort port ∧ ValidPort bus
  distinct : ∀ c ∈ s'.containers, ∀ c' ∈ s'.containers,
    NodeOf cfg clusterName c → NodeOf cfg clusterName c' →
      c.port ≠ c'.busPort ∧ (c.id ≠ c'.id → c.port ≠ c'.port ∧ c.busPort ≠ c'.busPort)
  recorded : List.Forall₂ Records (base'.nodes.drop base.nodes.length)
    (s'.containers.drop s.containers.length)
  /-- At any later time, however containerd answers. -/
  relisted : ∀ (env : ContainerdEnv) (mgr : BaseNodeManager) (t : ContainerdState),
    t.containers = s'.containers →
      ∀ node ∈ ((listPodsByCluster cfg mgr clusterName).run (containerdHandler env) t).1.2.nodes,
      ∀ c, t.containers.find? (fun c => c.id = node.name) = some c →
        NodeOf cfg clusterName c → Records node c

/-- The index is that of a node there is, or of one of the next `n`. -/
def Indexed (cfg : RuntimeConfig) (clusterName : String) (base : BaseNodeManager)
    (s : ContainerdState) (n : ℤ) (i : ℕ) : Prop :=
  (0 < i ∧ ∃ c ∈ s.containers, MadeFor cfg clusterName i c) ∨
    base.num < i ∧ i ≤ base.num + n.toNat

/-! ### When it does -/

section Ports

variable {env : ContainerdEnv} {cfg : RuntimeConfig} {base base' : BaseNodeManager}
  {s s' : ContainerdState} {clusterName : String} {n : ℤ} {i : ℕ} {c : CtrContainer}

theorem created_nodes (idx : List ℕ) (base : BaseNodeManager) :
    (idx.foldl (fun b i => addRuntimeNode b (createdFor cfg clusterName i)) base).nodes =
      base.nodes ++ idx.map fun i => withAddress (createdFor cfg clusterName i) := by
  induction idx generalizing base with
  | nil => exact (List.append_nil _).symm
  | cons i idx ih =>
    rw [List.foldl_cons, ih, addRuntimeNode_eq, BaseNodeManager.addNode, List.append_assoc]
    rfl

/-- What `createPods` adds: a container for each of the next indices, and a node for each. -/
theorem createPods_added
    (h : (createPods cfg base n clusterName).run (containerdHandler env) s =
      ((.ok (), base'), s')) :
    ∃ idx new, (∀ i, i ∈ idx ↔ base.num < i ∧ i ≤ base.num + n.toNat) ∧
      List.Forall₂ (MadeFor cfg clusterName) idx new ∧ s'.containers = s.containers ++ new ∧
      base'.nodes = base.nodes ++ idx.map fun i => withAddress (createdFor cfg clusterName i) := by
  obtain ⟨s₁, hs₁, hrun⟩ := createPods_ok h
  obtain ⟨hbase, ⟨new, hs', hnew⟩, -⟩ := createPodsFrom_ok hrun
  refine ⟨_, new, fun i => ?_, hnew, hs₁ ▸ hs', hbase ▸ created_nodes _ base⟩
  rw [List.mem_map]
  constructor
  · rintro ⟨k, hk, rfl⟩
    have := List.mem_range.mp hk
    omega
  · rintro ⟨hlt, hle⟩
    exact ⟨i - (base.num + 1), List.mem_range.mpr (by omega), by omega⟩

theorem exists_of_forall₂ {α β : Type} {R : α → β → Prop} {l : List α} {u : List β}
    (h : List.Forall₂ R l u) {a : α} (ha : a ∈ l) : ∃ b ∈ u, R a b := by
  induction h with
  | nil => exact absurd ha List.not_mem_nil
  | cons hab _ ih =>
    rcases List.mem_cons.mp ha with rfl | ha
    · exact ⟨_, List.mem_cons_self, hab⟩
    · obtain ⟨b, hb, hR⟩ := ih ha
      exact ⟨b, List.mem_cons_of_mem _ hb, hR⟩

/-- The indices are those of the nodes there are in the end. -/
theorem indexed_iff
    (h : (createPods cfg base n clusterName).run (containerdHandler env) s =
      ((.ok (), base'), s')) :
    Indexed cfg clusterName base s n i ↔
      0 < i ∧ ∃ c ∈ s'.containers, MadeFor cfg clusterName i c := by
  obtain ⟨idx, new, hidx, hmade, hs', -⟩ := createPods_added h
  rw [Indexed, hs']
  constructor
  · rintro (⟨hi, c, hc, hci⟩ | hi)
    · exact ⟨hi, c, List.mem_append_left _ hc, hci⟩
    · obtain ⟨c, hc, hci⟩ := exists_of_forall₂ hmade ((hidx i).mpr hi)
      exact ⟨by omega, c, List.mem_append_right _ hc, hci⟩
  · rintro ⟨hi, c, hc, hci⟩
    rcases List.mem_append.mp hc with hc | hc
    · exact Or.inl ⟨hi, c, hc, hci⟩
    · obtain ⟨j, hj, hcj⟩ := exists_of_forall₂ hmade.flip hc
      obtain rfl : j = i := containerName_inj.mp (hcj.1.symm.trans hci.1)
      exact Or.inr ((hidx j).mp hj)

/-- Listing a cluster remembers a port that fits. -/
theorem ListedFrom.records {node : RuntimeNode} {containers : List CtrContainer}
    (h : ListedFrom cfg clusterName containers node)
    (hc : containers.find? (fun c => c.id = node.name) = some c)
    (hmade : MadeFor cfg clusterName i c) (hi : 0 < i) (hfits : portNumber cfg i < 2 ^ 16) :
    Records node c := by
  obtain ⟨c', short, hc', hnode⟩ := h
  obtain rfl : c' = c := Option.some.inj (hc'.symm.trans hc)
  have hid : c'.id = node.name := by simpa using List.find?_some hc
  have htold := hmade.port_eq hi
  obtain ⟨-, path, hspec⟩ := hmade
  have hindex : (Text.atoi (label c'.spec.labels "node-index")).getD 0 = i := by
    have hlabel : label c'.spec.labels "node-index" = toString i := by
      rw [hspec]
      rfl
    rw [portNumber] at hfits
    rw [hlabel, Text.atoi_toString (by omega)]
    rfl
  have hport : node.hostPort = UInt16.ofInt (redisPort cfg i) := by
    rw [hnode, listedNode, hindex]
  have hconPort : node.conPort = UInt16.ofInt (redisPort cfg i) := by
    rw [hnode, listedNode, hindex]
  refine ⟨hid.symm, ?_, hconPort.trans hport.symm⟩
  rw [hport, toNat_redisPort hi hfits, htold]

/-- So does creating it. -/
theorem MadeFor.records (hmade : MadeFor cfg clusterName i c) (hi : 0 < i)
    (hfits : portNumber cfg i < 2 ^ 16) :
    Records (withAddress (createdFor cfg clusterName i)) c := by
  refine ⟨(withAddress_name _).trans hmade.1.symm, ?_, ?_⟩
  · rw [withAddress_hostPort, createdFor, createdNode, toNat_redisPort hi hfits, hmade.port_eq hi]
  · rw [withAddress_hostPort, withAddress_conPort]
    rfl

/-- **The ports of a cluster.** When `createPods` succeeds, whatever containers there were before,
the ports are as they should be if for each index the bus port is a port of the host, the port is
not 0, and no two indices are 10000 apart. -/
theorem portsHold_iff (cfg : RuntimeConfig) (env : ContainerdEnv) (base base' : BaseNodeManager)
    (s s' : ContainerdState) (n : ℤ) (clusterName : String)
    (h : (createPods cfg base n clusterName).run (containerdHandler env) s =
      ((.ok (), base'), s')) :
    PortsHold cfg clusterName base base' s s' ↔
      (∀ i, Indexed cfg clusterName base s n i →
        1 < cfg.redisContainerPort.toNat + i ∧ cfg.redisContainerPort.toNat + i ≤ 55536) ∧
      ∀ i j, Indexed cfg clusterName base s n i → Indexed cfg clusterName base s n j →
        i ≠ j + 10000 := by
  constructor
  · intro hports
    refine ⟨fun i hi => ?_, fun i j hi hj hij => ?_⟩
    · obtain ⟨hpos, c, hc, hmade⟩ := (indexed_iff h).mp hi
      obtain ⟨port, bus, hport, hbus, hvalid, hvalid'⟩ := hports.inRange c hc ⟨i, hpos, hmade⟩
      obtain rfl := Option.some.inj (hport.symm.trans (hmade.port_eq hpos))
      obtain rfl := Option.some.inj (hbus.symm.trans (hmade.busPort_eq hpos))
      simp only [ValidPort, portNumber] at hvalid hvalid'
      omega
    · obtain ⟨hpos, c, hc, hmade⟩ := (indexed_iff h).mp hi
      obtain ⟨hpos', c', hc', hmade'⟩ := (indexed_iff h).mp hj
      refine (hports.distinct c hc c' hc' ⟨i, hpos, hmade⟩ ⟨j, hpos', hmade'⟩).1 ?_
      rw [hmade.port_eq hpos, hmade'.busPort_eq hpos', portNumber, portNumber]
      congr 1
      omega
  · rintro ⟨hrange, hapart⟩
    -- the port of an index is in the range, with room for the bus port
    have hnode : ∀ c ∈ s'.containers, ∀ i, 0 < i → MadeFor cfg clusterName i c →
        Indexed cfg clusterName base s n i ∧
          1 ≤ portNumber cfg i ∧ portNumber cfg i + 10000 ≤ 65535 := by
      intro c hc i hi hmade
      have hindexed := (indexed_iff h).mpr ⟨hi, c, hc, hmade⟩
      have := hrange i hindexed
      rw [portNumber]
      exact ⟨hindexed, by omega, by omega⟩
    refine ⟨?_, ?_, ?_, ?_⟩
    · rintro c hc ⟨i, hi, hmade⟩
      obtain ⟨-, hlow, hhigh⟩ := hnode c hc i hi hmade
      exact ⟨_, _, hmade.port_eq hi, hmade.busPort_eq hi, ⟨hlow, by omega⟩, by omega, hhigh⟩
    · rintro c hc c' hc' ⟨i, hi, hmade⟩ ⟨j, hj, hmade'⟩
      obtain ⟨hindexed, -⟩ := hnode c hc i hi hmade
      obtain ⟨hindexed', -⟩ := hnode c' hc' j hj hmade'
      have hij := hapart i j hindexed hindexed'
      simp only [hmade.port_eq hi, hmade.busPort_eq hi, hmade'.port_eq hj, hmade'.busPort_eq hj,
        ne_eq, Option.some.injEq, portNumber]
      refine ⟨by omega, fun hids => ?_⟩
      have hne : i ≠ j := fun hij => hids (by rw [hmade.1, hmade'.1, hij])
      exact ⟨by omega, by omega⟩
    · obtain ⟨idx, new, hidx, hmade, hs', hbase'⟩ := createPods_added h
      rw [hs', hbase', List.drop_left, List.drop_left, List.forall₂_map_left_iff]
      have hall : ∀ i ∈ idx, 0 < i ∧ portNumber cfg i < 2 ^ 16 := by
        intro i hi
        obtain ⟨c, hc, hci⟩ := exists_of_forall₂ hmade hi
        have hpos : 0 < i := Nat.zero_lt_of_lt ((hidx i).mp hi).1
        obtain ⟨-, -, hhigh⟩ := hnode c (hs' ▸ List.mem_append_right _ hc) i hpos hci
        exact ⟨hpos, by omega⟩
      exact ((List.forall₂_and_left _ _).mpr ⟨hall, hmade⟩).imp fun i c hci =>
        hci.2.records hci.1.1 hci.1.2
    · rintro env' mgr t ht node hmem c hfind ⟨i, hi, hmade⟩
      obtain ⟨-, -, hlisted⟩ := listPodsByCluster_spec env' cfg clusterName mgr t
      obtain ⟨-, -, hhigh⟩ := hnode c (ht ▸ List.mem_of_find?_eq_some hfind) i hi hmade
      exact (hlisted node hmem).records hfind hmade hi (by omega)

/-- A containerd without containers that does what it is asked. -/
def willing : ContainerdEnv := { selects := fun _ _ => true }

theorem run_of_ok {α β σ ε : Type} {x : (Except ε α × β) × σ} {a : α} (h : x.1.1 = .ok a) :
    x = ((.ok a, x.1.2), x.2) := Prod.ext (Prod.ext h rfl) rfl

/-- Three nodes at the default port are right. -/
theorem portsHold_plainConfig :
    ∃ base' s', (createPods plainConfig {} 3 "prod").run (containerdHandler willing) ⟨[], 0⟩ =
        ((.ok (), base'), s') ∧
      PortsHold plainConfig "prod" {} base' ⟨[], 0⟩ s' := by
  refine ⟨_, _, run_of_ok rfl, (portsHold_iff _ _ _ _ _ _ _ _ (run_of_ok rfl)).mpr ?_⟩
  have hsmall : ∀ i, Indexed plainConfig "prod" {} ⟨[], 0⟩ 3 i → 0 < i ∧ i ≤ 3 := by
    rintro i (⟨-, c, hc, -⟩ | hi)
    · exact absurd hc List.not_mem_nil
    · exact ⟨hi.1, by simpa using hi.2⟩
  have hport : plainConfig.redisContainerPort.toNat = 6379 := rfl
  refine ⟨fun i hi => ?_, fun i j hi _ => ?_⟩
  · have := hsmall i hi
    omega
  · have := hsmall i hi
    omega

/-- The configuration with a port that leaves no room for the bus port. -/
def highConfig : RuntimeConfig := { plainConfig with redisContainerPort := 60000 }

/-- One node is enough for the bus port 70000. -/
theorem not_portsHold_highConfig :
    ∃ base' s', (createPods highConfig {} 1 "prod").run (containerdHandler willing) ⟨[], 0⟩ =
        ((.ok (), base'), s') ∧
      (∃ c ∈ s'.containers, NodeOf highConfig "prod" c ∧ c.busPort = some 70000) ∧
      ¬ PortsHold highConfig "prod" {} base' ⟨[], 0⟩ s' := by
  have hrun := run_of_ok (x := (createPods highConfig {} 1 "prod").run
    (containerdHandler willing) ⟨[], 0⟩) rfl
  have hindexed : Indexed highConfig "prod" {} ⟨[], 0⟩ 1 1 := Or.inr (by decide)
  obtain ⟨hpos, c, hc, hmade⟩ := (indexed_iff hrun).mp hindexed
  have hbus : c.busPort = some 70000 := hmade.busPort_eq hpos
  refine ⟨_, _, hrun, ⟨c, hc, ⟨1, hpos, hmade⟩, hbus⟩, fun hports => ?_⟩
  obtain ⟨port, bus, -, hbus', -, hvalid⟩ := hports.inRange c hc ⟨1, hpos, hmade⟩
  obtain rfl := Option.some.inj (hbus'.symm.trans hbus)
  exact absurd hvalid.2 (by decide)

end Ports

end Containerd

end ClusterManager
