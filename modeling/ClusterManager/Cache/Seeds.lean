import ClusterManager.Cache.Settings

/-!
# Whom a cache node joins

A node that is started finds the others by gossip, from a list of seeds. With the configuration
file these are to be the other servers of the file. But a node does not leave out itself, it
leaves out its *port*: `seedAddrs` drops every server with the port the node runs at.

Where the ports differ, as for nodes on one host, that is the same. Where servers on different
hosts have one port it is not: each of them takes all of them for itself, and if all servers have
the same port the list is empty and every node is a cluster of its own (`seeds_iff`).
-/

namespace ClusterManager

namespace Cache

/-- The settings of a node that reads the configuration file. -/
def loadConfig (env : String → String) (files : String → Conf.ConfigFile) :
    Except String NodeConfig :=
  match Conf.loadConfig (files (orDefaultText (env "GEECACHE_CONFIG") "config.yaml")) with
  | .error err => .error s!"load config: {err}"
  | .ok c =>
    match c.validate with
    | .error err => .error s!"invalid config: {err}"
    | .ok cfg =>
      let port := Conf.pickPort (env "PORT") cfg
      match cfg.selfServer port with
      | none => .error s!"no server config for port {port}"
      | some srv =>
        .ok
          { host := srv.ip, port := srv.port, gossip := srv.gossip, isAPI := srv.api
            apiAddr := cfg.frontServer, groupName := "scores", maxBytes := cfg.maxBytes
            seedAddrs := [], servers := cfg.onlineServers }

/-- The seeds with which `Run` makes the registry: those of the command line, else the servers. -/
def NodeConfig.seeds (cfg : NodeConfig) : List String :=
  if cfg.seedAddrs.length = 0 then Conf.seedAddrs cfg.servers cfg.port else cfg.seedAddrs

/-- The seeds are the addresses of the servers other than the one at the index. -/
def JoinsOthers (servers : List Conf.Server) (i : ℕ) (seeds : List String) : Prop :=
  ∀ addr, addr ∈ seeds ↔ addr ∈ (servers.eraseIdx i).map Conf.Server.seedAddr

section Filter

variable {α β : Type} {p : α → Bool} {l : List α}

/-- An entry that is filtered out can be erased before. -/
theorem filter_eq_filter_eraseIdx {i : ℕ} {a : α} (ha : l[i]? = some a) (hp : ¬ p a) :
    l.filter p = (l.eraseIdx i).filter p := by
  induction l generalizing i with
  | nil => rfl
  | cons b l ih =>
    cases i with
    | zero =>
      obtain rfl : b = a := Option.some.inj ha
      exact List.filter_cons_of_neg hp
    | succ i =>
      rw [List.eraseIdx_cons_succ, List.filter_cons, List.filter_cons, ih ha]

/-- Filtering leaves the images what they were if the others have the same images, -/
theorem mem_map_filter_iff {f : α → β} :
    (∀ b, b ∈ (l.filter p).map f ↔ b ∈ l.map f) ↔
      ∀ a ∈ l, ¬ p a → ∃ a' ∈ l, p a' ∧ f a' = f a := by
  constructor
  · intro h a ha _
    obtain ⟨a', ha', heq⟩ := List.mem_map.mp ((h (f a)).mpr (List.mem_map_of_mem ha))
    exact ⟨a', List.mem_of_mem_filter ha', (List.mem_filter.mp ha').2, heq⟩
  · intro h b
    refine ⟨fun hb => (List.filter_sublist.map f).subset hb, fun hb => ?_⟩
    obtain ⟨a, ha, rfl⟩ := List.mem_map.mp hb
    by_cases hp : p a
    · exact List.mem_map_of_mem (List.mem_filter.mpr ⟨ha, hp⟩)
    · obtain ⟨a', ha', hp', heq⟩ := h a ha hp
      exact heq ▸ List.mem_map_of_mem (List.mem_filter.mpr ⟨ha', hp'⟩)

/-- and leaves each in its place only if there is nothing to filter out. -/
theorem map_filter_eq_map_iff {f : α → β} : (l.filter p).map f = l.map f ↔ ∀ a ∈ l, p a := by
  constructor
  · intro h
    refine List.length_filter_eq_length_iff.mp ?_
    rw [← List.length_map f, h, List.length_map]
  · intro h
    rw [List.filter_eq_self.mpr h]

end Filter

section Seeds

variable {c₀ c : Conf.Config}

/-- A node whose port is that of a server is started, with the other ports as its seeds. -/
theorem loadConfig_ok (env : String → String) (files : String → Conf.ConfigFile)
    (hload : Conf.loadConfig (files (orDefaultText (env "GEECACHE_CONFIG") "config.yaml")) = .ok c₀)
    (hvalid : c₀.validate = .ok c) {s : Conf.Server} (hs : s ∈ c.onlineServers)
    (hport : Conf.pickPort (env "PORT") c = s.port) :
    ∃ cfg, loadConfig env files = .ok cfg ∧
      cfg.seeds = Conf.seedAddrs c.onlineServers s.port := by
  obtain ⟨srv, hsrv⟩ : ∃ srv, c.selfServer s.port = some srv :=
    Option.isSome_iff_exists.mp (List.find?_isSome.mpr ⟨s, hs, decide_eq_true rfl⟩)
  have hsame : srv.port = s.port := by simpa using List.find?_some hsrv
  rw [loadConfig, hload]
  dsimp only
  rw [hvalid]
  dsimp only
  rw [hport, hsrv]
  exact ⟨_, rfl, (if_pos rfl).trans (congrArg _ hsame)⟩

/-- **Whom a node joins.** A node that runs as the server `s` at the index `i` of an accepted list
joins exactly the other servers if each of them with the port of `s` shares its gossip address with
one that has another port. It joins them one for one if none of them has the port of `s`. -/
theorem seeds_iff (env : String → String) (files : String → Conf.ConfigFile)
    (c₀ c : Conf.Config)
    (hload : Conf.loadConfig (files (orDefaultText (env "GEECACHE_CONFIG") "config.yaml")) = .ok c₀)
    (hvalid : c₀.validate = .ok c) (i : ℕ) (s : Conf.Server) (hi : c.onlineServers[i]? = some s)
    (hport : Conf.pickPort (env "PORT") c = s.port) :
    ∃ cfg, loadConfig env files = .ok cfg ∧
      (JoinsOthers c.onlineServers i cfg.seeds ↔
        ∀ t ∈ c.onlineServers.eraseIdx i, t.port = s.port →
          ∃ u ∈ c.onlineServers.eraseIdx i, u.port ≠ s.port ∧ u.seedAddr = t.seedAddr) ∧
      (cfg.seeds = (c.onlineServers.eraseIdx i).map Conf.Server.seedAddr ↔
        ∀ t ∈ c.onlineServers.eraseIdx i, t.port ≠ s.port) := by
  obtain ⟨cfg, hcfg, hseeds⟩ := loadConfig_ok env files hload hvalid (List.mem_of_getElem? hi) hport
  have hothers : cfg.seeds = ((c.onlineServers.eraseIdx i).filter fun t => t.port ≠ s.port).map
      Conf.Server.seedAddr := by
    rw [hseeds, Conf.seedAddrs, filter_eq_filter_eraseIdx hi (by simp)]
  refine ⟨cfg, hcfg, ?_, ?_⟩
  · rw [JoinsOthers, hothers, mem_map_filter_iff]
    simp only [ne_eq, decide_not, Bool.not_eq_eq_eq_not, Bool.not_true, decide_eq_false_iff_not,
      not_not]
  · rw [hothers, map_filter_eq_map_iff]
    simp only [ne_eq, decide_not, Bool.not_eq_eq_eq_not, Bool.not_true, decide_eq_false_iff_not]

/-- Two servers on one host, -/
def oneHost : Conf.Config where
  frontServer := "front"
  onlineServers :=
    [{ port := 8001, ip := "10.0.0.1", gossip := 9001 },
      { port := 8002, ip := "10.0.0.1", gossip := 9002 }]
  maxBytes := 1024

/-- and two on different hosts with the same ports. -/
def twoHosts : Conf.Config where
  frontServer := "front"
  onlineServers :=
    [{ port := 8001, ip := "10.0.0.1", gossip := 9001 },
      { port := 8001, ip := "10.0.0.2", gossip := 9001 }]
  maxBytes := 1024

/-- The variables of a node that is told its port. -/
def portEnv (port : String) : String → String := fun name => if name = "PORT" then port else ""

theorem pickPort_portEnv (c : Conf.Config) :
    Conf.pickPort (portEnv "8001" "PORT") c = 8001 := by
  rw [portEnv, if_pos rfl, Conf.pickPort]
  rfl

/-- On one host the first node joins the second, -/
theorem joins_oneHost :
    ∃ cfg, loadConfig (portEnv "8001") (fun _ => .decoded oneHost) = .ok cfg ∧
      JoinsOthers oneHost.onlineServers 0 cfg.seeds := by
  have hvalid : oneHost.validate = .ok oneHost := by decide
  obtain ⟨cfg, hcfg, hjoins, -⟩ := seeds_iff (portEnv "8001") (fun _ => .decoded oneHost) oneHost
    oneHost (Conf.loadConfig_of_validate hvalid) hvalid 0 _ rfl (pickPort_portEnv _)
  exact ⟨cfg, hcfg, hjoins.mpr (by decide)⟩

/-- on two hosts with one port it joins nobody. -/
theorem alone_twoHosts :
    twoHosts.validate = .ok twoHosts ∧
      ∃ cfg, loadConfig (portEnv "8001") (fun _ => .decoded twoHosts) = .ok cfg ∧
        cfg.seeds = [] ∧ ¬ JoinsOthers twoHosts.onlineServers 0 cfg.seeds := by
  have hvalid : twoHosts.validate = .ok twoHosts := by decide
  obtain ⟨cfg, hcfg, hseeds⟩ :=
    loadConfig_ok (portEnv "8001") (fun _ => .decoded twoHosts)
      (Conf.loadConfig_of_validate hvalid) hvalid List.mem_cons_self (pickPort_portEnv _)
  have hnone : cfg.seeds = [] := hseeds.trans (by decide)
  refine ⟨hvalid, cfg, hcfg, hnone, fun hjoins => ?_⟩
  rw [hnone] at hjoins
  exact absurd ((hjoins "10.0.0.2:9001").mpr (by decide)) List.not_mem_nil

end Seeds

end Cache

end ClusterManager
