import Mathlib.Logic.Function.Basic
import ClusterManager.Lib.Path

/-!
# The configuration

`Config` is the configuration file as it is decoded, `RuntimeConfig` what the program
works with. `Config.readConfig` goes from one to the other: the environment overrides
the file, relative paths are resolved against the project root, and defaults fill what
is left empty.

The name of the file a cluster's settings are saved in is resolved twice, once here
against the state directory and once per cluster against the cluster's own directory
(`RuntimeConfig.clusterRuntimeConfigPath`). After the first time it is an absolute path
(`Config.readConfig_isAbs`), and the second time an absolute path is kept as it is. So
all clusters save their settings in the same file.
-/

namespace ClusterManager

/-- The settings of the embedded cache. -/
structure CacheConfig where
  maxBytes : ℤ := 0
  ttl : ℤ := 0
  hotKeyThreshold : ℤ := 0
  hotReplicas : ℤ := 0
  dbRateLimit : ℤ := 0
  serverIP : String := ""
  serverPort : ℤ := 0
  gossipPort : ℤ := 0
  cacheGroupName : String := ""
  seeds : List String := []
  tlsMode : String := ""
  deriving DecidableEq, Repr

/-- The settings of node discovery by DNS. -/
structure DNSConfig where
  enabled : Bool := false
  domain : String := ""
  namingTemplate : String := ""
  deriving DecidableEq, Repr

/-- The configuration file. -/
structure Config where
  backend : String := ""
  dbPath : String := ""
  containerdSocket : String := ""
  redisHostConfigPath : String := ""
  redisConfigPath : String := ""
  redisHostDataPath : String := ""
  redisConfigDataPath : String := ""
  runtimeStateDir : String := ""
  saveFileName : String := ""
  imageName : String := ""
  redisPort : UInt16 := 0
  cache : CacheConfig := {}
  dns : DNSConfig := {}
  deriving DecidableEq, Repr

/-- What the program works with. -/
structure RuntimeConfig where
  projectRoot : String
  redisHostConfigPath : String
  redisConfigPath : String
  redisHostDataPath : String
  redisConfigDataPath : String
  runtimeStateDir : String
  configSaveFileName : String
  backend : String
  dbPath : String
  containerdSocket : String
  imageName : String
  redisContainerPort : UInt16
  cache : Option CacheConfig
  dns : Option DNSConfig
  /-- Whether a cache in the same process is to be told of moved slots. -/
  cacheInvalidator : Bool := false
  deriving DecidableEq, Repr

/-- The settings of one cluster, as they are saved. -/
structure RedisClusterConfig where
  nodesPerShard : ℤ
  port : UInt16
  deriving DecidableEq, Repr

def RedisClusterConfig.effectiveNodesPerShard (c : RedisClusterConfig) : ℤ := c.nodesPerShard

/-! ### Paths -/

def resolveLocalAbsPath (root p : String) : String :=
  if Path.isAbs p ∨ p = "" then p else Path.join [root, p]

/-- The test for a Unix path is the one of `Path.isAbs`. -/
def resolveContainerHostPath (root p : String) : String :=
  if Path.isAbs p then p else resolveLocalAbsPath root p

def resolveStateFilePath (root name : String) : String :=
  if Path.isAbs name then name else Path.join [root, name]

namespace RuntimeConfig

def clusterStateDir (cfg : RuntimeConfig) (clusterName : String) : String :=
  Path.join [cfg.runtimeStateDir, clusterName]

def clusterRuntimeConfigPath (cfg : RuntimeConfig) (clusterName : String) : String :=
  resolveStateFilePath (cfg.clusterStateDir clusterName) cfg.configSaveFileName

def cacheGroupName (cfg : RuntimeConfig) : String :=
  (cfg.cache.map (·.cacheGroupName)).getD "default"

def cacheMaxBytes (cfg : RuntimeConfig) : ℤ := (cfg.cache.map (·.maxBytes)).getD (2 ^ 30)

/-- In seconds. -/
def cacheTTL (cfg : RuntimeConfig) : ℤ := (cfg.cache.map (·.ttl)).getD 3600

def cachePort (cfg : RuntimeConfig) : ℤ := (cfg.cache.map (·.serverPort)).getD 8001

def cacheGossipPort (cfg : RuntimeConfig) : ℤ := (cfg.cache.map (·.gossipPort)).getD 9001

def cacheAPIAddr (cfg : RuntimeConfig) : String :=
  match cfg.cache with
  | none => ":9999"
  | some c => if c.serverIP = "" then ":9999" else c.serverIP ++ ":9999"

def dnsEnabled (cfg : RuntimeConfig) : Bool := (cfg.dns.map (·.enabled)).getD false

/-- The DNS name of a node, by the naming template; empty when DNS is disabled. -/
def buildHostname (cfg : RuntimeConfig) (clusterName : String) (index : ℤ) : String :=
  match cfg.dns with
  | none => ""
  | some dns =>
    if !dns.enabled then ""
    else if dns.namingTemplate = "" then clusterName ++ "-redis-" ++ toString index
    else
      let name := Text.replaceAll dns.namingTemplate "\x7b\x7b.ClusterName\x7d\x7d" clusterName
      let name := Text.replaceAll name "\x7b\x7b.Index\x7d\x7d" (toString index)
      Text.replaceAll name "\x7b\x7b.Namespace\x7d\x7d" "default"

end RuntimeConfig

/-! ### Reading the configuration -/

/-- A value that a variable of the environment overrides when it is set. -/
def override (v old : String) : String := if v ≠ "" then v else old

/-- The same for a value that has to be read from the text, and is kept when that
fails. -/
def overrideBy {α : Type} (read : String → Option α) (v : String) (old : α) : α :=
  if v ≠ "" then (read v).getD old else old

/-- A default for a number that is not set. -/
def orDefault (n d : ℤ) : ℤ := if n = 0 then d else n

/-- A default for a text that is not set. -/
def orDefaultText (s d : String) : String := if s = "" then d else s

namespace Config

def resolveDNSDefaults (c : Config) : Config :=
  { c with
    dns.namingTemplate := orDefaultText c.dns.namingTemplate
      ("\x7b\x7b.ClusterName\x7d\x7d-redis-\x7b\x7b.Index\x7d\x7d." ++
        "\x7b\x7b.ClusterName\x7d\x7d-svc.\x7b\x7b.Namespace\x7d\x7d") }

def resolveCacheDefaults (c : Config) : Config :=
  { c with
    cache.maxBytes := orDefault c.cache.maxBytes (2 ^ 30)
    cache.ttl := orDefault c.cache.ttl 3600
    cache.hotKeyThreshold := orDefault c.cache.hotKeyThreshold 100
    cache.hotReplicas := orDefault c.cache.hotReplicas 2
    cache.dbRateLimit := orDefault c.cache.dbRateLimit 200
    cache.serverPort := orDefault c.cache.serverPort 8001
    cache.gossipPort := orDefault c.cache.gossipPort 9001
    cache.cacheGroupName := orDefaultText c.cache.cacheGroupName "default"
    cache.tlsMode := orDefaultText c.cache.tlsMode "insecure" }

def loadFromEnv (c : Config) (env : String → String) : Config :=
  { c with
    redisHostConfigPath := override (env "REDIS_HOST_CONFIG_PATH") c.redisHostConfigPath
    redisConfigPath := override (env "REDIS_CONFIG_PATH") c.redisConfigPath
    redisHostDataPath := override (env "REDIS_HOST_DATA_PATH") c.redisHostDataPath
    redisConfigDataPath := override (env "REDIS_CONFIG_DATA_PATH") c.redisConfigDataPath
    saveFileName := override (env "CLUSTER_SAVE_FILE_NAME") c.saveFileName
    imageName := override (env "CLUSTER_IMAGE_NAME") c.imageName
    runtimeStateDir := override (env "CLUSTER_STATE_DIR") c.runtimeStateDir
    redisPort := overrideBy (fun v => (Text.parseUint 16 v).map UInt16.ofNat)
      (env "CLUSTER_REDIS_PORT") c.redisPort
    backend := override (env "CLUSTER_BACKEND") c.backend
    containerdSocket := override (env "CLUSTER_CONTAINERD_SOCKET") c.containerdSocket
    dbPath := override (env "CLUSTER_DB_PATH") c.dbPath
    dns.enabled := overrideBy Text.parseBool (env "CLUSTER_DNS_ENABLED") c.dns.enabled
    dns.domain := override (env "CLUSTER_DNS_DOMAIN") c.dns.domain
    dns.namingTemplate := override (env "CLUSTER_DNS_NAMING_TEMPLATE") c.dns.namingTemplate
    cache.maxBytes := overrideBy Text.atoi (env "CACHE_MAX_BYTES") c.cache.maxBytes
    cache.ttl := overrideBy Text.atoi (env "CACHE_TTL") c.cache.ttl
    cache.serverPort := overrideBy Text.atoi (env "CACHE_PORT") c.cache.serverPort
    cache.gossipPort := overrideBy Text.atoi (env "CACHE_GOSSIP_PORT") c.cache.gossipPort
    cache.tlsMode := override (env "CACHE_TLS_MODE") c.cache.tlsMode }

def resolvePaths (c : Config) (root : String) : Config :=
  { c with
    redisHostConfigPath := resolveContainerHostPath root c.redisHostConfigPath
    redisHostDataPath := resolveContainerHostPath root c.redisHostDataPath
    runtimeStateDir := resolveLocalAbsPath root c.runtimeStateDir }

/-- Read the configuration: the file (or the error of reading it), the environment,
and the directory the program was built in. -/
def readConfig (root : String) (file : Except String Config) (env : String → String) :
    Except String RuntimeConfig :=
  match file with
  | .error err => .error ("failed to read YAML file: " ++ err)
  | .ok c =>
    let c := (c.loadFromEnv env).resolvePaths root
    let runtimeStateDir := orDefaultText c.runtimeStateDir (Path.join [root, "runtime"])
    if c.redisHostConfigPath = "" then .error "redis host config path is empty"
    else if c.redisHostDataPath = "" then .error "redis host data path is empty"
    else if c.imageName = "" then .error "image name is empty"
    else
      let c := c.resolveCacheDefaults.resolveDNSDefaults
      .ok
        { projectRoot := root
          redisHostConfigPath := c.redisHostConfigPath
          redisHostDataPath := c.redisHostDataPath
          redisConfigPath := orDefaultText c.redisConfigPath "/data/redis/config"
          redisConfigDataPath := orDefaultText c.redisConfigDataPath "/data/redis/data"
          runtimeStateDir := runtimeStateDir
          configSaveFileName := resolveStateFilePath runtimeStateDir
            (orDefaultText c.saveFileName "run_time_config.yaml")
          imageName := c.imageName
          redisContainerPort := if c.redisPort ≠ 0 then c.redisPort else 6379
          backend := orDefaultText c.backend "podman"
          containerdSocket := orDefaultText c.containerdSocket "/run/containerd/containerd.sock"
          dbPath := orDefaultText c.dbPath (Path.join [runtimeStateDir, "cluster.db"])
          cache := some c.cache
          dns := some c.dns }

end Config

/-! ### One file for all clusters -/

theorem resolveLocalAbsPath_isAbs {root p : String} (hroot : Path.isAbs root) (hp : p ≠ "") :
    Path.isAbs (resolveLocalAbsPath root p) := by
  rw [resolveLocalAbsPath]
  split
  · rename_i h
    exact h.resolve_right hp
  · exact Path.isAbs_join hroot [p]

theorem resolveStateFilePath_isAbs {root name : String} (hroot : Path.isAbs root) :
    Path.isAbs (resolveStateFilePath root name) := by
  rw [resolveStateFilePath]
  split
  · assumption
  · exact Path.isAbs_join hroot [name]

/-- An accepted configuration saves the settings of clusters under an absolute path. -/
theorem Config.readConfig_isAbs {root : String} {file : Except String Config}
    {env : String → String} {cfg : RuntimeConfig} (hroot : Path.isAbs root)
    (h : Config.readConfig root file env = .ok cfg) : Path.isAbs cfg.configSaveFileName := by
  cases file with
  | error err => simp [Config.readConfig] at h
  | ok c =>
    simp only [Config.readConfig] at h
    split at h
    · cases h
    split at h
    · cases h
    split at h
    · cases h
    obtain rfl := Except.ok.inj h
    refine resolveStateFilePath_isAbs ?_
    -- the state directory is resolved against the root, or is the default below it
    rw [orDefaultText]
    split
    · exact Path.isAbs_join hroot ["runtime"]
    · rename_i hne
      refine resolveLocalAbsPath_isAbs hroot fun hempty => hne ?_
      simp [resolvePaths, resolveLocalAbsPath, hempty]

/-- The files the settings of clusters are saved in. -/
abbrev ConfigFiles := String → Option RedisClusterConfig

/-- What an invocation does to the saved settings. -/
inductive ConfigOp where
  /-- `persist-config` of a create with these settings. -/
  | create (clusterName : String) (conf : RedisClusterConfig)
  /-- `delete-config` of a delete. -/
  | delete (clusterName : String)
  deriving DecidableEq, Repr

namespace ConfigOp

/-- The settings an invocation leaves behind. -/
def written : ConfigOp → Option RedisClusterConfig
  | .create _ conf => some conf
  | .delete _ => none

def clusterName : ConfigOp → String
  | .create name _ => name
  | .delete name => name

/-- A create removes the file and writes it anew, a delete removes it. -/
def run (cfg : RuntimeConfig) (files : ConfigFiles) (op : ConfigOp) : ConfigFiles :=
  Function.update files (cfg.clusterRuntimeConfigPath op.clusterName) op.written

end ConfigOp

/-- The settings that a scale of the cluster reads after a history of invocations. -/
def RuntimeConfig.readBack (cfg : RuntimeConfig) (files : ConfigFiles) (history : List ConfigOp)
    (clusterName : String) : Option RedisClusterConfig :=
  (history.foldl (ConfigOp.run cfg) files) (cfg.clusterRuntimeConfigPath clusterName)

section Shared

variable {root : String} {file : Except String Config} {env : String → String}
  {cfg : RuntimeConfig}

/-- The path of a cluster is the one the configuration came with. -/
theorem clusterRuntimeConfigPath_eq (hroot : Path.isAbs root)
    (h : Config.readConfig root file env = .ok cfg) (clusterName : String) :
    cfg.clusterRuntimeConfigPath clusterName = cfg.configSaveFileName := by
  rw [RuntimeConfig.clusterRuntimeConfigPath, resolveStateFilePath,
    if_pos (Config.readConfig_isAbs hroot h)]

/-- What is read is what the last invocation left. -/
theorem readBack_append (hroot : Path.isAbs root)
    (h : Config.readConfig root file env = .ok cfg) (files : ConfigFiles)
    (history : List ConfigOp) (op : ConfigOp) (clusterName : String) :
    cfg.readBack files (history ++ [op]) clusterName = op.written := by
  rw [RuntimeConfig.readBack, List.foldl_append, List.foldl_cons, List.foldl_nil, ConfigOp.run,
    clusterRuntimeConfigPath_eq hroot h, clusterRuntimeConfigPath_eq hroot h,
    Function.update_self]

end Shared

/-- **All clusters share one file.** Under every accepted configuration two clusters
have the same path, whatever their names, and what a scale of a cluster reads is what
the last invocation left, whichever cluster that was for. -/
theorem clusterRuntimeConfigPath_shared (root : String) (file : Except String Config)
    (env : String → String) (cfg : RuntimeConfig) (hroot : Path.isAbs root)
    (h : Config.readConfig root file env = .ok cfg) (A B : String) :
    cfg.clusterRuntimeConfigPath A = cfg.clusterRuntimeConfigPath B ∧
      ∀ (files : ConfigFiles) (history : List ConfigOp) (op : ConfigOp),
        cfg.readBack files (history ++ [op]) A = op.written :=
  ⟨(clusterRuntimeConfigPath_eq hroot h A).trans (clusterRuntimeConfigPath_eq hroot h B).symm,
    fun files history op => readBack_append hroot h files history op A⟩

/-- The configuration file of the repository. -/
def shippedConfig : Config where
  backend := "podman"
  redisHostConfigPath := "configs"
  redisConfigPath := "/data/redis/config"
  redisHostDataPath := "configs"
  redisConfigDataPath := "/data/redis/data"
  runtimeStateDir := "runtime"
  saveFileName := "run_time_config.yaml"
  imageName := "redis:7-alpine"
  redisPort := 6379

/-- The configuration of the repository is accepted. -/
theorem shippedConfig_accepted :
    ∃ cfg, Config.readConfig "/srv" (.ok shippedConfig) (fun _ => "") = .ok cfg := by
  rw [Config.readConfig]
  rw [if_neg (by decide), if_neg (by decide), if_neg (by decide)]
  exact ⟨_, rfl⟩

/-- Two clusters under the configuration of the repository: `b` is deleted after `a` has
been created, and a scale of `a` finds no settings. -/
theorem shippedConfig_shared : ∃ cfg,
    Config.readConfig "/srv" (.ok shippedConfig) (fun _ => "") = .ok cfg ∧
      cfg.clusterRuntimeConfigPath "a" = cfg.clusterRuntimeConfigPath "b" ∧
      cfg.readBack (fun _ => none) ([.create "a" ⟨3, 6379⟩] ++ [.delete "b"]) "a" = none := by
  obtain ⟨cfg, h⟩ := shippedConfig_accepted
  have hshared := clusterRuntimeConfigPath_shared "/srv" (.ok shippedConfig) (fun _ => "") cfg
    (by decide) h "a" "b"
  exact ⟨cfg, h, hshared.1, hshared.2 _ _ _⟩

/-- `b` is created after `a`, in the same file, and a scale of `a` reads the settings
of `b`. -/
theorem shippedConfig_not_independent : ∃ cfg,
    Config.readConfig "/srv" (.ok shippedConfig) (fun _ => "") = .ok cfg ∧
      ¬ cfg.clusterRuntimeConfigPath "a" ≠ cfg.clusterRuntimeConfigPath "b" ∧
      cfg.readBack (fun _ => none) ([.create "a" ⟨3, 6379⟩] ++ [.create "b" ⟨2, 7000⟩]) "a" =
        some ⟨2, 7000⟩ := by
  obtain ⟨cfg, h⟩ := shippedConfig_accepted
  refine ⟨cfg, h, fun hne => hne ?_, readBack_append (by decide) h _ _ _ _⟩
  rw [clusterRuntimeConfigPath_eq (by decide) h, clusterRuntimeConfigPath_eq (by decide) h]

end ClusterManager
