import ClusterManager.Cache.Conf
import ClusterManager.Cache.LruCache

/-!
# The settings of a cache node

The limit of a node's cache comes a long way: the configuration file, a variable of the
environment that overrides it, a default where it is zero, and the flags of the command
(`buildCacheConfig`). No one on this way looks at its sign. Zero becomes the default, so that a
cache of the command always has a limit; a negative number stays what it is, and a cache with a
negative limit never has room: the loop of `LruCache.add` empties it and goes on
(`LruCache.Valid.add_eq_none`).
-/

namespace ClusterManager

/-- The limit that an accepted configuration comes to. -/
theorem Config.cacheMaxBytes_of_readConfig {root : String} {c : Config} {env : String → String}
    {cfg : RuntimeConfig} (h : Config.readConfig root (.ok c) env = .ok cfg) :
    cfg.cacheMaxBytes =
      orDefault (overrideBy Text.atoi (env "CACHE_MAX_BYTES") c.cache.maxBytes) (2 ^ 30) := by
  simp only [Config.readConfig] at h
  split at h
  · cases h
  split at h
  · cases h
  split at h
  · cases h
  cases h
  rfl

namespace Cache

/-- The flags of the command that starts a cache node. -/
structure Flags where
  port : ℤ := 0
  gossip : ℤ := 0
  api : Bool := false
  seeds : List String := []

/-- What a cache node is started with. -/
structure NodeConfig where
  host : String
  port : ℤ
  gossip : ℤ
  isAPI : Bool
  groupName : String
  maxBytes : ℤ
  apiAddr : String
  seedAddrs : List String
  /-- The servers of the configuration file; the command leaves them out. -/
  servers : List Conf.Server := []

/-- The settings of the node: the flags, and the configuration where a flag is not set. -/
def buildCacheConfig (appConfig : RuntimeConfig) (flags : Flags) : NodeConfig where
  host := "0.0.0.0"
  port := orDefault flags.port appConfig.cachePort
  gossip := orDefault flags.gossip appConfig.cacheGossipPort
  isAPI := flags.api
  seedAddrs := flags.seeds
  groupName := appConfig.cacheGroupName
  maxBytes := appConfig.cacheMaxBytes
  apiAddr := if flags.api then appConfig.cacheAPIAddr else ""

/-- A value of the cache. -/
abbrev ByteView := List UInt8

/-- The length of a value. -/
def byteLen (v : ByteView) : ℤ := v.length

theorem byteLen_nonneg (v : ByteView) : 0 ≤ byteLen v := Int.natCast_nonneg _

/-- Whatever has been done to a new cache with this limit, adding to it ends. -/
def AddEnds (maxBytes : ℤ) : Prop :=
  ∀ ops rounds results c, (LruCache.new maxBytes false).exec byteLen rounds ops =
    some (results, c) →
    ∀ key value, ∃ rounds c', c.add byteLen rounds key value = some c'

theorem addEnds_iff (maxBytes : ℤ) : AddEnds maxBytes ↔ 0 ≤ maxBytes := by
  constructor
  · intro h
    by_contra hneg
    obtain ⟨rounds, c', hadd⟩ := h [] 0 [] _ rfl "" []
    rw [(LruCache.valid_new maxBytes false).add_eq_none (not_le.mp hneg) byteLen_nonneg] at hadd
    cases hadd
  · intro hmax ops rounds results c hexec key value
    obtain ⟨hvalid, hbytes⟩ := LruCache.valid_of_exec hmax hexec
    obtain ⟨rounds', c', hadd, -⟩ := hvalid.add (hbytes ▸ hmax) ⟨c.contents, hvalid.nodup_keys⟩ rfl
      key value
    exact ⟨rounds', c', hadd⟩

/-- **When adding ends.** Under an accepted configuration adding to the cache of a node always
ends exactly when the limit that is set, by the variable or else in the file, is not negative. -/
theorem addEnds_of_config_iff (root : String) (c : Config) (env : String → String)
    (cfg : RuntimeConfig) (h : Config.readConfig root (.ok c) env = .ok cfg) (flags : Flags) :
    AddEnds (buildCacheConfig cfg flags).maxBytes ↔
      0 ≤ overrideBy Text.atoi (env "CACHE_MAX_BYTES") c.cache.maxBytes := by
  have hmax : (buildCacheConfig cfg flags).maxBytes = _ := Config.cacheMaxBytes_of_readConfig h
  rw [addEnds_iff, hmax, orDefault]
  split <;> omega

/-- The configuration of the repository sets no limit, and the default is used. -/
theorem addEnds_shippedConfig : ∃ cfg,
    Config.readConfig "/srv" (.ok shippedConfig) (fun _ => "") = .ok cfg ∧
      AddEnds (buildCacheConfig cfg {}).maxBytes := by
  obtain ⟨cfg, h⟩ := shippedConfig_accepted
  exact ⟨cfg, h, (addEnds_of_config_iff "/srv" shippedConfig _ cfg h {}).mpr (by decide)⟩

/-- With `CACHE_MAX_BYTES=-1` the first addition does not end. -/
theorem not_addEnds_negative : ∃ cfg,
    Config.readConfig "/srv" (.ok shippedConfig)
      (fun name => if name = "CACHE_MAX_BYTES" then "-1" else "") = .ok cfg ∧
    ∀ rounds, (LruCache.new (buildCacheConfig cfg {}).maxBytes false).add byteLen rounds "k" [] =
      none := by
  have haccepted : ∃ cfg, Config.readConfig "/srv" (.ok shippedConfig)
      (fun name => if name = "CACHE_MAX_BYTES" then "-1" else "") = .ok cfg := by
    rw [Config.readConfig]
    rw [if_neg (by decide), if_neg (by decide), if_neg (by decide)]
    exact ⟨_, rfl⟩
  obtain ⟨cfg, h⟩ := haccepted
  have hmax : (buildCacheConfig cfg {}).maxBytes = -1 :=
    (Config.cacheMaxBytes_of_readConfig h).trans (by decide)
  refine ⟨cfg, h, (LruCache.valid_new _ false).add_eq_none ?_ byteLen_nonneg "k" []⟩
  rw [hmax]
  decide

end Cache

end ClusterManager
