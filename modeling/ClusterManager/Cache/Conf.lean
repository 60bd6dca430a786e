import ClusterManager.Config

/-!
# The configuration file of the cache

A node of the cache that is not started by the command reads a file of its own: the address of the
front end, the servers there are, and the limit of the cache. A server has an address, a port at
which the others ask it for keys, and a port for the gossip by which the nodes find each other.

A node is told which of the servers it is by the variable `PORT` and by nothing else: it is the
first server with that port, or the first of all if the variable is not set or is no number.
Servers on different hosts may well have one port, and `validate` does not mind.
-/

namespace ClusterManager

namespace Cache

namespace Conf

/-- One cache node of the file. -/
structure Server where
  port : ℤ := 0
  api : Bool := false
  ip : String := ""
  gossip : ℤ := 0
  deriving DecidableEq, Repr

namespace Server

variable (s : Server)

/-- The address at which the node is joined. -/
def seedAddr : String := s.ip ++ ":" ++ toString s.gossip

/-- What is not set is filled in. -/
def withDefaults : Server :=
  { s with ip := orDefaultText s.ip "localhost", gossip := orDefault s.gossip (s.port + 1000) }

end Server

/-- The file, as far as it is read. -/
structure Config where
  frontServer : String
  onlineServers : List Server
  maxBytes : ℤ := 0
  deriving DecidableEq, Repr

/-- What there is under a path. -/
inductive ConfigFile where
  | unreadable (err : String)
  | undecodable (err : String)
  | decoded (cfg : Config)
  deriving DecidableEq, Repr

def loadConfig : ConfigFile → Except String Config
  | .unreadable err => .error s!"open config: {err}"
  | .undecodable err => .error s!"decode config: {err}"
  | .decoded cfg => .ok { cfg with onlineServers := cfg.onlineServers.map Server.withDefaults }

/-- The loop of `validate` over the servers; `i` is the index of the first one. -/
def validateServers : ℕ → List Server → Except String Unit
  | _, [] => .ok ()
  | i, s :: rest =>
    if s.port ≤ 0 ∨ 65535 < s.port then .error s!"online-servers[{i}]: invalid port {s.port}"
    else if s.ip = "" then .error s!"online-servers[{i}]: ip is required"
    else if s.gossip ≤ 0 ∨ 65535 < s.gossip then
      .error s!"online-servers[{i}]: invalid gossip port {s.gossip}"
    else validateServers (i + 1) rest

namespace Config

variable (c : Config)

/-- The configuration when it has been checked: a limit that is not set is filled in. -/
def validate : Except String Config :=
  if c.frontServer = "" then .error "front-server is required"
  else if c.onlineServers.length = 0 then .error "at least one online-server is required"
  else
    match validateServers 0 c.onlineServers with
    | .error err => .error err
    | .ok () => .ok { c with maxBytes := if c.maxBytes ≤ 0 then 256 * 2 ^ 20 else c.maxBytes }

/-- The first server with the port. -/
def selfServer (port : ℤ) : Option Server := c.onlineServers.find? fun s => s.port = port

end Config

/-- The addresses of the servers with another port: `Config.SeedAddrs` of the file and
`seedAddrs` of the node, which are the same loop. -/
def seedAddrs (servers : List Server) (excludePort : ℤ) : List String :=
  (servers.filter fun s => s.port ≠ excludePort).map Server.seedAddr

/-- The port of the node, by the variable `PORT`. -/
def pickPort (env : String) (cfg : Config) : ℤ :=
  overrideBy Text.atoi env
    (match cfg.onlineServers with
    | s :: _ => s.port
    | [] => 8001)

/-! ### What is accepted -/

/-- In an accepted list every address and every gossip port is set, -/
theorem set_of_validateServers {i : ℕ} {servers : List Server}
    (h : validateServers i servers = .ok ()) :
    ∀ s ∈ servers, s.ip ≠ "" ∧ s.gossip ≠ 0 := by
  induction servers generalizing i with
  | nil => exact List.forall_mem_nil _
  | cons s servers ih =>
    rw [validateServers] at h
    split at h
    · cases h
    split at h
    · cases h
    rename_i hip
    split at h
    · cases h
    rename_i hgossip
    exact List.forall_mem_cons.mpr ⟨⟨hip, by omega⟩, ih h⟩

/-- so that there is a file for it: loading it fills nothing in. -/
theorem loadConfig_of_validate {c c' : Config} (h : c.validate = .ok c') :
    loadConfig (.decoded c) = .ok c := by
  have hservers : validateServers 0 c.onlineServers = .ok () := by
    rw [Config.validate] at h
    split at h
    · cases h
    split at h
    · cases h
    split at h
    · cases h
    · assumption
  have hsame : c.onlineServers.map Server.withDefaults = c.onlineServers := by
    refine (List.map_congr_left fun s hs => ?_).trans (List.map_id _)
    obtain ⟨hip, hgossip⟩ := set_of_validateServers hservers s hs
    rw [Server.withDefaults, orDefaultText, if_neg hip, orDefault, if_neg hgossip]
    rfl
  rw [loadConfig, hsame]

end Conf

end Cache

end ClusterManager
