import ClusterManager.Config
import ClusterManager.Lib.Program
import ClusterManager.Lib.Table

/-!
# Files

The files the operations read and write besides the data directories of the containers:
the saved settings of clusters and the directories they are in. The settings are kept as
they are read back, not as text.
-/

namespace ClusterManager

inductive FileCmd where
  | readFromYAMLFile (fileName : String)
  | writeToYAMLFile (fileName : String) (data : RedisClusterConfig)
  | fileExists (fileName : String)
  | mkdirAll (dir : String)
  | remove (name : String)
  | readDir (dir : String)
  deriving DecidableEq, Repr

abbrev FileCmd.Reply : FileCmd → Type
  | .readFromYAMLFile _ => Except String RedisClusterConfig
  | .fileExists _ => Bool
  | .readDir _ => Except String (List String)
  | .writeToYAMLFile _ _ | .mkdirAll _ | .remove _ => Except String Unit

/-- What is under a path: saved settings, or a directory. -/
abbrev FileEntry := Option RedisClusterConfig

/-- The paths there are. -/
abbrev Files := Table (Prod.fst : String × FileEntry → String)

theorem nodup_files_nil : (([] : List (String × FileEntry)).map Prod.fst).Nodup := List.nodup_nil

namespace Files

variable (f : Files)

/-- What lies in a directory. -/
def entries (dir : String) : List String :=
  f.keys.filter fun path => (dir ++ "/").toList.isPrefixOf path.toList

def noSuchFile (op path : String) : String := s!"{op} {path}: no such file or directory"

def effect : FileCmd → Files
  | .readFromYAMLFile _ | .fileExists _ | .readDir _ => f
  | .writeToYAMLFile path data =>
    f.upsert (path, some data) (fun old => (old.1, some data)) fun _ => rfl
  | .mkdirAll dir => f.insertOrIgnore (dir, none)
  | .remove path => if f.entries path = [] then f.delete fun x => x.1 = path else f

def reply : (c : FileCmd) → c.Reply
  | .readFromYAMLFile path => match f.find path with
    | some (_, some data) => .ok data
    | some (_, none) => .error s!"read {path}: is a directory"
    | none => .error (noSuchFile "open" path)
  | .fileExists path => path ∈ f.keys
  | .readDir dir =>
    if dir ∈ f.keys then .ok (f.entries dir) else .error (noSuchFile "open" dir)
  | .writeToYAMLFile _ _ | .mkdirAll _ => .ok ()
  | .remove path =>
    if path ∉ f.keys then .error (noSuchFile "remove" path)
    else if f.entries path ≠ [] then .error s!"remove {path}: directory not empty"
    else .ok ()

/-- What a request that fails is answered with. Whether a file exists is always told. -/
def failure (err : String) : (c : FileCmd) → c.Reply → c.Reply
  | .readFromYAMLFile _, _ | .readDir _, _ | .writeToYAMLFile _ _, _ | .mkdirAll _, _
  | .remove _, _ => .error err
  | .fileExists _, r => r

end Files

end ClusterManager
