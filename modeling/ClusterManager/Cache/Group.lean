import ClusterManager.Cache.HotKeys
import ClusterManager.Cache.Protocol

/-!
# A group, one call after another

`Group` is the cache of one node as its callers see it when they come one after the other: each
function of the group is done before the next one is called. What the others do meanwhile is
`Answers`: what the peers and the getter return, and when the hot keys are pruned. What a call does
to them is part of its `Group.Outcome`: for which keys the getter has been called, and the messages
that have been sent.

A call that does not return gives nothing. It is one that adds to a cache with a negative limit,
or that asks the ring for a negative number of nodes, or pushes a hot key without a registry.
-/

namespace ClusterManager

namespace Cache

structure Group (V : Type) where
  mainCache : LocalCache V
  cacheDirty : Bool := false
  registry : Option Registry := none
  /-- On how many nodes a key is stored. -/
  replicationFactor : ℕ := 2
  hotTracker : Option HotKeyTracker := none
  dbLimiter : Bool := false

/-- What a call of `Get` meets. -/
structure Answers (V : Type) where
  /-- When the request is counted. -/
  now : ℤ := 0
  /-- When hot keys are pruned between that and the end of the call. -/
  prunes : List ℤ := []
  peer : String → Except String V := fun _ => .error ""
  /-- The error of the limiter, if it does not let the load through. -/
  limiter : Option String := none
  getter : Except String V

/-- What a call has done. -/
structure Group.Outcome (V : Type) where
  group : Group V
  result : Except String V
  /-- The keys for which the getter has been called. -/
  getterCalls : List String := []
  sent : List (Message V) := []

namespace Group

variable {V : Type} (len : V → ℕ) (g : Group V)

/-- A new group. -/
def newGroup (cacheBytes : ℤ) : Group V where
  mainCache := { cacheBytes := cacheBytes }

def setReplicationFactor (n : ℤ) : Group V :=
  { g with replicationFactor := if n < 1 then 1 else n.toNat }

def markSlotMigrated (_slot : ℤ) : Group V := { g with cacheDirty := true }

/-- The peers to ask for a key. -/
def candidates (key : String) : List String :=
  match g.registry with
  | none => []
  | some r => r.pickPeerWithFallback key g.replicationFactor

/-- The push to the first candidate. -/
def replicateToSecondaries (key : String) (v : V) : List (Message V) :=
  match g.registry with
  | none => []
  | some r =>
    if g.replicationFactor < 2 then []
    else ((g.candidates key).find? (· ≠ r.localAddr)).toList.map fun peer => .push peer key v

/-- The pushes of a hot key. -/
def replicateIfHot (key : String) (v : V) : Option (List (Message V)) :=
  match g.hotTracker with
  | none => some []
  | some t =>
    if !t.isHot key then some []
    else (t.replicateCandidates key).bind fun candidates =>
      match candidates, g.registry with
      | [], _ => some []
      | _, none => none
      | candidates, some r =>
        some ((candidates.filter (· ∈ r.all)).map fun peer => .push peer key v)

def populateCache (key : String) (v : V) : Option (Group V) :=
  (g.mainCache.add len key v).map fun c => { g with mainCache := c }

/-- Load a value from the source of truth. -/
def getLocally (key : String) (a : Answers V) : Option (Outcome V) :=
  match g.dbLimiter, a.limiter with
  | true, some err => some { group := g, result := .error s!"db load rate limited: {err}" }
  | _, _ =>
    match a.getter with
    | .error err => some { group := g, result := .error err, getterCalls := [key] }
    | .ok v =>
      (g.populateCache len key v).bind fun g' =>
        (g'.replicateIfHot key v).map fun pushes =>
          { group := g', result := .ok v, getterCalls := [key]
            sent := g'.replicateToSecondaries key v ++ pushes }

/-- The answer of the first candidate that has one. -/
def fetch (key : String) (a : Answers V) : Option V :=
  (g.candidates key).findSome? fun peer => (a.peer peer).toOption

/-- Ask the candidates, and load the value if none of them has it. -/
def load (key : String) (a : Answers V) : Option (Outcome V) :=
  match g.fetch key a with
  | some v => (g.populateCache len key v).map fun g' => { group := g', result := .ok v }
  | none => g.getLocally len key a

/-- A request for a key is counted. Nothing else looks at the tracker before the load is over, so
that the prunings of the call may as well come right after. -/
def recorded (key : String) (a : Answers V) : Group V :=
  { g with hotTracker := g.hotTracker.map fun t =>
      a.prunes.foldl HotKeyTracker.prune (t.record key a.now).2 }

/-- Drop the cache if it is dirty. -/
def purged : Group V :=
  { g with
    mainCache := if g.cacheDirty then g.mainCache.purge else g.mainCache
    cacheDirty := false }

/-- Retrieve the value of a key. -/
def get (key : String) (a : Answers V) : Option (Outcome V) :=
  if key = "" then some { group := g, result := .error "key is required" }
  else
    let g' := (g.recorded key a).purged
    let r := g'.mainCache.get key
    match r.1 with
    | some v => some { group := { g' with mainCache := r.2 }, result := .ok v }
    | none => { g' with mainCache := r.2 }.load len key a

def deleteLocal (key : String) : Group V := { g with mainCache := g.mainCache.delete key }

/-- Remove a key and tell all peers. -/
def delete (key : String) : Group V × List (Message V) :=
  (g.deleteLocal key,
    ((g.registry.map Registry.all).getD []).map fun peer => .invalidate peer key)

/-- Store a value that another node has pushed. -/
def storeReplica (key : String) (v : V) : Option (Group V) := g.populateCache len key v

end Group

end Cache

end ClusterManager
