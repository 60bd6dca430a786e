import ClusterManager.Cache.Lru
import ClusterManager.Cache.Registry
import ClusterManager.Cache.SingleFlight

/-!
# Cache nodes and their messages

A group of the cache lives on several nodes. `State` is all of them together, with the calls
of `Get` that are under way and the messages between the nodes. A step is one stretch of a
call between two points at which something else can happen – the swap of the dirty flag, the
purge, the look-up, each request to a peer, the call of the getter, the addition to the cache,
the pushes – or the arrival of a message. A run is any interleaving of such steps, so that
messages arrive in any order.

What a node cannot decide for itself is part of the action: what the getter returns, whether
the limiter lets a load through, whether a key is hot, and that a request to a peer fails,
which it can do at any time. Nodes join and leave the ring of a node whenever they like.

A request to a peer is served there by a call of its own. Which calls there are is given by a
`Plan`: the node and the key of each, and for one that serves a request the call that has made
it.
-/

namespace ClusterManager

namespace Cache

/-- The calls of `Get`: where each is made, for which key, and for which other call if it
serves a request of a peer. -/
structure Plan where
  node : ℕ → String
  key : ℕ → String
  origin : ℕ → Option ℕ
  /-- A request is for the key of the call that makes it. -/
  key_origin : ∀ rpc i, origin rpc = some i → key rpc = key i

/-- Where a call is. -/
inductive Phase (V : Type) where
  | idle
  /-- The request to serve is on its way. -/
  | requested
  | swap
  | purge
  | lookup
  /-- About to enter the single flight of the node. -/
  | enter
  /-- Waiting for the record of another call. -/
  | wait
  | pick
  /-- About to ask a peer; `rest` are the next ones. -/
  | ask (peer : String) (rest : List String)
  | await (rpc : ℕ) (rest : List String)
  /-- A peer has answered, and the value is still to be added to the cache. -/
  | fetched (v : V)
  | limit
  | source
  /-- The getter has returned, and the value is still to be added to the cache. -/
  | loaded (v : V)
  | secondaries (v : V)
  | hot (v : V)
  /-- The function that loads has returned. -/
  | complete (r : Except String V)
  | forget (r : Except String V)
  | returned (r : Except String V)
  /-- The peer has been sent the result. -/
  | answered

/-- A message on its way. -/
inductive Message (V : Type) where
  | request (rpc : ℕ)
  | response (rpc : ℕ) (r : Except String V)
  | push (peer key : String) (v : V)
  /-- A deletion whose node has still to tell its peers. -/
  | broadcast (node key : String)
  | invalidate (peer key : String)

structure Node (V : Type) where
  cache : LocalCache V
  cacheDirty : Bool := false
  registry : Option Registry := none
  /-- On how many nodes a key is stored. -/
  replicationFactor : ℕ := 2
  /-- To how many more nodes a hot key is pushed, if there is a tracker. -/
  hotReplicas : Option ℕ := none
  dbLimiter : Bool := false
  loader : SingleFlight.State ℕ String (Except String V) := {}

structure State (V : Type) where
  nodes : String → Node V
  phase : ℕ → Phase V := fun _ => .idle
  net : List (Message V) := []

/-- What a call is told at a step. -/
inductive Choice (V : Type) where
  | go
  /-- The limiter lets the load through, or gives an error. -/
  | limit (err : Option String)
  | getter (r : Except String V)
  | hot (isHot : Bool)

inductive Action (V : Type) where
  | get (i : ℕ)
  /-- The next step of a call at its node. -/
  | step (i : ℕ) (c : Choice V)
  | ask (i rpc : ℕ)
  /-- The request to a peer has failed, or has taken too long. -/
  | fail (i : ℕ)
  | answer (i : ℕ)
  | delete (node key : String)
  /-- The message at a place arrives. -/
  | deliver (k : ℕ)
  | lose (k : ℕ)
  | join (node addr : String) (ok : Bool)
  | leave (node addr : String)
  | markSlotMigrated (node : String)

variable {V : Type}

namespace Node

def candidates (n : Node V) (key : String) : List String :=
  match n.registry with
  | none => []
  | some r => r.pickPeerWithFallback key n.replicationFactor

/-- The push to the first candidate. -/
def replicateToSecondaries (n : Node V) (key : String) (v : V) : List (Message V) :=
  if n.replicationFactor < 2 then []
  else (n.candidates key).head?.toList.map fun peer => .push peer key v

/-- The pushes of a hot key. -/
def replicateIfHot (n : Node V) (key : String) (v : V) (isHot : Bool) : List (Message V) :=
  match isHot, n.hotReplicas, n.registry with
  | true, some replicas, some r =>
    ((r.pickPeerWithFallback key (replicas + 1)).filter fun addr =>
      addr ≠ r.localAddr ∧ addr ∈ r.all).map fun peer => .push peer key v
  | _, _, _ => []

/-- Tell all peers that a key is not to be cached any longer. -/
def broadcastInvalidation (n : Node V) (key : String) : List (Message V) :=
  match n.registry with
  | none => []
  | some r => r.all.map fun peer => .invalidate peer key

end Node

/-- The first peer is asked; without one the value is loaded. -/
def Phase.tryNext : List String → Phase V
  | [] => .limit
  | peer :: rest => .ask peer rest

/-- The beginning of `Get`. -/
def Phase.start (key : String) : Phase V :=
  if key = "" then .returned (.error "key is required") else .swap

namespace State

variable (s : State V)

def setPhase (i : ℕ) (ph : Phase V) : State V := { s with phase := Function.update s.phase i ph }

def setNode (node : String) (n : Node V) : State V :=
  { s with nodes := Function.update s.nodes node n }

def send (ms : List (Message V)) : State V := { s with net := s.net ++ ms }

/-- The message at a place is no longer on its way. -/
def drop (k : ℕ) : State V := { s with net := s.net.eraseIdx k }

end State

/-- One step of a call for a key at its node: the node and the phase after it, and the messages
it sends. `len` is the length of a value. -/
def Node.advance (plan : Plan) (len : V → ℕ) (i : ℕ) (n : Node V) :
    Phase V → Choice V → Option (Node V × Phase V × List (Message V))
  | .swap, .go =>
    if n.cacheDirty then some ({ n with cacheDirty := false }, .purge, [])
    else some (n, .lookup, [])
  | .purge, .go => some ({ n with cache := n.cache.purge }, .lookup, [])
  | .lookup, .go =>
    let r := n.cache.get (plan.key i)
    match r.1 with
    | some v => some ({ n with cache := r.2 }, .returned (.ok v), [])
    | none => some ({ n with cache := r.2 }, .enter, [])
  | .enter, .go =>
    (SingleFlight.step plan.key n.loader (.enter i)).map fun l =>
      match l.phase i with
      | .running => ({ n with loader := l }, .pick, [])
      | _ => ({ n with loader := l }, .wait, [])
  | .wait, .go =>
    (SingleFlight.step plan.key n.loader (.wake i)).bind fun l =>
      match l.phase i with
      | .returned r => some ({ n with loader := l }, .returned r, [])
      | _ => none
  | .pick, .go => some (n, Phase.tryNext (n.candidates (plan.key i)), [])
  | .fetched v, .go =>
    (n.cache.add len (plan.key i) v).map fun c => ({ n with cache := c }, .complete (.ok v), [])
  | .limit, .limit none => some (n, .source, [])
  | .limit, .limit (some err) =>
    if n.dbLimiter then some (n, .complete (.error s!"db load rate limited: {err}"), []) else none
  | .source, .getter (.ok v) => some (n, .loaded v, [])
  | .source, .getter (.error err) => some (n, .complete (.error err), [])
  | .loaded v, .go =>
    (n.cache.add len (plan.key i) v).map fun c => ({ n with cache := c }, .secondaries v, [])
  | .secondaries v, .go => some (n, .hot v, n.replicateToSecondaries (plan.key i) v)
  | .hot v, .hot isHot => some (n, .complete (.ok v), n.replicateIfHot (plan.key i) v isHot)
  | .complete r, .go =>
    (SingleFlight.step plan.key n.loader (.complete i r)).map fun l =>
      ({ n with loader := l }, .forget r, [])
  | .forget r, .go =>
    (SingleFlight.step plan.key n.loader (.delete i)).map fun l =>
      ({ n with loader := l }, .returned r, [])
  | _, _ => none

/-- What a message does when it arrives. -/
def receive (plan : Plan) (len : V → ℕ) (s : State V) : Message V → Option (State V)
  | .request rpc =>
    match s.phase rpc with
    | .requested => some (s.setPhase rpc (Phase.start (plan.key rpc)))
    | _ => some s
  | .response rpc r =>
    match plan.origin rpc with
    | none => some s
    | some i => match s.phase i with
      | .await rpc' rest =>
        -- an answer that comes too late is of no use
        if rpc' = rpc then match r with
          | .ok v => some (s.setPhase i (.fetched v))
          | .error _ => some (s.setPhase i (Phase.tryNext rest))
        else some s
      | _ => some s
  | .push peer key v =>
    ((s.nodes peer).cache.add len key v).map fun c =>
      s.setNode peer { s.nodes peer with cache := c }
  | .broadcast node key => some (s.send ((s.nodes node).broadcastInvalidation key))
  | .invalidate peer key =>
    some (s.setNode peer { s.nodes peer with cache := (s.nodes peer).cache.delete key })

/-- One step of the nodes and their messages. -/
def step (plan : Plan) (len : V → ℕ) (s : State V) : Action V → Option (State V)
  | .get i =>
    match s.phase i, plan.origin i with
    | .idle, none => some (s.setPhase i (Phase.start (plan.key i)))
    | _, _ => none
  | .step i c =>
    ((s.nodes (plan.node i)).advance plan len i (s.phase i) c).map fun (n, ph, ms) =>
      ((s.setNode (plan.node i) n).setPhase i ph).send ms
  | .ask i rpc =>
    match s.phase i, s.phase rpc with
    | .ask peer rest, .idle =>
      if plan.node rpc = peer ∧ plan.origin rpc = some i then
        some (((s.setPhase i (.await rpc rest)).setPhase rpc .requested).send [.request rpc])
      else none
    | _, _ => none
  | .fail i =>
    match s.phase i with
    | .await _ rest => some (s.setPhase i (Phase.tryNext rest))
    | _ => none
  | .answer i =>
    match s.phase i, plan.origin i with
    | .returned r, some _ => some ((s.setPhase i .answered).send [.response i r])
    | _, _ => none
  | .delete node key =>
    let s' := s.setNode node { s.nodes node with cache := (s.nodes node).cache.delete key }
    some (if (s.nodes node).registry.isSome then s'.send [.broadcast node key] else s')
  | .deliver k =>
    match s.net[k]? with
    | none => none
    | some m => receive plan len (s.drop k) m
  | .lose k => if k < s.net.length then some (s.drop k) else none
  | .join node addr ok =>
    some (s.setNode node { s.nodes node with
      registry := (s.nodes node).registry.map fun r => r.addToRing addr ok })
  | .leave node addr =>
    some (s.setNode node { s.nodes node with
      registry := (s.nodes node).registry.map fun r => r.removeFromRing addr })
  | .markSlotMigrated node => some (s.setNode node { s.nodes node with cacheDirty := true })

/-- Nothing has happened yet: the caches are empty, no call has been made and no message
sent. -/
structure State.Init (s : State V) : Prop where
  lru : ∀ node, (s.nodes node).cache.lru = none
  loader : ∀ node, (s.nodes node).loader = {}
  phase : ∀ i, s.phase i = .idle
  net : s.net = []

end Cache

end ClusterManager
