import ClusterManager.Cache.ConsistentHash

/-!
# The peers of a cache node

A `Registry` is what one node of the cache knows of the others: the hash ring, with its
own address on it, and a client for each peer. `Registry.pickPeerWithFallback` gives the
peers to ask for a key: the first owners of the key on the ring, without the node
itself.
-/

namespace ClusterManager

/-- The peers of a node. `getters` are the addresses there is a client for. -/
structure Registry where
  localAddr : String
  hashRing : Ring
  getters : List String := []

namespace Registry

/-- The peer that owns a key, if it is another node with a client. -/
def pickPeer (r : Registry) (key : String) : Option String :=
  let addr := r.hashRing.get key
  if addr = "" ∨ addr = r.localAddr then none
  else if addr ∈ r.getters then some addr else none

/-- Up to `n` candidates for a key. -/
def pickPeerWithFallback (r : Registry) (key : String) (n : ℕ) : List String :=
  (r.hashRing.getN key n).filter fun addr => addr ≠ r.localAddr ∧ addr ∈ r.getters

/-- All peers there is a client for. -/
def all (r : Registry) : List String := r.getters.filter (· ≠ r.localAddr)

/-- A peer joins; `ok` says whether a client for it could be made. -/
def addToRing (r : Registry) (addr : String) (ok : Bool) : Registry :=
  if addr ∈ r.getters then r
  else if !ok then r
  else { r with hashRing := r.hashRing.add [addr], getters := r.getters ++ [addr] }

/-- A peer leaves. -/
def removeFromRing (r : Registry) (addr : String) : Registry :=
  { r with hashRing := r.hashRing.remove addr, getters := r.getters.filter (· ≠ addr) }

end Registry

end ClusterManager
