import ClusterManager.Cache.Registry

/-!
# Forwarding a key

A node that does not have a key asks the candidates its registry gives it, one after the
other, and calls the getter itself when none of them has answered. A candidate does the
same, with its own candidates, while the first node waits. `Cluster.get` follows such a
chain through the nodes of a cache cluster; as nothing bounds it, it takes a number of
nested calls it may use, and gives nothing when it runs out.

Every node leaves out itself, and only itself. So with two owners of a key among the
candidates, the first asks the second and the second asks the first, and so on
(`Cluster.get_eq_none`); the chain ends exactly when there is at most one.
-/

namespace ClusterManager

namespace Cache

/-- Something that happens on the way of a request. -/
inductive Event where
  /-- A node asks another; `waiting` are the nodes that wait for it. -/
  | ask (asker peer : String) (waiting : List String)
  /-- A node calls its getter. -/
  | getter (node : String)
  /-- A node pushes the value to another. -/
  | push (node peer : String)
  deriving DecidableEq, Repr

/-- A cluster of cache nodes with one group: the registry of each node, the getter of
each, and the replication factor. -/
structure Cluster (V : Type) where
  registry : String → Registry
  getter : String → String → Except String V
  replicationFactor : ℕ

/-- The caches of the nodes, and whether a node is to empty its cache first. -/
structure Caches (V : Type) where
  entry : String → String → Option V := fun _ _ => none
  dirty : String → Bool := fun _ => false

namespace Caches

variable {V : Type}

/-- Put a value into the cache of a node. -/
def add (c : Caches V) (node key : String) (v : V) : Caches V :=
  { c with entry := Function.update c.entry node (Function.update (c.entry node) key (some v)) }

/-- Empty the cache of a node that has been marked. -/
def purge (c : Caches V) (node : String) : Caches V :=
  if c.dirty node then
    { entry := Function.update c.entry node fun _ => none
      dirty := Function.update c.dirty node false }
  else c

end Caches

/-- How a request ends: its result, the caches it leaves, and what happened. -/
abbrev Outcome (V : Type) := Except String V × Caches V × List Event

namespace Cluster

variable {V : Type} (cl : Cluster V)

/-- Push a new value to the first candidate. -/
def replicateToSecondaries (node key : String) : List Event :=
  if cl.replicationFactor < 2 then []
  else ((cl.registry node).pickPeerWithFallback key cl.replicationFactor).head?.toList.map
    (.push node)

/-- Call the getter of a node, keep what it gives and push it on. -/
def getLocally (node key : String) (c : Caches V) : Outcome V :=
  match cl.getter node key with
  | .error err => (.error err, c, [.getter node])
  | .ok v => (.ok v, c.add node key v, .getter node :: cl.replicateToSecondaries node key)

/-- Ask candidates one after the other; `ask` is the request to a peer. -/
def tryPeers (node key : String) (waiting : List String)
    (ask : String → Caches V → Option (Outcome V)) : List String → Caches V → Option (Outcome V)
  | [], c => some (cl.getLocally node key c)
  | peer :: rest, c =>
    (ask peer c).bind fun (r, c', events) =>
      match r with
      | .ok v => some (.ok v, c'.add node key v, .ask node peer waiting :: events)
      | .error _ =>
        -- the next one is tried
        (tryPeers node key waiting ask rest c').map fun (r, c'', events') =>
          (r, c'', .ask node peer waiting :: (events ++ events'))

/-- A request for a key at a node, while `waiting` wait for it. -/
def get : ℕ → List String → String → String → Caches V → Option (Outcome V)
  | 0, _, _, _, _ => none
  | fuel + 1, waiting, key, node, c =>
    if key = "" then some (.error "key is required", c, [])
    else
      let c := c.purge node
      match c.entry node key with
      | some v => some (.ok v, c, [])
      | none =>
        cl.tryPeers node key waiting (get fuel (node :: waiting) key)
          ((cl.registry node).pickPeerWithFallback key cl.replicationFactor) c

/-- All nodes have the same ring, and a client for each owner on it but themselves. -/
structure SharedView (ring : Ring) : Prop where
  localAddr : ∀ node, (cl.registry node).localAddr = node
  hashRing : ∀ node, (cl.registry node).hashRing = ring
  reachable : ∀ node addr, ring.Owns addr → addr ≠ node → addr ∈ (cl.registry node).getters

variable {cl} {ring : Ring} {key node : String} {c : Caches V}

/-- The candidates of a node are the owners of the key without the node. -/
theorem SharedView.candidates (h : cl.SharedView ring) :
    (cl.registry node).pickPeerWithFallback key cl.replicationFactor =
      (ring.getN key cl.replicationFactor).filter (· ≠ node) := by
  rw [Registry.pickPeerWithFallback, h.hashRing]
  refine List.filter_congr fun addr haddr => ?_
  rw [h.localAddr, decide_eq_decide]
  exact ⟨fun hne => hne.1,
    fun hne => ⟨hne, h.reachable node addr (Ring.owns_of_mem_getN haddr) hne⟩⟩

theorem purge_entry_of_absent (h : ∀ node, c.entry node key = none) (x : String) :
    ∀ node, (c.purge x).entry node key = none := by
  intro node
  rw [Caches.purge]
  split
  · simp only [Function.update_apply]
    split
    · rfl
    · exact h node
  · exact h node

/-- A request for an absent key goes on to the candidates. -/
theorem get_succ_of_absent (hkey : key ≠ "") (habsent : ∀ node, c.entry node key = none)
    (h : cl.SharedView ring) (fuel : ℕ) (waiting : List String) :
    cl.get (fuel + 1) waiting key node c =
      cl.tryPeers node key waiting (cl.get fuel (node :: waiting) key)
        ((ring.getN key cl.replicationFactor).filter (· ≠ node)) (c.purge node) := by
  rw [get, if_neg hkey]
  simp only [purge_entry_of_absent habsent node node, h.candidates]

/-- **With two owners among the candidates the chain has no end.** -/
theorem get_eq_none (hkey : key ≠ "") (habsent : ∀ node, c.entry node key = none)
    (h : cl.SharedView ring) (htwo : 1 < (ring.getN key cl.replicationFactor).length)
    (fuel : ℕ) (waiting : List String) : cl.get fuel waiting key node c = none := by
  induction fuel generalizing waiting node c with
  | zero => rfl
  | succ fuel ih =>
    rw [get_succ_of_absent hkey habsent h]
    -- of two owners one is another node, so there is a candidate, and the chain goes on there
    cases hcand : (ring.getN key cl.replicationFactor).filter (· ≠ node) with
    | nil =>
      exfalso
      match hl : ring.getN key cl.replicationFactor with
      | [] | [_] => simp [hl] at htwo
      | a :: b :: rest =>
        have hnd : (ring.getN key cl.replicationFactor).Nodup := Ring.getN_nodup
        rw [hl] at hnd hcand
        have ha : a = node := by simpa using List.filter_eq_nil_iff.mp hcand a (by simp)
        have hb : b = node := by simpa using List.filter_eq_nil_iff.mp hcand b (by simp)
        exact (List.nodup_cons.mp hnd).1 (by simp [ha, hb])
    | cons peer rest =>
      rw [tryPeers, ih (purge_entry_of_absent habsent node)]
      rfl

/-- The events of a request without the pushes, which nobody waits for. -/
def chain (events : List Event) : List Event :=
  events.filter fun e => match e with
    | .push _ _ => false
    | .ask _ _ _ | .getter _ => true

/-- The chain of a request is finite, asks no node that is waiting in it, and ends with
a call of a getter. -/
def EndsAtSource (cl : Cluster V) (c : Caches V) (key node : String) : Prop :=
  ∃ fuel r c' events, cl.get fuel [] key node c = some (r, c', events) ∧
    (∀ asker peer waiting, .ask asker peer waiting ∈ events → peer ∉ asker :: waiting) ∧
    ∃ n, (chain events).getLast? = some (.getter n)

/-- The getter is the end of a chain. -/
theorem getLocally_events (cl : Cluster V) (node key : String) (c : Caches V) :
    chain (cl.getLocally node key c).2.2 = [.getter node] ∧
      ∀ asker peer waiting, .ask asker peer waiting ∉ (cl.getLocally node key c).2.2 := by
  rw [getLocally]
  cases cl.getter node key with
  | error err => simp [chain]
  | ok v =>
    simp only [replicateToSecondaries]
    split
    · simp [chain]
    · cases ((cl.registry node).pickPeerWithFallback key cl.replicationFactor).head? <;>
        simp [chain]

/-- A node without candidates calls its getter. -/
theorem get_of_no_candidate (hkey : key ≠ "") (habsent : ∀ node, c.entry node key = none)
    (h : cl.SharedView ring)
    (hcand : (ring.getN key cl.replicationFactor).filter (· ≠ node) = []) (fuel : ℕ)
    (waiting : List String) :
    cl.get (fuel + 1) waiting key node c = some (cl.getLocally node key (c.purge node)) := by
  rw [get_succ_of_absent hkey habsent h, hcand, tryPeers]

theorem chain_append (l l' : List Event) : chain (l ++ l') = chain l ++ chain l' :=
  List.filter_append _ _

/-- With one owner the chain has at most one request to a peer. -/
theorem endsAtSource_of_length_le (hkey : key ≠ "")
    (habsent : ∀ node, c.entry node key = none) (h : cl.SharedView ring)
    (hone : (ring.getN key cl.replicationFactor).length ≤ 1) : EndsAtSource cl c key node := by
  cases hcand : (ring.getN key cl.replicationFactor).filter (· ≠ node) with
  | nil =>
    obtain ⟨hchain, hask⟩ := getLocally_events cl node key (c.purge node)
    have hget := get_of_no_candidate hkey habsent h hcand 0 []
    generalize cl.getLocally node key (c.purge node) = out at hchain hask hget
    refine ⟨1, out.1, out.2.1, out.2.2, hget, ?_, node, ?_⟩
    · exact fun asker peer waiting hmem => absurd hmem (hask asker peer waiting)
    · rw [hchain]
      rfl
  | cons peer rest =>
    obtain ⟨hpeer, hne⟩ : peer ∈ ring.getN key cl.replicationFactor ∧ peer ≠ node := by
      have hmem : peer ∈ (ring.getN key cl.replicationFactor).filter (· ≠ node) := by
        rw [hcand]
        exact List.mem_cons_self
      simpa using List.mem_filter.mp hmem
    have hall : ring.getN key cl.replicationFactor = [peer] := by
      obtain ⟨a, ha⟩ := List.length_eq_one_iff.mp
        (le_antisymm hone (List.length_pos_of_mem hpeer))
      rw [ha, List.mem_singleton] at hpeer
      rw [ha, hpeer]
    obtain rfl : rest = [] := by
      rw [hall] at hcand
      simpa [hne] using hcand
    -- the peer has no candidate of its own
    have hget : ∀ waiting, cl.get 1 waiting key peer (c.purge node) =
        some (cl.getLocally peer key ((c.purge node).purge peer)) := fun waiting =>
      get_of_no_candidate hkey (purge_entry_of_absent habsent node) h (by simp [hall]) 0 waiting
    have hpeerEvents := getLocally_events cl peer key ((c.purge node).purge peer)
    have hstart : cl.get 2 [] key node c = _ := get_succ_of_absent hkey habsent h 1 []
    rw [hcand, tryPeers, hget, Option.bind_some] at hstart
    generalize cl.getLocally peer key ((c.purge node).purge peer) = out at hstart hpeerEvents
    obtain ⟨r, c', events⟩ := out
    obtain ⟨hchain, hask⟩ := hpeerEvents
    cases r with
    | ok v =>
      refine ⟨2, _, _, _, hstart, fun asker peer' waiting hmem => ?_, peer, ?_⟩
      · rcases List.mem_cons.mp hmem with heq | hmem
        · obtain ⟨rfl, rfl, rfl⟩ := Event.ask.inj heq
          simpa using hne
        · exact absurd hmem (hask asker peer' waiting)
      · rw [chain, List.filter_cons_of_pos rfl, ← chain, hchain]
        rfl
    | error err =>
      have hstart' : cl.get 2 [] key node c = some ((cl.getLocally node key c').1,
        (cl.getLocally node key c').2.1,
        .ask node peer [] :: (events ++ (cl.getLocally node key c').2.2)) := hstart
      obtain ⟨hchain', hask'⟩ := getLocally_events cl node key c'
      refine ⟨2, _, _, _, hstart', fun asker peer' waiting hmem => ?_, node, ?_⟩
      · rcases List.mem_cons.mp hmem with heq | hmem
        · obtain ⟨rfl, rfl, rfl⟩ := Event.ask.inj heq
          simpa using hne
        · rcases List.mem_append.mp hmem with hmem | hmem
          · exact absurd hmem (hask asker peer' waiting)
          · exact absurd hmem (hask' asker peer' waiting)
      · rw [chain, List.filter_cons_of_pos rfl, ← chain, chain_append, hchain, hchain']
        rfl

/-- **When forwarding ends at the source.** For a key that is in no cache, from whichever
node it is asked for: exactly when the replication factor is 1, or one node owns all the
points of the ring. -/
theorem endsAtSource_iff (cl : Cluster V) (ring : Ring) (c : Caches V) (key node : String)
    (h : cl.SharedView ring) (hr : 1 ≤ cl.replicationFactor) (hkey : key ≠ "")
    (habsent : ∀ node, c.entry node key = none) :
    EndsAtSource cl c key node ↔
      cl.replicationFactor = 1 ∨ ∀ a b, ring.Owns a → ring.Owns b → a = b := by
  rcases Nat.lt_or_ge 1 (ring.getN key cl.replicationFactor).length with htwo | hone
  · obtain ⟨hfactor, a, b, ha, hb, hab⟩ := Ring.one_lt_length_getN.mp htwo
    refine ⟨?_, ?_⟩
    · rintro ⟨fuel, r, c', events, hget, -⟩
      rw [get_eq_none hkey habsent h htwo] at hget
      cases hget
    · rintro (h1 | heq)
      · omega
      · exact absurd (heq a b ha hb) hab
  · refine iff_of_true (endsAtSource_of_length_le hkey habsent h hone) ?_
    by_contra hcon
    rw [not_or] at hcon
    have hnone : ¬ ∃ a b, ring.Owns a ∧ ring.Owns b ∧ a ≠ b := by
      intro htwo
      have hlt : 1 < (ring.getN key cl.replicationFactor).length :=
        Ring.one_lt_length_getN.mpr ⟨by omega, htwo⟩
      omega
    exact hcon.2 fun a b ha hb => by_contra fun hab => hnone ⟨a, b, ha, hb, hab⟩

end Cluster

/-! ### Two nodes -/

/-- A ring with the nodes `a` and `b`, one point each. -/
def twoNodeRing : Ring :=
  ({ hash := fun s => (s.toList.map Char.toNat).sum, replicas := 1 } : Ring).add ["a", "b"]

/-- Two nodes that know each other. -/
def twoNodes (replicationFactor : ℕ) : Cluster ℕ where
  registry node := { localAddr := node, hashRing := twoNodeRing, getters := ["a", "b"] }
  getter _ _ := .ok 7
  replicationFactor := replicationFactor

theorem owns_twoNodeRing {addr : String} (h : twoNodeRing.Owns addr) : addr ∈ ["a", "b"] := by
  obtain ⟨p, hp, rfl⟩ := h
  revert p
  decide

theorem twoNodes_sharedView (r : ℕ) : (twoNodes r).SharedView twoNodeRing where
  localAddr _ := rfl
  hashRing _ := rfl
  reachable _ _ ho _ := owns_twoNodeRing ho

/-- With one copy of each key the request ends. -/
theorem endsAtSource_one_copy : Cluster.EndsAtSource (twoNodes 1) {} "k" "a" :=
  (Cluster.endsAtSource_iff (twoNodes 1) twoNodeRing {} "k" "a" (twoNodes_sharedView 1)
    (by decide) (by decide) fun _ => rfl).mpr (Or.inl rfl)

/-- With two copies the two nodes ask each other for ever. -/
theorem not_endsAtSource_two_copies : ¬ Cluster.EndsAtSource (twoNodes 2) {} "k" "a" := by
  rintro ⟨fuel, r, c', events, hget, -⟩
  rw [Cluster.get_eq_none (by decide) (fun _ => rfl) (twoNodes_sharedView 2) (by decide)] at hget
  cases hget

end Cache

end ClusterManager
