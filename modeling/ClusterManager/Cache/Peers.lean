import Mathlib.Data.Finset.Insert
import ClusterManager.Lib.Table
import ClusterManager.Cache.Membership
import ClusterManager.Cache.Registry

/-!
# The clients of a registry

A node of the cache hears from the membership service which nodes join and leave, and keeps two
things up to date: the ring, and a gRPC client for each peer. `ClusterManager.Cache.Registry`
has of the clients only the addresses; `ClientRegistry` has the clients themselves, so that one
can say that a client has been closed. A client is told by the number of its connection, which
is a new one each time a peer is dialed.

The two are changed by handlers that may stop half way: a peer that is known is not added again,
and one that cannot be dialed is not added at all. The node itself is on the ring from the start
without a client; when it hears of itself it may get one, and when it hears that it has left it
goes off the ring. `Routable` is what all this keeps, in every order: each point of the ring
belongs to the node itself or to a peer with a client that is in the map and open. What is
said of the lookups follows from it (`routes_after_events`).

`ClientRegistry.view` forgets the clients. It takes the handlers and the lookups here to those of
`Registry`, which the rest of the cache is built on.
-/

namespace ClusterManager

/-- A client for a peer: the address it was made for, and its connection. -/
structure GrpcGetter where
  addr : String
  conn : ℕ
  deriving DecidableEq, Repr

/-- A registry with its clients. `dialed` counts the connections that have been opened so far,
`closed` has those that have been closed again. -/
structure ClientRegistry where
  localAddr : String
  hashRing : Ring
  grpcGetters : Table GrpcGetter.addr := {}
  dialed : ℕ := 0
  closed : Finset ℕ := ∅

/-- The points each node has on the ring. -/
def defaultReplicas : ℕ := 50

/-- A host and a port as one address. A host with a colon is put into brackets. -/
def joinHostPort (host port : String) : String :=
  if ':' ∈ host.toList then "[" ++ host ++ "]:" ++ port else host ++ ":" ++ port

/-- What the membership service tells of a node. Of a join, `dials` says whether the node can
be dialed then. -/
inductive PeerEvent where
  | join (addr : String) (dials : Bool)
  | leave (addr : String)
  | update (addr : String)

/-- The node an event is about. -/
def PeerEvent.addr : PeerEvent → String
  | .join addr _ | .leave addr | .update addr => addr

namespace ClientRegistry

/-- The registry of a node, which is on its ring. -/
def newRegistry (bindAddr : String) (cachePort : ℤ) (hash : String → ℕ) : ClientRegistry where
  localAddr := joinHostPort bindAddr (toString cachePort)
  hashRing := (Ring.new defaultReplicas hash).add [joinHostPort bindAddr (toString cachePort)]

variable (r : ClientRegistry)

/-- The client for the node that owns a key, none if that is the node itself. -/
def pickPeer (key : String) : Option GrpcGetter :=
  let addr := r.hashRing.get key
  if addr = "" ∨ addr = r.localAddr then none else r.grpcGetters.find addr

/-- Up to `n` clients for a key. -/
def pickPeerWithFallback (key : String) (n : ℕ) : List GrpcGetter :=
  (r.hashRing.getN key n).filterMap fun addr =>
    if addr = r.localAddr then none else r.grpcGetters.find addr

/-- A node joins. -/
def addToRing (addr : String) (dials : Bool) : ClientRegistry :=
  if addr ∈ r.grpcGetters.keys then r
  else if !dials then r
  else
    { r with
      hashRing := r.hashRing.add [addr]
      grpcGetters := r.grpcGetters.upsert ⟨addr, r.dialed⟩ (fun g => { g with conn := r.dialed })
        fun _ => rfl
      dialed := r.dialed + 1 }

/-- A node leaves. -/
def removeFromRing (addr : String) : ClientRegistry :=
  { r with
    hashRing := r.hashRing.remove addr
    grpcGetters := r.grpcGetters.delete fun g => g.addr = addr
    closed := match r.grpcGetters.find addr with
      | some g => insert g.conn r.closed
      | none => r.closed }

/-- What the event loop does with an event. -/
def processEvent : PeerEvent → ClientRegistry
  | .join addr dials => r.addToRing addr dials
  | .leave addr => r.removeFromRing addr
  | .update _ => r

/-- The registry after a number of events. -/
def processEvents (events : List PeerEvent) : ClientRegistry := events.foldl processEvent r

/-- The peer has a client, which is open. -/
def Reaches (addr : String) : Prop :=
  ∃ g, r.grpcGetters.find addr = some g ∧ g.conn ∉ r.closed

/-! ### Without the clients -/

/-- The registry without its clients. -/
def view : Registry := ⟨r.localAddr, r.hashRing, r.grpcGetters.keys⟩

theorem view_addToRing (addr : String) (dials : Bool) :
    (r.addToRing addr dials).view = r.view.addToRing addr dials := by
  rw [addToRing, Registry.addToRing]
  change view _ = if addr ∈ r.grpcGetters.keys then _ else _
  split
  · rfl
  · rename_i hnot
    split
    · rfl
    · rw [view, Table.keys, Table.rows_upsert_of_notMem _ hnot, List.map_append]
      rfl

theorem view_removeFromRing (addr : String) :
    (r.removeFromRing addr).view = r.view.removeFromRing addr := by
  have hkeys : (r.grpcGetters.delete fun g => g.addr = addr).keys =
      r.grpcGetters.keys.filter (· ≠ addr) := by
    rw [Table.keys, Table.delete, Table.keys, List.filter_map]
    simp [Function.comp_def]
  rw [view, removeFromRing, Registry.removeFromRing, view, hkeys]

theorem map_addr_find (addr : String) :
    (r.grpcGetters.find addr).map GrpcGetter.addr =
      if addr ∈ r.grpcGetters.keys then some addr else none := by
  cases hfind : r.grpcGetters.find addr with
  | none => rw [if_neg (Table.find_eq_none.mp hfind), Option.map_none]
  | some g =>
    have hmem : addr ∈ r.grpcGetters.keys := by
      by_contra hnot
      rw [Table.find_eq_none.mpr hnot] at hfind
      cases hfind
    rw [if_pos hmem, Option.map_some, (Table.find_eq_some.mp hfind).2]

theorem view_pickPeer (key : String) :
    r.view.pickPeer key = (r.pickPeer key).map GrpcGetter.addr := by
  rw [pickPeer]
  change (if r.hashRing.get key = "" ∨ r.hashRing.get key = r.localAddr then none
    else if r.hashRing.get key ∈ r.grpcGetters.keys then some (r.hashRing.get key) else none) = _
  by_cases hself : r.hashRing.get key = "" ∨ r.hashRing.get key = r.localAddr
  · rw [if_pos hself, if_pos hself, Option.map_none]
  · rw [if_neg hself, if_neg hself, map_addr_find]

theorem view_pickPeerWithFallback (key : String) (n : ℕ) :
    r.view.pickPeerWithFallback key n = (r.pickPeerWithFallback key n).map GrpcGetter.addr := by
  rw [pickPeerWithFallback, Registry.pickPeerWithFallback, List.map_filterMap,
    ← List.filterMap_eq_filter]
  refine List.filterMap_congr fun addr _ => ?_
  dsimp only [view]
  by_cases hlocal : addr = r.localAddr
  · simp [hlocal]
  · rw [if_neg hlocal, map_addr_find]
    simp [Option.guard, hlocal]

/-! ### What the handlers keep -/

/-- Each point of the ring belongs to the node itself or to a peer with an open client. The
connections of the clients are different ones, and a connection has a number when it has been
dialed. -/
structure Routable : Prop where
  local_ne : r.localAddr ≠ ""
  owned : ∀ h ∈ r.hashRing.keys, r.hashRing.owner h ≠ "" ∧
    (r.hashRing.owner h = r.localAddr ∨ r.Reaches (r.hashRing.owner h))
  conn_lt : ∀ g ∈ r.grpcGetters.rows, g.conn < r.dialed
  closed_lt : ∀ c ∈ r.closed, c < r.dialed
  conn_inj : ∀ g ∈ r.grpcGetters.rows, ∀ g' ∈ r.grpcGetters.rows, g.conn = g'.conn → g = g'

variable {r} {addr a : String}

theorem mem_closed_removeFromRing {c : ℕ} : c ∈ (r.removeFromRing addr).closed ↔
    c ∈ r.closed ∨ ∃ g, r.grpcGetters.find addr = some g ∧ c = g.conn := by
  rw [removeFromRing]
  cases r.grpcGetters.find addr with
  | none => simp
  | some g => simp [or_comm]

/-- A peer that does not leave can be reached as before. -/
theorem Routable.reaches_removeFromRing (hr : r.Routable) (ha : r.Reaches a) (hne : a ≠ addr) :
    (r.removeFromRing addr).Reaches a := by
  obtain ⟨g, hfind, hopen⟩ := ha
  obtain ⟨hmem, haddr⟩ := Table.find_eq_some.mp hfind
  refine ⟨g, Table.find_eq_some.mpr ⟨Table.mem_delete.mpr ⟨hmem, ?_⟩, haddr⟩, ?_⟩
  · simpa [haddr] using hne
  · rw [mem_closed_removeFromRing]
    rintro (hclosed | ⟨g', hfind', hconn⟩)
    · exact hopen hclosed
    · -- the connection that is closed is another one
      obtain ⟨hmem', haddr'⟩ := Table.find_eq_some.mp hfind'
      obtain rfl := hr.conn_inj g hmem g' hmem' hconn
      exact hne (haddr.symm.trans haddr')

theorem Routable.removeFromRing (hr : r.Routable) (addr : String) :
    (r.removeFromRing addr).Routable where
  local_ne := hr.local_ne
  owned h hh := by
    obtain ⟨hh, hne⟩ : h ∈ r.hashRing.keys ∧ r.hashRing.owner h ≠ addr := by
      simpa [ClientRegistry.removeFromRing, Ring.remove] using hh
    have howner : (r.removeFromRing addr).hashRing.owner h = r.hashRing.owner h :=
      Ring.owner_remove hne
    rw [howner]
    obtain ⟨hname, hlocal | hreach⟩ := hr.owned h hh
    · exact ⟨hname, Or.inl hlocal⟩
    · exact ⟨hname, Or.inr (hr.reaches_removeFromRing hreach hne)⟩
  conn_lt g hg := hr.conn_lt g (Table.mem_delete.mp hg).1
  closed_lt c hc := by
    rcases mem_closed_removeFromRing.mp hc with hc | ⟨g, hfind, rfl⟩
    · exact hr.closed_lt c hc
    · exact hr.conn_lt g (Table.find_eq_some.mp hfind).1
  conn_inj g hg g' hg' := hr.conn_inj g (Table.mem_delete.mp hg).1 g' (Table.mem_delete.mp hg').1

section Joins

variable (hnew : addr ∉ r.grpcGetters.keys)

include hnew

theorem addToRing_of_notMem : r.addToRing addr true =
    { r with
      hashRing := r.hashRing.add [addr]
      grpcGetters := r.grpcGetters.upsert ⟨addr, r.dialed⟩ (fun g => { g with conn := r.dialed })
        fun _ => rfl
      dialed := r.dialed + 1 } := by
  rw [addToRing, if_neg hnew]
  rfl

theorem mem_rows_addToRing {g : GrpcGetter} :
    g ∈ (r.addToRing addr true).grpcGetters.rows ↔
      g ∈ r.grpcGetters.rows ∨ g = ⟨addr, r.dialed⟩ := by
  have hrows : (r.addToRing addr true).grpcGetters.rows =
      r.grpcGetters.rows ++ [⟨addr, r.dialed⟩] := by
    rw [addToRing_of_notMem hnew]
    exact if_neg hnew
  rw [hrows, List.mem_append, List.mem_singleton]

theorem mem_keys_addToRing {h : ℕ} (hh : h ∈ (r.addToRing addr true).hashRing.keys) :
    h ∈ r.hashRing.pointsOf addr ∨ h ∈ r.hashRing.keys := by
  rw [addToRing_of_notMem hnew] at hh
  have hpoint : h ∈ (r.hashRing.add [addr]).points := List.mem_toFinset.mpr hh
  rcases Ring.mem_points_add.mp hpoint with hpoint | ⟨b, hb, hpoint⟩
  · exact Or.inr (List.mem_toFinset.mp hpoint)
  · exact Or.inl (List.mem_singleton.mp hb ▸ hpoint)

/-- The peer that joins can be reached, and the others as before. -/
theorem Routable.reaches_addToRing (hr : r.Routable) (ha : r.Reaches a ∨ a = addr) :
    (r.addToRing addr true).Reaches a := by
  have hclosed : (r.addToRing addr true).closed = r.closed := by rw [addToRing_of_notMem hnew]
  rw [Reaches, hclosed]
  rcases ha with ⟨g, hfind, hopen⟩ | rfl
  · obtain ⟨hg, rfl⟩ := Table.find_eq_some.mp hfind
    exact ⟨g, Table.find_eq_some.mpr ⟨(mem_rows_addToRing hnew).mpr (Or.inl hg), rfl⟩, hopen⟩
  · -- a connection with a new number has not been closed
    refine ⟨_, Table.find_eq_some.mpr ⟨(mem_rows_addToRing hnew).mpr (Or.inr rfl), rfl⟩, ?_⟩
    exact fun hin => lt_irrefl _ (hr.closed_lt _ hin)

theorem Routable.addToRing_of_notMem (hr : r.Routable) (haddr : addr ≠ "") :
    (r.addToRing addr true).Routable := by
  have hdialed : (r.addToRing addr true).dialed = r.dialed + 1 := by
    rw [ClientRegistry.addToRing_of_notMem hnew]
  refine ⟨?_, ?_, ?_, ?_, ?_⟩
  · rw [ClientRegistry.addToRing_of_notMem hnew]
    exact hr.local_ne
  · intro h hh
    have howner : (r.addToRing addr true).hashRing.owner h =
        if h ∈ r.hashRing.pointsOf addr then addr else r.hashRing.owner h := by
      rw [ClientRegistry.addToRing_of_notMem hnew]
      exact Ring.owner_add addr
    have hlocal : (r.addToRing addr true).localAddr = r.localAddr := by
      rw [ClientRegistry.addToRing_of_notMem hnew]
    rw [howner, hlocal]
    split
    · exact ⟨haddr, Or.inr (hr.reaches_addToRing hnew (Or.inr rfl))⟩
    · rename_i hother
      obtain ⟨hname, howned⟩ := hr.owned h ((mem_keys_addToRing hnew hh).resolve_left hother)
      exact ⟨hname, howned.imp_right fun hreach => hr.reaches_addToRing hnew (Or.inl hreach)⟩
  · intro g hg
    rw [hdialed]
    rcases (mem_rows_addToRing hnew).mp hg with hg | rfl
    · exact Nat.lt_succ_of_lt (hr.conn_lt g hg)
    · exact Nat.lt_succ_self _
  · intro c hc
    rw [ClientRegistry.addToRing_of_notMem hnew] at hc
    rw [hdialed]
    exact Nat.lt_succ_of_lt (hr.closed_lt c hc)
  · intro g hg g' hg' hconn
    rcases (mem_rows_addToRing hnew).mp hg with hg | rfl <;>
      rcases (mem_rows_addToRing hnew).mp hg' with hg' | rfl
    · exact hr.conn_inj g hg g' hg' hconn
    · exact absurd hconn (hr.conn_lt g hg).ne
    · exact absurd hconn.symm (hr.conn_lt g' hg').ne
    · rfl

end Joins

theorem Routable.addToRing (hr : r.Routable) (haddr : addr ≠ "") (dials : Bool) :
    (r.addToRing addr dials).Routable := by
  by_cases hold : addr ∈ r.grpcGetters.keys
  · rw [ClientRegistry.addToRing, if_pos hold]
    exact hr
  · cases dials with
    | false =>
      rw [ClientRegistry.addToRing, if_neg hold]
      exact hr
    | true => exact hr.addToRing_of_notMem hold haddr

theorem Routable.processEvent (hr : r.Routable) {e : PeerEvent} (he : e.addr ≠ "") :
    (r.processEvent e).Routable := by
  rcases e with ⟨addr, dials⟩ | addr | addr
  · exact hr.addToRing he dials
  · exact hr.removeFromRing addr
  · exact hr

theorem Routable.processEvents (hr : r.Routable) {events : List PeerEvent}
    (hevents : ∀ e ∈ events, e.addr ≠ "") : (r.processEvents events).Routable := by
  induction events generalizing r with
  | nil => exact hr
  | cons e events ih =>
    obtain ⟨he, hrest⟩ := List.forall_mem_cons.mp hevents
    exact ih (hr.processEvent he) hrest

theorem joinHostPort_ne_empty (host port : String) : joinHostPort host port ≠ "" := by
  rw [joinHostPort]
  split <;> simp

theorem routable_newRegistry (bindAddr : String) (cachePort : ℤ) (hash : String → ℕ) :
    (newRegistry bindAddr cachePort hash).Routable where
  local_ne := joinHostPort_ne_empty _ _
  owned h hh := by
    have hpoint : h ∈ (newRegistry bindAddr cachePort hash).hashRing.points :=
      List.mem_toFinset.mpr hh
    rcases Ring.mem_points_add.mp hpoint with hpoint | ⟨b, hb, hpoint⟩
    · simp [Ring.new, Ring.points] at hpoint
    · obtain rfl := List.mem_singleton.mp hb
      have howner : (newRegistry bindAddr cachePort hash).hashRing.owner h =
          joinHostPort bindAddr (toString cachePort) :=
        (Ring.owner_add _).trans (if_pos hpoint)
      rw [howner]
      exact ⟨joinHostPort_ne_empty _ _, Or.inl rfl⟩
  conn_lt g hg := by simp [newRegistry] at hg
  closed_lt c hc := by simp [newRegistry] at hc
  conn_inj g hg := by simp [newRegistry] at hg

/-! ### Where a key is sent -/

theorem Routable.reaches (hr : r.Routable) (ha : r.hashRing.Owns a) (hne : a ≠ r.localAddr) :
    r.Reaches a := by
  obtain ⟨h, hh, rfl⟩ := ha
  exact (hr.owned h hh).2.resolve_left hne

theorem Routable.get_ne_empty (hr : r.Routable) (hring : r.hashRing.keys ≠ []) (key : String) :
    r.hashRing.Owns (r.hashRing.get key) ∧ r.hashRing.get key ≠ "" := by
  have howns : r.hashRing.Owns (r.hashRing.get key) := by
    rw [Ring.get]
    rcases hpoints : r.hashRing.pointsFrom key with _ | ⟨h, points⟩
    · exact absurd (by simpa [Ring.pointsFrom] using hpoints) hring
    · have hh : h ∈ r.hashRing.pointsFrom key := by rw [hpoints]; exact List.mem_cons_self
      exact ⟨h, by simpa [Ring.pointsFrom] using hh, rfl⟩
  obtain ⟨h, hh, howner⟩ := howns
  exact ⟨⟨h, hh, howner⟩, howner ▸ (hr.owned h hh).1⟩

theorem Routable.pickPeer_eq_none (hr : r.Routable) (key : String) :
    r.pickPeer key = none ↔ r.hashRing.keys = [] ∨ r.hashRing.get key = r.localAddr := by
  by_cases hring : r.hashRing.keys = []
  · have hget : r.hashRing.get key = "" := by simp [Ring.get, Ring.pointsFrom, hring]
    simp [pickPeer, hring, hget]
  · obtain ⟨howns, hname⟩ := hr.get_ne_empty hring key
    by_cases hlocal : r.hashRing.get key = r.localAddr
    · simp [pickPeer, hlocal]
    · obtain ⟨g, hfind, -⟩ := hr.reaches howns hlocal
      simp [pickPeer, hname, hlocal, hring, hfind]

/-- A client that a key is sent to is open, and it is the owner's. -/
theorem Routable.pickPeer_open (hr : r.Routable) {key : String} {g : GrpcGetter}
    (hg : r.pickPeer key = some g) : g.addr = r.hashRing.get key ∧ g.conn ∉ r.closed := by
  have hnone := hr.pickPeer_eq_none key
  rw [hg] at hnone
  obtain ⟨hring, hlocal⟩ := not_or.mp (hnone.not.mp nofun)
  obtain ⟨howns, hname⟩ := hr.get_ne_empty hring key
  obtain ⟨g', hfind, hopen⟩ := hr.reaches howns hlocal
  obtain rfl : g' = g := by simpa [pickPeer, hname, hlocal, hfind] using hg
  exact ⟨(Table.find_eq_some.mp hfind).2, hopen⟩

theorem Routable.pickPeerWithFallback_one (hr : r.Routable) (key : String) :
    r.pickPeerWithFallback key 1 = (r.pickPeer key).toList := by
  have hget := Ring.get_eq_head r.hashRing key 0
  have hlen : (r.hashRing.getN key 1).length ≤ 1 := Ring.length_getN_le
  rw [pickPeerWithFallback, pickPeer, hget]
  by_cases hring : r.hashRing.keys = []
  · simp [Ring.getN, Ring.pointsFrom, Ring.walk, hring]
  · have hname := (hr.get_ne_empty hring key).2
    rw [hget] at hname
    rcases hN : r.hashRing.getN key 1 with _ | ⟨b, _ | ⟨c, rest⟩⟩
    · simp [hN] at hname
    · replace hname : b ≠ "" := by simpa [hN] using hname
      simp only [List.head?_cons, Option.getD_some, hname, false_or, List.filterMap_cons,
        List.filterMap_nil]
      by_cases hlocal : b = r.localAddr
      · simp [hlocal]
      · simp only [if_neg hlocal]
        cases r.grpcGetters.find b <;> rfl
    · simp [hN] at hlen

/-- **A key is never sent to a peer that is missing or closed.** After any events, each node on the
ring has an open client, the node itself apart. So a key has no peer only if the ring is empty or
the node itself is the owner, the peer it has is reached by an open client, and asking for one
candidate gives this peer. -/
theorem routes_after_events (bindAddr : String) (cachePort : ℤ) (hash : String → ℕ)
    (events : List PeerEvent) (hevents : ∀ e ∈ events, e.addr ≠ "") :
    let r := (newRegistry bindAddr cachePort hash).processEvents events
    (∀ addr, r.hashRing.Owns addr → addr ≠ r.localAddr →
      ∃ g, r.grpcGetters.find addr = some g ∧ g.conn ∉ r.closed) ∧
    ∀ key,
      (r.pickPeer key = none ↔ r.hashRing.keys = [] ∨ r.hashRing.get key = r.localAddr) ∧
      (∀ g, r.pickPeer key = some g → g.addr = r.hashRing.get key ∧ g.conn ∉ r.closed) ∧
      r.pickPeerWithFallback key 1 = (r.pickPeer key).toList := by
  have hr := (routable_newRegistry bindAddr cachePort hash).processEvents hevents
  refine ⟨fun addr ha hne => hr.reaches ha hne, fun key => ⟨hr.pickPeer_eq_none key, ?_, ?_⟩⟩
  · exact fun g hg => hr.pickPeer_open hg
  · exact hr.pickPeerWithFallback_one key

/-- A peer has joined, and the node itself has left. -/
def ownLeave : List PeerEvent :=
  [.join "10.0.0.2:9000" true, .join "127.0.0.1:9000" false, .leave "127.0.0.1:9000"]

/-- Then a key is sent to the peer, whose client is open. -/
theorem routes_after_ownLeave :
    (∀ e ∈ ownLeave, e.addr ≠ "") ∧
      ∃ g, ((newRegistry "127.0.0.1" 9000 fun _ => 0).processEvents ownLeave).pickPeer "k" =
        some g ∧ g.addr = "10.0.0.2:9000" ∧
        g.conn ∉ ((newRegistry "127.0.0.1" 9000 fun _ => 0).processEvents ownLeave).closed := by
  have hevents : ∀ e ∈ ownLeave, e.addr ≠ "" := by simp [ownLeave, PeerEvent.addr]
  obtain ⟨-, hkeys⟩ := routes_after_events "127.0.0.1" 9000 (fun _ => 0) ownLeave hevents
  obtain ⟨hnone, hsome, -⟩ := hkeys "k"
  obtain ⟨g, hg⟩ := Option.ne_none_iff_exists'.mp (hnone.not.mpr (by decide +kernel))
  obtain ⟨haddr, hopen⟩ := hsome g hg
  refine ⟨hevents, g, hg, ?_, hopen⟩
  rw [haddr]
  decide +kernel

end ClientRegistry

end ClusterManager
