import ClusterManager.Cache.Values
import ClusterManager.Cache.Forwarding

/-!
# Invalidation

A deletion takes a key out of the cache of its node, and sends all peers a message to do the
same. When these messages have arrived, no cache should have a value that the getter has
returned before the deletion.

A value that is on its way when the key is deleted is not recalled: a push or an answer that
arrives after the invalidation, or a load that adds its value then, puts it back
(`push_after_invalidation`). Nor is a peer kept from answering with what it has while the
invalidation is on its way to it, so that another node can cache the old value once more. And a
peer that the node has no client for is not told at all. `deleted_notHeld` says that nothing
else can go wrong.

*Old* values are given by a predicate, of which nothing is asked but that the getter returns
no such value from the deletion on; values that carry the time at which they were loaded are a
case of it.
-/

namespace ClusterManager

namespace Cache

variable {V : Type}

/-- A node is still to be told that the key has been deleted. -/
def Awaits (s : State V) (node key : String) : Prop :=
  .invalidate node key ∈ s.net ∨ ∃ d, d ≠ node ∧ .broadcast d key ∈ s.net

/-- The key can be deleted at a node: none of its values is on its way, and without a registry
no other node has one. -/
def Settled (plan : Plan) (s : State V) (d key : String) : Prop :=
  (∀ v, ¬ OnItsWay plan s key v) ∧
    ((s.nodes d).registry = none → ∀ node v, (s.nodes node).cache.Holds key v → node = d)

/-- What is asked of a step after the deletion: a node that is still to be told of it does not
look the key up, the node that tells the others has a client for each of those that have the
key, and no invalidation is lost. -/
def Orderly (plan : Plan) (key : String) (s : State V) : Action V → Prop
  | .step i _ => s.phase i = .lookup → plan.key i = key → ¬ Awaits s (plan.node i) key
  | .deliver k => ∀ d, s.net[k]? = some (.broadcast d key) →
    ∀ node v, node ≠ d → (s.nodes node).cache.Holds key v →
      .invalidate node key ∈ (s.nodes d).broadcastInvalidation key
  | .lose k => (∀ d, s.net[k]? ≠ some (.broadcast d key)) ∧
    ∀ node, s.net[k]? ≠ some (.invalidate node key)
  | _ => True

section Delete

variable {plan : Plan} {len : V → ℕ} {key : String} {old : V → Prop} {s s' : State V} {a : Action V}

/-- Old values are only where the deletion has still to arrive. -/
structure Confined (plan : Plan) (key : String) (old : V → Prop) (s : State V) : Prop where
  calm : s.Calm
  onItsWay : ∀ v, OnItsWay plan s key v → ¬ old v
  holds : ∀ node v, (s.nodes node).cache.Holds key v → old v → Awaits s node key

/-- A message stays on its way until it arrives or is lost. -/
theorem Does.mem_net (h : Does plan len s a s') {m : Message V} (hm : m ∈ s.net) :
    m ∈ s'.net ∨ ∃ k, (a = .deliver k ∨ a = .lose k) ∧ s.net[k]? = some m := by
  have hdrop : ∀ k, m ∈ (s.drop k).net ∨ s.net[k]? = some m := by
    intro k
    obtain ⟨j, hj⟩ := List.mem_iff_getElem?.mp hm
    by_cases hjk : j = k
    · exact Or.inr (by rwa [← hjk])
    · exact Or.inl (List.mem_eraseIdx_iff_getElem?.mpr ⟨j, hjk, hj⟩)
  cases h with
  | call | ask | answer | delete => exact Or.inl (List.mem_append_left _ hm)
  | @broadcast k =>
    rcases hdrop k with hm | hk
    · exact Or.inl (List.mem_append_left _ hm)
    · exact Or.inr ⟨k, Or.inl rfl, hk⟩
  | @request k | @fetched k | @refused k | @late k | @push k | @invalidate k =>
    exact (hdrop k).imp_right fun hk => ⟨k, Or.inl rfl, hk⟩
  | lose k => exact (hdrop k).imp_right fun hk => ⟨k, Or.inr rfl, hk⟩
  | _ => exact Or.inl hm

/-- An invalidation that arrives takes the key out of the cache. -/
theorem Does.not_holds_invalidated {k : ℕ} {node : String} {v : V}
    (h : Does plan len s (.deliver k) s') (hm : s.net[k]? = some (.invalidate node key)) :
    ¬ (s'.nodes node).cache.Holds key v := by
  intro hh
  cases h with
  | invalidate hm' =>
    cases hm.symm.trans hm'
    rw [nodes_setNode, if_pos rfl] at hh
    exact (LocalCache.holds_delete hh).2 rfl
  | late hm' hlate =>
    cases hm.symm.trans hm'
    cases hlate
  | request hm' | fetched hm' | refused hm' | push hm' | broadcast hm' => cases hm.symm.trans hm'

/-- When a node tells the others, it is their turn. -/
theorem Does.net_broadcast {k : ℕ} {d : String} (h : Does plan len s (.deliver k) s')
    (hm : s.net[k]? = some (.broadcast d key)) {m : Message V}
    (hmem : m ∈ (s.nodes d).broadcastInvalidation key) : m ∈ s'.net := by
  cases h with
  | broadcast hm' =>
    cases hm.symm.trans hm'
    exact List.mem_append_right _ hmem
  | late hm' hlate =>
    cases hm.symm.trans hm'
    cases hlate
  | request hm' | fetched hm' | refused hm' | push hm' | invalidate hm' => cases hm.symm.trans hm'

/-- A node that has an old value after an orderly step and was to be told still is. -/
theorem Awaits.does {node : String} {v : V} (hawaits : Awaits s node key)
    (h : Does plan len s a s') (horderly : Orderly plan key s a)
    (hh : (s.nodes node).cache.Holds key v) (hh' : (s'.nodes node).cache.Holds key v) :
    Awaits s' node key := by
  rcases hawaits with hm | ⟨d, hd, hm⟩
  · rcases h.mem_net hm with hm | ⟨k, rfl | rfl, hk⟩
    · exact Or.inl hm
    · exact absurd hh' (h.not_holds_invalidated hk)
    · exact absurd hk (horderly.2 node)
  · rcases h.mem_net hm with hm | ⟨k, rfl | rfl, hk⟩
    · exact Or.inr ⟨d, hd, hm⟩
    · exact Or.inl (h.net_broadcast hk (horderly d hk node v hd.symm hh))
    · exact absurd hk (horderly.1 d)

/-- An orderly step keeps old values where they are. -/
theorem Confined.step (hs : Confined plan key old s) (horderly : Orderly plan key s a)
    (hgetter : ∀ i v, a = .step i (.getter (.ok v)) → plan.key i = key → ¬ old v)
    (h : step plan len s a = some s') : Confined plan key old s' := by
  have hdoes := does_of_step hs.calm h
  refine ⟨hdoes.calm hs.calm, fun v hw => ?_, fun node v hh hold => ?_⟩
  · rcases hdoes.onItsWay hw with hw | ⟨i, ha, hkey⟩ | ⟨i, c, rfl, hlookup, hkey, hh⟩
    · exact hs.onItsWay v hw
    · exact hgetter i v ha hkey
    · -- what is found is not old, since its node has nothing to wait for
      exact fun hold => horderly hlookup hkey (hs.holds _ v hh hold)
  · rcases hdoes.holds hh with hbefore | ⟨i, -, hkey, hv⟩ | hm
    · exact (hs.holds node v hbefore hold).does hdoes horderly hbefore hh
    · exact absurd hold (hs.onItsWay v (.call i hkey (Phase.value?_of_adds? hv)))
    · exact absurd hold (hs.onItsWay v (.push node hm))

/-- The deletion of a key that is settled confines its values. -/
theorem Settled.confined {d : String} (hs : Settled plan s d key) (hcalm : s.Calm)
    (h : Cache.step plan len s (.delete d key) = some s') : Confined plan key old s' := by
  have hdoes := does_of_step hcalm h
  refine ⟨hdoes.calm hcalm, fun v hw => ?_, fun node v hh _ => ?_⟩
  · rcases hdoes.onItsWay hw with hw | ⟨i, ha, -⟩ | ⟨i, c, ha, -⟩
    · exact absurd hw (hs.1 v)
    · cases ha
    · cases ha
  · cases hdoes with
    | delete hms =>
      rw [show ((s.setNode d _).send _).nodes node = _ from nodes_setNode ..] at hh
      split at hh
      · exact absurd rfl (LocalCache.holds_delete hh).2
      rename_i hne
      rcases hreg : (s.nodes d).registry with _ | r
      · exact absurd (hs.2 hreg node v hh) hne
      · refine Or.inr ⟨d, fun hd => hne hd.symm, List.mem_append_right _ ?_⟩
        rw [hms, hreg]
        exact List.mem_singleton_self _

end Delete

/-- **After a deletion nothing old is left**, if the key was settled when it was deleted and
every step from then on is orderly. -/
theorem deleted_notHeld (plan : Plan) (len : V → ℕ) (s₀ : State V) (hinit : s₀.Init)
    (before after : List (Action V)) (d key : String) (old : V → Prop) (s₁ s : State V)
    (hbefore : Runs.exec (step plan len) s₀ before = some s₁) (hsettled : Settled plan s₁ d key)
    (horderly : Runs.EachStep (step plan len) (Orderly plan key) s₁ (.delete d key :: after))
    (hgetter : ∀ i v, .step i (.getter (.ok v)) ∈ after → plan.key i = key → ¬ old v)
    (hafter : Runs.exec (step plan len) s₁ (.delete d key :: after) = some s) (hnet : s.net = []) :
    ∀ node v, (s.nodes node).cache.Holds key v → ¬ old v := by
  have hcalm : s₁.Calm := by
    refine (Runs.Always.of_inv hinit.calm fun t a t' ht h => ?_).last hbefore
    exact (does_of_step ht h).calm ht
  obtain ⟨s₂, hdelete, hrest⟩ := Option.bind_eq_some_iff.mp hafter
  obtain ⟨-, horderly⟩ := Runs.eachStep_cons.mp horderly
  have hconfined : Confined plan key old s := by
    refine (Runs.Always.of_eachStep (C := fun t a => Orderly plan key t a ∧ a ∈ after)
      (hsettled.confined hcalm hdelete) ?_ ?_).last hrest
    · exact fun p a hp t ht => ⟨horderly s₂ hdelete p a hp t ht,
        hp.subset (List.mem_append_right p (List.mem_singleton_self a))⟩
    · rintro t a t' ht ⟨hord, ha⟩ h
      exact ht.step hord (fun i v hv => hgetter i v (hv ▸ ha)) h
  intro node v hh hold
  rcases hconfined.holds node v hh hold with hm | ⟨d, -, hm⟩
  · rw [hnet] at hm
    cases hm
  · rw [hnet] at hm
    cases hm

/-- Calls by themselves change nothing at a node at which none of them is made. -/
theorem nodes_of_calls (plan : Plan) (len : V → ℕ) (node : String) (hplan : ∀ i, plan.node i ≠ node)
    {l : List (Action V)} (hl : ∀ a ∈ l, ∃ i, a = .get i ∨ ∃ c, a = .step i c) {s s' : State V}
    (h : Runs.exec (step plan len) s l = some s') : s'.nodes node = s.nodes node := by
  refine (Runs.Always.of_eachStep (I := fun t => t.nodes node = s.nodes node)
    (C := fun _ a => a ∈ l) rfl ?_ ?_).last h
  · exact fun p a hp _ _ => hp.subset (List.mem_append_right p (List.mem_singleton_self a))
  · intro t a t' ht ha hstep
    obtain ⟨i, rfl | ⟨c, rfl⟩⟩ := hl a ha
    · rw [step] at hstep
      split at hstep <;> cases hstep
      exact ht
    · obtain ⟨r, -, rfl⟩ := Option.map_eq_some_iff.mp hstep
      exact (Function.update_of_ne (hplan i).symm ..).trans ht

/-- A node by itself deletes what it has loaded, and loads it again. -/
theorem deleted_loneNode :
    ∃ s, Runs.exec (step lonePlan id) loneNode
        (loadSteps 0 1 ++ .delete "a" "k" :: loadSteps 1 2) = some s ∧
      s.phase 1 = .returned (.ok 2) ∧
      ∀ node v, (s.nodes node).cache.Holds "k" v → v ≠ 1 := by
  refine ⟨_, rfl, rfl, ?_⟩
  refine deleted_notHeld lonePlan id loneNode ⟨fun _ => rfl, fun _ => rfl, fun _ => rfl, rfl⟩
    (loadSteps 0 1) (loadSteps 1 2) "a" "k" (· = 1) _ _ rfl
    ⟨fun v => ?_, fun _ node v hh => ?_⟩ ?_ ?_
    rfl rfl
  · rintro (⟨i, -, hv⟩ | ⟨i, -, horigin, -⟩ | ⟨rpc, -, hm⟩ | ⟨peer, hm⟩)
    · rcases i with _ | i <;> cases hv
    · cases horigin
    · cases hm
    · cases hm
  · by_contra hne
    obtain ⟨l, hl, -⟩ := hh
    have hnode := nodes_of_calls lonePlan id node (fun _ h => hne h.symm) (l := loadSteps 0 1)
      (by simp [loadSteps]) (s := loneNode) rfl
    rw [hnode] at hl
    cases hl
  · refine Runs.eachStep_cons.mpr ⟨trivial, fun t ht => ?_⟩
    cases ht
    refine Runs.eachStep_cons.mpr ⟨trivial, fun t ht => ?_⟩
    cases ht
    refine Runs.eachStep_cons.mpr ⟨fun hph => (by cases hph), fun t ht => ?_⟩
    cases ht
    refine Runs.eachStep_cons.mpr ⟨?_, fun t ht => ?_⟩
    · rintro - - (hm | ⟨d, -, hm⟩) <;> cases hm
    cases ht
    iterate 9
      refine Runs.eachStep_cons.mpr ⟨fun hph => (by cases hph), fun t ht => ?_⟩
      cases ht
    exact Runs.eachStep_nil
  · intro i v hv
    simp [loadSteps] at hv
    omega

/-! ### A push that comes too late -/

/-- Two nodes that know each other, with one copy of each key and a tracker of hot ones. -/
def hotNodes : State ℕ where
  nodes node :=
    { cache := { cacheBytes := 0 }
      registry := some { localAddr := node, hashRing := twoNodeRing, getters := ["a", "b"] }
      replicationFactor := 1
      hotReplicas := some 1 }

/-- The node `a` loads the key and pushes it, and then deletes it; the invalidation arrives
before the push. -/
def pushLate : List (Action ℕ) :=
  [.get 0, .step 0 .go, .step 0 .go, .step 0 .go, .step 0 .go, .step 0 (.limit none),
    .step 0 (.getter (.ok 1)), .step 0 .go, .step 0 .go, .step 0 (.hot true), .step 0 .go,
    .step 0 .go, .delete "a" "k", .deliver 1, .deliver 1, .deliver 0]

theorem push_after_invalidation :
    ∃ s, Runs.exec (step lonePlan id) hotNodes pushLate = some s ∧ s.net = [] ∧
      (s.nodes "b").cache.Holds "k" 1 := by
  have hrun : (Runs.exec (step lonePlan id) hotNodes pushLate).map (fun s =>
      (s.net.length, ((s.nodes "b").cache.get "k").1)) = some (0, some 1) := by decide +kernel
  obtain ⟨s, hs, heq⟩ := Option.map_eq_some_iff.mp hrun
  obtain ⟨hnet, hget⟩ := Prod.mk.inj heq
  exact ⟨s, hs, List.length_eq_zero_iff.mp hnet, LocalCache.holds_of_get hget⟩

end Cache

end ClusterManager
