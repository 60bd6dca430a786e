import ClusterManager.Cache.Values

/-!
# Invalidation after a migration of slots

When slots of the store have been migrated, `InvalidateSlots` marks the caches of its groups as
dirty, once for each slot. The next `Get` takes the mark away and purges the cache.

Of a group without peers, a `Get` that starts when `InvalidateSlots` has returned should not
return what the getter has returned before it was called. It can, for two reasons. Taking the
mark away and purging are two steps, and a `Get` that comes in between finds no mark and the
old entries (`returned_between_swap_and_purge`). And a load that is under way adds its value
after the purge. `invalidated_notReturned` says that these are the only ones, an empty range of
slots apart, which marks nothing.
-/

namespace ClusterManager

namespace Cache

variable {V : Type}

/-- The marks of `InvalidateSlots`, group after group and slot after slot. -/
def invalidateSlots (groups : List String) (start stop : ℤ) : List (Action V) :=
  groups.flatMap fun node =>
    (List.range (stop + 1 - start).toNat).map fun _ => .markSlotMigrated node

/-- Where a slot is marked, no `Get` has a value that it is still to add. -/
def MarksSettled (plan : Plan) (node : String) (s : State V) : Action V → Prop
  | .markSlotMigrated m => m = node → ∀ i, plan.node i = node → (s.phase i).adds? = none
  | _ => True

/-- Where a key is looked up, no `Get` is about to purge. -/
def LooksUpPurged (plan : Plan) (node : String) (s : State V) : Action V → Prop
  | .step i _ => s.phase i = .lookup → ∀ j, plan.node j = node → s.phase j ≠ .purge
  | _ => True

/-! ### Nodes without peers -/

/-- No node has peers, and nothing has been sent. -/
structure Alone (plan : Plan) (s : State V) : Prop where
  registry : ∀ node, (s.nodes node).registry = none
  net : s.net = []
  remote : ∀ i, (plan.origin i).isSome → s.phase i = .idle
  ask : ∀ i peer rest, s.phase i ≠ .ask peer rest
  await : ∀ i rpc rest, s.phase i ≠ .await rpc rest

section Alone

variable {plan : Plan} {len : V → ℕ} {s s' : State V} {a : Action V}

theorem candidates_eq_nil {n : Node V} (h : n.registry = none) (key : String) :
    n.candidates key = [] := by
  rw [Node.candidates, h]

section Advances

variable {i : ℕ} {n n' : Node V} {ph ph' : Phase V} {c : Choice V} {ms : List (Message V)}
  (h : n.Advances plan len i ph c n' ph' ms)

include h

/-- A call without peers sends nothing and asks nobody. -/
theorem Node.Advances.alone (hnone : n.registry = none) :
    ms = [] ∧ (∀ peer rest, ph' ≠ .ask peer rest) ∧ ∀ rpc rest, ph' ≠ .await rpc rest := by
  cases h with
  | pick =>
    rw [candidates_eq_nil hnone]
    exact ⟨rfl, fun _ _ hph => (by cases hph), fun _ _ hph => (by cases hph)⟩
  | secondaries =>
    refine ⟨?_, fun _ _ hph => (by cases hph), fun _ _ hph => (by cases hph)⟩
    rw [replicateToSecondaries, candidates_eq_nil hnone]
    split <;> rfl
  | hot =>
    refine ⟨?_, fun _ _ hph => (by cases hph), fun _ _ hph => (by cases hph)⟩
    unfold replicateIfHot
    rw [hnone]
    split
    · rename_i hsome
      cases hsome
    · rfl
  | _ => exact ⟨rfl, fun _ _ hph => (by cases hph), fun _ _ hph => (by cases hph)⟩

theorem Node.Advances.ne_idle : ph ≠ .idle ∧ ph' ≠ .idle := by
  cases h with
  | pick =>
    refine ⟨nofun, ?_⟩
    rcases Phase.tryNext_cases (n.candidates (plan.key i)) with hnext | ⟨peer, rest, hnext⟩ <;>
      rw [hnext] <;> exact nofun
  | _ => exact ⟨nofun, nofun⟩

/-- A value that is to be added comes from the getter. -/
theorem Node.Advances.adds {v : V} (hv : ph'.adds? = some v) : c = .getter (.ok v) := by
  cases h with
  | loaded =>
    cases hv
    rfl
  | pick =>
    rcases Phase.tryNext_cases (n.candidates (plan.key i)) with hnext | ⟨peer, rest, hnext⟩ <;>
      rw [hnext] at hv <;> cases hv
  | _ => cases hv

theorem Node.Advances.dirty (hdirty : n.cacheDirty = true) :
    n'.cacheDirty = true ∨ ph' = .purge := by
  cases h with
  | swapDirty => exact Or.inr rfl
  | _ => exact Or.inl hdirty

theorem Node.Advances.of_swap (hswap : ph = .swap) (hdirty : n.cacheDirty = true) :
    ph' = .purge := by
  cases h with
  | swapDirty => rfl
  | swapClean hclean => cases hdirty.symm.trans hclean
  | _ => cases hswap

theorem Node.Advances.of_purge (hpurge : ph = .purge) : n'.cache = n.cache.purge := by
  cases h with
  | purge => rfl
  | _ => cases hpurge

theorem Node.Advances.ne_returned (r : Except String V) : ph ≠ .returned r := by
  cases h <;> exact nofun

end Advances

/-- **The phase of a call after a step** of nodes without peers. -/
theorem Does.phase_alone (h : Does plan len s a s') (hs : Alone plan s) (j : ℕ) :
    s'.phase j = s.phase j ∨
      (a = .get j ∧ s.phase j = .idle ∧ plan.origin j = none ∧
        s'.phase j = Phase.start (plan.key j)) ∨
      ∃ c ms, a = .step j c ∧ (s.nodes (plan.node j)).Advances plan len j (s.phase j) c
        (s'.nodes (plan.node j)) (s'.phase j) ms := by
  have hnet : ∀ k : ℕ, s.net[k]? = none := fun k => by rw [hs.net]; rfl
  cases h with
  | get i hidle horigin =>
    rw [phase_setPhase]
    split
    · rename_i hji
      subst hji
      exact Or.inr (Or.inl ⟨rfl, hidle, horigin, rfl⟩)
    · exact Or.inl rfl
  | @call i c n ph ms hadv =>
    rw [show (((s.setNode (plan.node i) n).setPhase i ph).send ms).phase j =
      if j = i then ph else s.phase j from phase_setPhase _ i j ph]
    split
    · rename_i hji
      subst hji
      refine Or.inr (Or.inr ⟨c, ms, rfl, ?_⟩)
      rwa [show (((s.setNode (plan.node j) n).setPhase j ph).send ms).nodes (plan.node j) = n from
        Function.update_self ..]
    · exact Or.inl rfl
  | ask hask => exact absurd hask (hs.ask _ _ _)
  | fail hawait => exact absurd hawait (hs.await _ _ _)
  | @answer i r horigin hr => cases (hs.remote i horigin).symm.trans hr
  | request hm | fetched hm | refused hm => cases (hnet _).symm.trans hm
  | _ => exact Or.inl rfl

/-- Nodes without peers stay so. -/
theorem Does.alone (h : Does plan len s a s') (hs : Alone plan s) : Alone plan s' where
  registry := h.nodes_inv hs.registry (fun _ _ _ _ _ hadv => hadv.registry_eq.trans (hs.registry _))
    (fun _ _ hn => hn) (fun _ _ hn hr => hr hn) (fun _ hn => hn)
  net := by
    have hnet : ∀ k : ℕ, s.net[k]? = none := fun k => by rw [hs.net]; rfl
    cases h with
    | @call i c n ph ms hadv =>
      show s.net ++ ms = []
      rw [hs.net, (hadv.alone (hs.registry _)).1]
      rfl
    | ask hask => exact absurd hask (hs.ask _ _ _)
    | @answer i r horigin hr => cases (hs.remote i horigin).symm.trans hr
    | @delete node key ms hms =>
      show s.net ++ ms = []
      rw [hs.net, hms, hs.registry]
      rfl
    | request hm | fetched hm | refused hm | late hm | push hm | broadcast hm | invalidate hm =>
      cases (hnet _).symm.trans hm
    | lose k =>
      show s.net.eraseIdx k = []
      rw [hs.net]
      rfl
    | _ => exact hs.net
  remote i horigin := by
    rcases h.phase_alone hs i with hsame | ⟨-, -, hnone, -⟩ | ⟨c, ms, -, hadv⟩
    · exact hsame.trans (hs.remote i horigin)
    · rw [hnone] at horigin
      cases horigin
    · exact absurd (hs.remote i horigin) hadv.ne_idle.1
  ask i peer rest := by
    rcases h.phase_alone hs i with hsame | ⟨-, -, -, hstart⟩ | ⟨c, ms, -, hadv⟩
    · rw [hsame]
      exact hs.ask i peer rest
    · rw [hstart, Phase.start]
      split <;> exact fun hph => by cases hph
    · exact (hadv.alone (hs.registry _)).2.1 peer rest
  await i rpc rest := by
    rcases h.phase_alone hs i with hsame | ⟨-, -, -, hstart⟩ | ⟨c, ms, -, hadv⟩
    · rw [hsame]
      exact hs.await i rpc rest
    · rw [hstart, Phase.start]
      split <;> exact fun hph => by cases hph
    · exact (hadv.alone (hs.registry _)).2.2 rpc rest

end Alone

/-! ### What the mark leads to -/

/-- A call that has not come to the flag yet, or has been refused. -/
def Phase.Early (ph : Phase V) : Prop :=
  ph = .idle ∨ ph = .swap ∨ ∃ err, ph = .returned (.error err)

/-- A `Get` is about to purge the cache. -/
def Purging (plan : Plan) (node : String) (s : State V) : Prop :=
  ∃ j, plan.node j = node ∧ s.phase j = .purge

/-- No entry is old. -/
def Fresh (old : V → Prop) (node : String) (s : State V) : Prop :=
  ∀ k v, (s.nodes node).cache.Holds k v → ¬ old v

/-- What is true from a mark on. Of the calls `New`, which start later, none returns an old
value: until the cache is purged, none of them has come to the flag. -/
structure Marked (plan : Plan) (old : V → Prop) (node : String) (New : ℕ → Prop) (s : State V) :
    Prop where
  calm : s.Calm
  alone : Alone plan s
  adds : ∀ i v, plan.node i = node → (s.phase i).adds? = some v → ¬ old v
  flushes : ((s.nodes node).cacheDirty = true ∧
      ∀ i, New i → plan.node i = node → (s.phase i).Early) ∨ Purging plan node s ∨ Fresh old node s
  value : ∀ i v, New i → plan.node i = node → (s.phase i).value? = some v → ¬ old v
  result : ∀ i v, New i → plan.node i = node → s.phase i = .returned (.ok v) → ¬ old v

section Marked

variable {plan : Plan} {len : V → ℕ} {old : V → Prop} {node : String} {New : ℕ → Prop}
  {s s' : State V} {a : Action V}

/-- The mark is taken away by a call that purges then. -/
theorem Does.dirty (h : Does plan len s a s') (hdirty : (s.nodes node).cacheDirty = true) :
    (s'.nodes node).cacheDirty = true ∨ Purging plan node s' := by
  have hset : ∀ (t : State V) (m : String) (n : Node V), t.nodes = s.nodes →
      (node = m → n.cacheDirty = true) → ((t.setNode m n).nodes node).cacheDirty = true := by
    intro t m n ht hn
    rw [nodes_setNode, ht]
    split
    · rename_i hm
      exact hn hm
    · exact hdirty
  cases h with
  | @call i c n ph ms hadv =>
    by_cases hnode : node = plan.node i
    · subst hnode
      rcases hadv.dirty hdirty with hdirty' | rfl
      · exact Or.inl (hset s _ _ rfl fun _ => hdirty')
      · exact Or.inr ⟨i, rfl, Function.update_self ..⟩
    · exact Or.inl (hset s _ _ rfl fun hm => absurd hm hnode)
  | delete | join | leave => exact Or.inl (hset s _ _ rfl fun hm => hm ▸ hdirty)
  | @push k => exact Or.inl (hset (s.drop k) _ _ rfl fun hm => hm ▸ hdirty)
  | @invalidate k => exact Or.inl (hset (s.drop k) _ _ rfl fun hm => hm ▸ hdirty)
  | mark => exact Or.inl (hset s _ _ rfl fun _ => rfl)
  | _ => exact Or.inl hdirty

theorem Phase.start_early (key : String) : (Phase.start key : Phase V).Early := by
  rw [Phase.start]
  split
  · exact Or.inr (Or.inr ⟨_, rfl⟩)
  · exact Or.inr (Or.inl rfl)

theorem Phase.Early.value? {ph : Phase V} (h : ph.Early) : ph.value? = none := by
  rcases h with rfl | rfl | ⟨err, rfl⟩ <;> rfl

theorem Phase.Early.ne_lookup {ph : Phase V} (h : ph.Early) : ph ≠ .lookup := by
  rcases h with rfl | rfl | ⟨err, rfl⟩ <;> exact nofun

/-- A call that comes to the flag while it is set is about to purge then. -/
theorem Does.early (h : Does plan len s a s') (hs : Alone plan s)
    (hdirty : (s.nodes node).cacheDirty = true) {i : ℕ} (hi : plan.node i = node)
    (hearly : (s.phase i).Early) : (s'.phase i).Early ∨ s'.phase i = .purge := by
  rcases h.phase_alone hs i with hsame | ⟨-, -, -, hstart⟩ | ⟨c, ms, -, hadv⟩
  · exact Or.inl (by rwa [hsame])
  · exact Or.inl (by rw [hstart]; exact Phase.start_early _)
  · rcases hearly with hidle | hswap | ⟨err, herr⟩
    · exact absurd hidle hadv.ne_idle.1
    · exact Or.inr (hadv.of_swap hswap (by rw [hi]; exact hdirty))
    · exact absurd herr (hadv.ne_returned _)

/-- A purge leaves nothing old. -/
theorem Does.purging (h : Does plan len s a s') (hs : Alone plan s)
    (hpurging : Purging plan node s) :
    Purging plan node s' ∨ Fresh old node s' := by
  obtain ⟨j, rfl, hj⟩ := hpurging
  rcases h.phase_alone hs j with hsame | ⟨-, hidle, -⟩ | ⟨c, ms, -, hadv⟩
  · exact Or.inl ⟨j, rfl, hsame.trans hj⟩
  · cases hidle.symm.trans hj
  · refine Or.inr fun k v hh => ?_
    rw [hadv.of_purge hj] at hh
    exact absurd hh LocalCache.not_holds_purge

/-- **A step after the mark.** -/
theorem Marked.step (hs : Marked plan old node New s)
    (hlookup : ∀ i c, a = .step i c → New i → plan.node i = node → s.phase i = .lookup →
      ¬ Purging plan node s)
    (hgetter : ∀ i v, a = .step i (.getter (.ok v)) → ¬ old v)
    (h : step plan len s a = some s') : Marked plan old node New s' := by
  have hdoes := does_of_step hs.calm h
  refine ⟨hdoes.calm hs.calm, hdoes.alone hs.alone, fun i v hi hv => ?_, ?_,
    fun i v hnew hi hv => ?_,
    fun i v hnew hi hr => ?_⟩
  · rcases hdoes.phase_alone hs.alone i with hsame | ⟨-, -, -, hstart⟩ | ⟨c, ms, rfl, hadv⟩
    · exact hs.adds i v hi (by rwa [← hsame])
    · rw [hstart] at hv
      exact absurd (Phase.value?_of_adds? hv) (by rw [(Phase.start_early _).value?]; exact nofun)
    · obtain rfl := hadv.adds hv
      exact hgetter i v rfl
  · rcases hs.flushes with ⟨hdirty, hearly⟩ | hpurging | hfresh
    · by_cases hpurging : Purging plan node s'
      · exact Or.inr (Or.inl hpurging)
      refine Or.inl ⟨(hdoes.dirty hdirty).resolve_right hpurging, fun i hnew hi => ?_⟩
      refine (hdoes.early hs.alone hdirty hi (hearly i hnew hi)).resolve_right fun hpurge => ?_
      exact hpurging ⟨i, hi, hpurge⟩
    · exact Or.inr (hdoes.purging hs.alone hpurging)
    · refine Or.inr (Or.inr fun k v hh => ?_)
      rcases hdoes.holds hh with hh | ⟨i, hi, -, hv⟩ | hm
      · exact hfresh k v hh
      · exact hs.adds i v hi hv
      · rw [hs.alone.net] at hm
        cases hm
  · rcases hdoes.phase_alone hs.alone i with hsame | ⟨-, -, -, hstart⟩ | ⟨c, ms, rfl, hadv⟩
    · exact hs.value i v hnew hi (by rwa [← hsame])
    · rw [hstart, (Phase.start_early _).value?] at hv
      cases hv
    · rcases hadv.value hv with hv | rfl
      · exact hs.value i v hnew hi hv
      · exact hgetter i v rfl
  · rcases hdoes.result hr with hr | hv | ⟨c, rfl, hphase, hh⟩
    · exact hs.result i v hnew hi hr
    · exact hs.value i v hnew hi hv
    · -- the mark has been taken away, and nobody is about to purge: the purge has been done
      rcases hs.flushes with ⟨-, hearly⟩ | hpurging | hfresh
      · exact absurd hphase (hearly i hnew hi).ne_lookup
      · exact absurd hpurging (hlookup i c rfl hnew hi hphase)
      · rw [hi] at hh
        exact hfresh _ v hh

end Marked

theorem State.Init.alone {plan : Plan} {s : State V} (h : s.Init)
    (hregistry : ∀ node, (s.nodes node).registry = none) : Alone plan s where
  registry := hregistry
  net := h.net
  remote i _ := h.phase i
  ask i peer rest := by rw [h.phase i]; exact nofun
  await i rpc rest := by rw [h.phase i]; exact nofun

/-- A range of slots that is not empty is marked. -/
theorem mem_invalidateSlots {node : String} {start stop : ℤ} (h : start ≤ stop) :
    (.markSlotMigrated node : Action V) ∈ invalidateSlots [node] start stop := by
  rw [invalidateSlots, List.flatMap_singleton]
  exact List.mem_map.mpr ⟨0, List.mem_range.mpr (by omega), rfl⟩

section Runs

variable {plan : Plan} {len : V → ℕ} {s s' : State V}

/-- What a run of nodes without peers keeps. -/
theorem alone_exec {l : List (Action V)} (hcalm : s.Calm) (hs : Alone plan s)
    (h : Runs.exec (step plan len) s l = some s') : s'.Calm ∧ Alone plan s' := by
  refine (Runs.Always.of_inv (I := fun t => t.Calm ∧ Alone plan t) ⟨hcalm, hs⟩ ?_).last h
  rintro t a t' ⟨hcalm, halone⟩ hstep
  have hdoes := does_of_step hcalm hstep
  exact ⟨hdoes.calm hcalm, hdoes.alone halone⟩

/-- A call that starts in a run has not started before. -/
theorem idle_of_get {l : List (Action V)} (hcalm : s.Calm) (hs : Alone plan s)
    (h : Runs.exec (step plan len) s l = some s') {i : ℕ} (hi : .get i ∈ l) :
    s.phase i = .idle := by
  by_contra hne
  obtain ⟨l₁, l₂, rfl⟩ := List.append_of_mem hi
  rw [Runs.exec_append] at h
  obtain ⟨t, ht, hrest⟩ := Option.bind_eq_some_iff.mp h
  obtain ⟨t', ht', -⟩ := Option.bind_eq_some_iff.mp hrest
  have hkeeps : t.Calm ∧ Alone plan t ∧ t.phase i ≠ .idle := by
    refine (Runs.Always.of_inv (I := fun t => t.Calm ∧ Alone plan t ∧ t.phase i ≠ .idle)
      ⟨hcalm, hs, hne⟩ ?_).last ht
    rintro t a t' ⟨hcalm, halone, hne⟩ hstep
    have hdoes := does_of_step hcalm hstep
    refine ⟨hdoes.calm hcalm, hdoes.alone halone, ?_⟩
    rcases hdoes.phase_alone halone i with hsame | ⟨-, hidle, -⟩ | ⟨c, ms, -, hadv⟩
    · rwa [hsame]
    · exact absurd hidle hne
    · exact hadv.ne_idle.2
  cases does_of_step hkeeps.1 ht' with
  | get _ hidle => exact hkeeps.2.2 hidle

end Runs

/-- **No `Get` that starts when `InvalidateSlots` has returned returns an old value**, if the
range of slots is not empty, no `Get` has a value in its hands when a slot is marked, and none
looks a key up while another one is about to purge. `during` is what happens during the call
of `InvalidateSlots`; the old values are those of any predicate that no value meets which the
getter returns from the call on. -/
theorem invalidated_notReturned (plan : Plan) (len : V → ℕ) (s₀ : State V) (hinit : s₀.Init)
    (hpeers : ∀ node, (s₀.nodes node).registry = none) (before during after : List (Action V))
    (node : String) (start stop : ℤ) (old : V → Prop) (s₁ s₂ s : State V)
    (hbefore : Runs.exec (step plan len) s₀ before = some s₁)
    (hduring : Runs.exec (step plan len) s₁ during = some s₂)
    (hcall : (invalidateSlots [node] start stop).Sublist during)
    (hafter : Runs.exec (step plan len) s₂ after = some s)
    (hgetter : ∀ i v, .step i (.getter (.ok v)) ∈ during ++ after → ¬ old v) (hslots : start ≤ stop)
    (hmarks : Runs.EachStep (step plan len) (MarksSettled plan node) s₁ during)
    (hlookups : Runs.EachStep (step plan len) (LooksUpPurged plan node) s₂ after) :
    ∀ i v, .get i ∈ after → plan.node i = node → s.phase i = .returned (.ok v) → ¬ old v := by
  obtain ⟨hcalm₁, halone₁⟩ := alone_exec hinit.calm (hinit.alone hpeers) hbefore
  obtain ⟨hcalm₂, halone₂⟩ := alone_exec hcalm₁ halone₁ hduring
  -- the mark
  obtain ⟨d₁, d₂, rfl⟩ := List.append_of_mem (hcall.subset (mem_invalidateSlots hslots))
  rw [Runs.exec_append] at hduring
  obtain ⟨t, ht, hrest⟩ := Option.bind_eq_some_iff.mp hduring
  obtain ⟨t', ht', hd₂⟩ := Option.bind_eq_some_iff.mp hrest
  have hsettled := hmarks d₁ (.markSlotMigrated node) ⟨d₂, by simp⟩ t ht rfl
  obtain ⟨hcalm, halone⟩ := alone_exec hcalm₁ halone₁ ht
  have hdoes := does_of_step hcalm ht'
  have hmarked : Marked plan old node (fun _ => False) t' := by
    refine ⟨hdoes.calm hcalm, hdoes.alone halone, fun i v hi hv => ?_, Or.inl ⟨?_, nofun⟩, nofun,
      nofun⟩
    · cases ht'
      rw [show (t.setNode node _).phase i = t.phase i from rfl, hsettled i hi] at hv
      cases hv
    · cases ht'
      rw [nodes_setNode, if_pos rfl]
  -- until the call returns
  have hreturned : Marked plan old node (fun _ => False) s₂ := by
    refine (Runs.Always.of_eachStep (C := fun _ a => a ∈ d₂) hmarked ?_ ?_).last hd₂
    · exact fun p a hp _ _ => hp.subset (List.mem_append_right p (List.mem_singleton_self a))
    · intro u a u' hu ha hstep
      exact hu.step (fun _ _ _ hnew => hnew.elim)
        (fun i v hv => hgetter i v (by simp [← hv, ha])) hstep
  have hnew : Marked plan old node (fun i => s₂.phase i = .idle) s₂ := by
    refine ⟨hcalm₂, halone₂, hreturned.adds, ?_, fun i v hidle _ hv => ?_, fun i v hidle _ hr => ?_⟩
    · refine hreturned.flushes.imp_left fun hdirty => ⟨hdirty.1, fun i hidle _ => Or.inl hidle⟩
    · rw [hidle] at hv
      cases hv
    · rw [hidle] at hr
      cases hr
  -- and from then on
  have hlast : Marked plan old node (fun i => s₂.phase i = .idle) s := by
    refine (Runs.Always.of_eachStep (C := fun u a => LooksUpPurged plan node u a ∧ a ∈ after) hnew
      ?_ ?_).last hafter
    · exact fun p a hp u hu => ⟨hlookups p a hp u hu,
        hp.subset (List.mem_append_right p (List.mem_singleton_self a))⟩
    · rintro u a u' hu ⟨hlook, ha⟩ hstep
      refine hu.step ?_ (fun i v hv => hgetter i v (by simp [← hv, ha])) hstep
      rintro i c rfl - - hphase ⟨j, hj, hpurge⟩
      exact hlook hphase j hj hpurge
  intro i v hi hnode hr
  exact hlast.result i v (idle_of_get hcalm₂ halone₂ hafter hi) hnode hr

/-! ### A node by itself -/

/-- A load that purges the cache first. -/
def purgeSteps (i v : ℕ) : List (Action ℕ) :=
  .get i :: .step i .go :: (loadSteps i v).tail

/-- A load that comes after the mark by itself does not return the old value. -/
theorem invalidated_loneNode :
    ∃ s, Runs.exec (step lonePlan id) loneNode
        (loadSteps 0 1 ++ (invalidateSlots ["a"] 0 0 ++ purgeSteps 1 2)) = some s ∧
      s.phase 1 = .returned (.ok 2) ∧
      ∀ v, s.phase 1 = .returned (.ok v) → v ≠ 1 := by
  refine ⟨_, rfl, rfl, fun v hv => ?_⟩
  refine invalidated_notReturned lonePlan id loneNode
    ⟨fun _ => rfl, fun _ => rfl, fun _ => rfl, rfl⟩
    (fun _ => rfl) (loadSteps 0 1) (invalidateSlots ["a"] 0 0) (purgeSteps 1 2) "a" 0 0 (· = 1) _ _
    _ rfl rfl (List.Sublist.refl _) rfl ?_ (le_refl 0) ?_ ?_ 1 v ?_ rfl hv
  · intro i v hv
    simp [invalidateSlots, purgeSteps, loadSteps] at hv
    omega
  · refine Runs.eachStep_cons.mpr ⟨fun _ i _ => ?_, fun t _ => Runs.eachStep_nil⟩
    rcases i with _ | i <;> rfl
  · -- the look-up is the fourth step
    refine Runs.eachStep_cons.mpr ⟨trivial, fun t ht => ?_⟩
    cases ht
    refine Runs.eachStep_cons.mpr ⟨fun hph => (by cases hph), fun t ht => ?_⟩
    cases ht
    refine Runs.eachStep_cons.mpr ⟨fun hph => (by cases hph), fun t ht => ?_⟩
    cases ht
    refine Runs.eachStep_cons.mpr ⟨fun _ j _ hj => ?_, fun t ht => ?_⟩
    · rcases j with _ | _ | j <;> cases hj
    cases ht
    iterate 9
      refine Runs.eachStep_cons.mpr ⟨fun hph => (by cases hph), fun t ht => ?_⟩
      cases ht
    exact Runs.eachStep_nil
  · exact List.mem_cons_self

/-- Between the swap of one `Get` and its purge, another one finds the old value. -/
theorem returned_between_swap_and_purge :
    ∃ s, Runs.exec (step lonePlan id) loneNode
        (loadSteps 0 1 ++ (invalidateSlots ["a"] 0 0 ++
          [.get 1, .step 1 .go, .get 2, .step 2 .go, .step 2 .go])) = some s ∧
      s.phase 2 = .returned (.ok 1) :=
  ⟨_, rfl, rfl⟩

end Cache

end ClusterManager
