import ClusterManager.Cache.Protocol

/-!
# Where values come from

A value comes into the cluster when a getter returns it, and from there into caches by four
ways: a call adds what it has loaded, a peer adds what it has been answered, and the first
candidate and those of a hot key add what they have been pushed. Between the getter and a
cache it is *on its way* (`OnItsWay`): in the hands of a call, in an answer or in a push.

What one step can do to values is said once. `Node.Advances` lists the steps of a call at its
node; `step_holds` says where the entries of a cache after a step come from, `step_onItsWay`
where what is on its way comes from, and `step_result` what a call returns. Whatever holds of
all values that getters return therefore holds of all entries and all results, and
`cached_right` is the case where it is that the getter is a function.
-/

namespace ClusterManager

namespace Cache

variable {V : Type}

/-- The value a call holds and may still add, push or return. -/
def Phase.value? : Phase V → Option V
  | .fetched v | .loaded v | .secondaries v | .hot v => some v
  | .complete (.ok v) | .forget (.ok v) => some v
  | _ => none

/-- The value a call is about to add to the cache. -/
def Phase.adds? : Phase V → Option V
  | .fetched v | .loaded v => some v
  | _ => none

theorem Phase.value?_of_adds? {ph : Phase V} {v : V} (h : ph.adds? = some v) :
    ph.value? = some v := by
  cases ph <;> first | exact h | cases h

theorem Phase.tryNext_cases (l : List String) :
    (Phase.tryNext l : Phase V) = .limit ∨
      ∃ peer rest, (Phase.tryNext l : Phase V) = .ask peer rest := by
  rcases l with _ | ⟨peer, rest⟩
  · exact Or.inl rfl
  · exact Or.inr ⟨peer, rest, rfl⟩

/-! ### One step of a call -/

section Advance

/-- What one step of a call can do, where nobody waits for another call: the node, the phase
and the messages after it. -/
inductive Node.Advances (plan : Plan) (len : V → ℕ) (i : ℕ) (n : Node V) :
    Phase V → Choice V → Node V → Phase V → List (Message V) → Prop
  | swapDirty (h : n.cacheDirty = true) :
      Advances plan len i n .swap .go { n with cacheDirty := false } .purge []
  | swapClean (h : n.cacheDirty = false) : Advances plan len i n .swap .go n .lookup []
  | purge : Advances plan len i n .purge .go { n with cache := n.cache.purge } .lookup []
  | hit {v : V} (h : (n.cache.get (plan.key i)).1 = some v) :
      Advances plan len i n .lookup .go { n with cache := (n.cache.get (plan.key i)).2 }
        (.returned (.ok v)) []
  | miss : Advances plan len i n .lookup .go { n with cache := (n.cache.get (plan.key i)).2 }
      .enter []
  | enter {l : SingleFlight.State ℕ String (Except String V)} (hl : l.Inv) :
      Advances plan len i n .enter .go { n with loader := l } .pick []
  | pick : Advances plan len i n .pick .go n (Phase.tryNext (n.candidates (plan.key i))) []
  | addFetched {v : V} {c : LocalCache V} (h : n.cache.add len (plan.key i) v = some c) :
      Advances plan len i n (.fetched v) .go { n with cache := c } (.complete (.ok v)) []
  | admitted : Advances plan len i n .limit (.limit none) n .source []
  | limited {err msg : String} :
      Advances plan len i n .limit (.limit (some err)) n (.complete (.error msg)) []
  | loaded {v : V} : Advances plan len i n .source (.getter (.ok v)) n (.loaded v) []
  | failed {err : String} :
      Advances plan len i n .source (.getter (.error err)) n (.complete (.error err)) []
  | addLoaded {v : V} {c : LocalCache V} (h : n.cache.add len (plan.key i) v = some c) :
      Advances plan len i n (.loaded v) .go { n with cache := c } (.secondaries v) []
  | secondaries {v : V} : Advances plan len i n (.secondaries v) .go n (.hot v)
      (n.replicateToSecondaries (plan.key i) v)
  | hot {v : V} {isHot : Bool} : Advances plan len i n (.hot v) (.hot isHot) n
      (.complete (.ok v)) (n.replicateIfHot (plan.key i) v isHot)
  | complete {r : Except String V} {l : SingleFlight.State ℕ String (Except String V)}
      (hl : l.Inv) : Advances plan len i n (.complete r) .go { n with loader := l } (.forget r) []
  | forget {r : Except String V} {l : SingleFlight.State ℕ String (Except String V)}
      (hl : l.Inv) : Advances plan len i n (.forget r) .go { n with loader := l } (.returned r) []

variable {plan : Plan} {len : V → ℕ} {i : ℕ} {n n' : Node V} {ph ph' : Phase V} {c : Choice V}
  {ms : List (Message V)}

/-- A call that enters where no record is kept runs. -/
theorem running_of_enter {l : SingleFlight.State ℕ String (Except String V)}
    (hinv : n.loader.Inv) (h : SingleFlight.step plan.key n.loader (.enter i) = some l) :
    l.phase i = .running := by
  rcases SingleFlight.step_cases hinv h with ⟨j, hj, -, rfl⟩ | ⟨j, r, hj, -⟩ | ⟨j, r, hj, -⟩
  · cases hj
    exact Function.update_self ..
  · cases hj
  · cases hj

/-- **What a step of a call does.** -/
theorem advances_of_advance (hinv : n.loader.Inv) (hwait : ph ≠ .wait)
    (h : n.advance plan len i ph c = some (n', ph', ms)) :
    n.Advances plan len i ph c n' ph' ms := by
  revert h hwait
  fun_cases Node.advance plan len i n ph c <;> intro hwait h
  case case1 hdirty =>
    cases h
    exact .swapDirty hdirty
  case case2 hdirty =>
    cases h
    exact .swapClean (by simpa using hdirty)
  case case3 =>
    cases h
    exact .purge
  case case4 hget =>
    cases h
    exact .hit hget
  case case5 =>
    cases h
    exact .miss
  case case6 =>
    obtain ⟨l, hl, heq⟩ := Option.map_eq_some_iff.mp h
    rw [running_of_enter hinv hl] at heq
    cases heq
    exact .enter (SingleFlight.step_inv hinv hl)
  case case7 => exact absurd rfl hwait
  case case8 =>
    cases h
    exact .pick
  case case9 v =>
    obtain ⟨c, hc, heq⟩ := Option.map_eq_some_iff.mp h
    cases heq
    exact .addFetched hc
  case case10 =>
    cases h
    exact .admitted
  case case11 =>
    cases h
    exact .limited
  case case12 => cases h
  case case13 =>
    cases h
    exact .loaded
  case case14 =>
    cases h
    exact .failed
  case case15 =>
    obtain ⟨c, hc, heq⟩ := Option.map_eq_some_iff.mp h
    cases heq
    exact .addLoaded hc
  case case16 =>
    cases h
    exact .secondaries
  case case17 =>
    cases h
    exact .hot
  case case18 =>
    obtain ⟨l, hl, heq⟩ := Option.map_eq_some_iff.mp h
    cases heq
    exact .complete (SingleFlight.step_inv hinv hl)
  case case19 =>
    obtain ⟨l, hl, heq⟩ := Option.map_eq_some_iff.mp h
    cases heq
    exact .forget (SingleFlight.step_inv hinv hl)
  case case20 => cases h

namespace Node.Advances

variable {k : String} {v : V} (h : n.Advances plan len i ph c n' ph' ms)

include h

theorem holds (hh : n'.cache.Holds k v) :
    n.cache.Holds k v ∨ (k = plan.key i ∧ ph.adds? = some v) := by
  cases h with
  | purge => exact absurd hh LocalCache.not_holds_purge
  | hit | miss => exact Or.inl (LocalCache.holds_get hh)
  | addFetched hadd | addLoaded hadd =>
    rcases LocalCache.holds_add hadd hh with ⟨rfl, rfl⟩ | ⟨hh, -⟩
    · exact Or.inr ⟨rfl, rfl⟩
    · exact Or.inl hh
  | _ => exact Or.inl hh

theorem value (hv : ph'.value? = some v) : ph.value? = some v ∨ c = .getter (.ok v) := by
  cases h with
  | loaded =>
    cases hv
    exact Or.inr rfl
  | addFetched | addLoaded | secondaries | hot => exact Or.inl hv
  | @complete r =>
    rcases r with err | u
    · cases hv
    · exact Or.inl hv
  | pick =>
    rcases Phase.tryNext_cases (n.candidates (plan.key i)) with hnext | ⟨peer, rest, hnext⟩ <;>
      rw [hnext] at hv <;> cases hv
  | _ => cases hv

theorem returned (hr : ph' = .returned (.ok v)) :
    ph.value? = some v ∨ (ph = .lookup ∧ n.cache.Holds (plan.key i) v) := by
  cases h with
  | hit hget =>
    cases hr
    exact Or.inr ⟨rfl, LocalCache.holds_of_get hget⟩
  | forget =>
    cases hr
    exact Or.inl rfl
  | pick =>
    rcases Phase.tryNext_cases (n.candidates (plan.key i)) with hnext | ⟨peer, rest, hnext⟩ <;>
      rw [hnext] at hr <;> cases hr
  | _ => cases hr

theorem sent {m : Message V} (hm : m ∈ ms) :
    ∃ peer v, m = .push peer (plan.key i) v ∧ ph.value? = some v := by
  cases h with
  | secondaries =>
    rw [replicateToSecondaries] at hm
    split at hm
    · cases hm
    · obtain ⟨peer, -, rfl⟩ := List.mem_map.mp hm
      exact ⟨peer, _, rfl, rfl⟩
  | hot =>
    unfold replicateIfHot at hm
    split at hm
    · obtain ⟨peer, -, rfl⟩ := List.mem_map.mp hm
      exact ⟨peer, _, rfl, rfl⟩
    · cases hm
  | _ => cases hm

theorem loader_inv (hinv : n.loader.Inv) : n'.loader.Inv := by
  cases h with
  | enter hl | complete hl | forget hl => exact hl
  | _ => exact hinv

theorem registry_eq : n'.registry = n.registry := by
  cases h <;> rfl

/-- A step of a call at its node leads to neither of these three. -/
theorem phase_ne : ph' ≠ .idle ∧ ph' ≠ .wait ∧ ∀ rpc rest, ph' ≠ .await rpc rest := by
  cases h with
  | pick =>
    rcases Phase.tryNext_cases (n.candidates (plan.key i)) with hnext | ⟨peer, rest, hnext⟩ <;>
      rw [hnext] <;> exact ⟨nofun, nofun, nofun⟩
  | _ => exact ⟨nofun, nofun, nofun⟩

end Node.Advances

end Advance

/-! ### One step of the nodes and their messages -/

/-- The phases in which a call has no value: those at its beginning, while it asks peers and at
its end. -/
inductive Phase.Plain : Phase V → Prop
  | start (key : String) : Plain (Phase.start key)
  | requested : Plain .requested
  | await (rpc : ℕ) (rest : List String) : Plain (.await rpc rest)
  | next (l : List String) : Plain (Phase.tryNext l)
  | answered : Plain .answered

/-- The phases that a call leaves by something else than a step of its own. -/
inductive Phase.Outside : Phase V → Prop
  | idle : Outside .idle
  | requested : Outside .requested
  | ask (peer : String) (rest : List String) : Outside (.ask peer rest)
  | await (rpc : ℕ) (rest : List String) : Outside (.await rpc rest)
  | returned (r : Except String V) : Outside (.returned r)

theorem Phase.Plain.value? {ph : Phase V} (h : ph.Plain) : ph.value? = none := by
  cases h with
  | start key =>
    rw [Phase.start]
    split <;> rfl
  | next l => rcases l with _ | ⟨peer, rest⟩ <;> rfl
  | _ => rfl

/-- A plain phase is neither of these three. -/
theorem Phase.Plain.ne {ph : Phase V} (h : ph.Plain) :
    ph ≠ .idle ∧ ph ≠ .wait ∧ ∀ v, ph ≠ .returned (.ok v) := by
  cases h with
  | start key =>
    rw [Phase.start]
    split <;> exact ⟨nofun, nofun, nofun⟩
  | next l => rcases l with _ | ⟨peer, rest⟩ <;> exact ⟨nofun, nofun, nofun⟩
  | _ => exact ⟨nofun, nofun, nofun⟩

/-- No call waits for another one. -/
structure State.Calm (s : State V) : Prop where
  loader : ∀ node, (s.nodes node).loader.Inv
  wait : ∀ i, s.phase i ≠ .wait

/-- A value is on its way: a call has it in its hands or has it as a result for a peer, or it
is in a message. -/
inductive OnItsWay (plan : Plan) (s : State V) (key : String) (v : V) : Prop
  | call (i : ℕ) (hkey : plan.key i = key) (h : (s.phase i).value? = some v)
  | result (i : ℕ) (hkey : plan.key i = key) (horigin : (plan.origin i).isSome)
      (h : s.phase i = .returned (.ok v))
  | response (rpc : ℕ) (hkey : plan.key rpc = key) (h : .response rpc (.ok v) ∈ s.net)
  | push (peer : String) (h : .push peer key v ∈ s.net)

section Step

variable {plan : Plan} {len : V → ℕ} {s s' : State V} {a : Action V}

theorem phase_setPhase (s : State V) (i j : ℕ) (ph : Phase V) :
    (s.setPhase i ph).phase j = if j = i then ph else s.phase j :=
  Function.update_apply ..

theorem nodes_setNode (s : State V) (m node : String) (n : Node V) :
    (s.setNode m n).nodes node = if node = m then n else s.nodes node :=
  Function.update_apply ..

/-- A message that changes nothing when it arrives: a request or an answer that is of no use
any longer. -/
inductive Message.Late : Message V → Prop
  | request (rpc : ℕ) : Late (.request rpc)
  | response (rpc : ℕ) (r : Except String V) : Late (.response rpc r)

/-- What a step can do: the state after it. -/
inductive Does (plan : Plan) (len : V → ℕ) (s : State V) : Action V → State V → Prop
  | get (i : ℕ) (hidle : s.phase i = .idle) (horigin : plan.origin i = none) :
      Does plan len s (.get i) (s.setPhase i (Phase.start (plan.key i)))
  | call {i : ℕ} {c : Choice V} {n : Node V} {ph : Phase V} {ms : List (Message V)}
      (hadv : (s.nodes (plan.node i)).Advances plan len i (s.phase i) c n ph ms) :
      Does plan len s (.step i c) (((s.setNode (plan.node i) n).setPhase i ph).send ms)
  | ask {i rpc : ℕ} {peer : String} {rest : List String} (hask : s.phase i = .ask peer rest)
      (hidle : s.phase rpc = .idle) : Does plan len s (.ask i rpc)
      (((s.setPhase i (.await rpc rest)).setPhase rpc .requested).send [.request rpc])
  | fail {i rpc : ℕ} {rest : List String} (hawait : s.phase i = .await rpc rest) :
      Does plan len s (.fail i) (s.setPhase i (Phase.tryNext rest))
  | answer {i : ℕ} {r : Except String V} (horigin : (plan.origin i).isSome)
      (hr : s.phase i = .returned r) :
      Does plan len s (.answer i) ((s.setPhase i .answered).send [.response i r])
  | delete {node key : String} {ms : List (Message V)}
      (hms : ms = if (s.nodes node).registry.isSome then [.broadcast node key] else []) :
      Does plan len s (.delete node key) ((s.setNode node { s.nodes node with
        cache := (s.nodes node).cache.delete key }).send ms)
  | request {k rpc : ℕ} (hm : s.net[k]? = some (.request rpc)) (hreq : s.phase rpc = .requested) :
      Does plan len s (.deliver k) ((s.drop k).setPhase rpc (Phase.start (plan.key rpc)))
  | fetched {k rpc i : ℕ} {v : V} {rest : List String}
      (hm : s.net[k]? = some (.response rpc (.ok v))) (horigin : plan.origin rpc = some i)
      (hawait : s.phase i = .await rpc rest) :
      Does plan len s (.deliver k) ((s.drop k).setPhase i (.fetched v))
  | refused {k rpc i : ℕ} {r : Except String V} {rest : List String}
      (hm : s.net[k]? = some (.response rpc r)) (hawait : s.phase i = .await rpc rest) :
      Does plan len s (.deliver k) ((s.drop k).setPhase i (Phase.tryNext rest))
  | late {k : ℕ} {m : Message V} (hm : s.net[k]? = some m) (hlate : m.Late) :
      Does plan len s (.deliver k) (s.drop k)
  | push {k : ℕ} {peer key : String} {v : V} {c : LocalCache V}
      (hm : s.net[k]? = some (.push peer key v))
      (hc : (s.nodes peer).cache.add len key v = some c) : Does plan len s (.deliver k)
        ((s.drop k).setNode peer { s.nodes peer with cache := c })
  | broadcast {k : ℕ} {node key : String} (hm : s.net[k]? = some (.broadcast node key)) :
      Does plan len s (.deliver k)
        ((s.drop k).send ((s.nodes node).broadcastInvalidation key))
  | invalidate {k : ℕ} {peer key : String} (hm : s.net[k]? = some (.invalidate peer key)) :
      Does plan len s (.deliver k) ((s.drop k).setNode peer { s.nodes peer with
        cache := (s.nodes peer).cache.delete key })
  | lose (k : ℕ) : Does plan len s (.lose k) (s.drop k)
  | join {node addr : String} {ok : Bool} {r : Option Registry}
      (hr : (s.nodes node).registry = none → r = none) :
      Does plan len s (.join node addr ok) (s.setNode node { s.nodes node with registry := r })
  | leave {node addr : String} {r : Option Registry}
      (hr : (s.nodes node).registry = none → r = none) :
      Does plan len s (.leave node addr) (s.setNode node { s.nodes node with registry := r })
  | mark (node : String) : Does plan len s (.markSlotMigrated node)
      (s.setNode node { s.nodes node with cacheDirty := true })

/-- The arrival of a message. -/
theorem does_of_receive {k : ℕ} {m : Message V} (hm : s.net[k]? = some m)
    (h : receive plan len (s.drop k) m = some s') : Does plan len s (.deliver k) s' := by
  cases m with
  | request rpc =>
    rw [receive] at h
    split at h <;> cases h
    · rename_i hreq
      exact .request hm hreq
    · exact .late hm (.request rpc)
  | response rpc r =>
    rw [receive] at h
    split at h
    · cases h
      exact .late hm (.response rpc r)
    rename_i i horigin
    split at h
    · rename_i rpc' rest hawait
      split at h
      · rename_i hrpc
        subst hrpc
        split at h <;> cases h
        · exact .fetched hm horigin hawait
        · exact .refused hm hawait
      · cases h
        exact .late hm (.response rpc r)
    · cases h
      exact .late hm (.response rpc r)
  | push peer key v =>
    obtain ⟨c, hc, rfl⟩ := Option.map_eq_some_iff.mp h
    exact .push hm hc
  | broadcast =>
    cases h
    exact .broadcast hm
  | invalidate =>
    cases h
    exact .invalidate hm

/-- **What a step does.** -/
theorem does_of_step (hcalm : s.Calm) (h : step plan len s a = some s') : Does plan len s a s' := by
  cases a with
  | get i =>
    rw [step] at h
    split at h <;> cases h
    rename_i hidle horigin
    exact .get i hidle horigin
  | step i c =>
    obtain ⟨⟨n, ph, ms⟩, hadv, rfl⟩ := Option.map_eq_some_iff.mp h
    exact .call (advances_of_advance (hcalm.loader _) (hcalm.wait i) hadv)
  | ask i rpc =>
    rw [step] at h
    split at h
    · rename_i peer rest hask hidle
      split at h <;> cases h
      exact .ask hask hidle
    · cases h
  | fail i =>
    rw [step] at h
    split at h <;> cases h
    rename_i hawait
    exact .fail hawait
  | answer i =>
    rw [step] at h
    split at h <;> cases h
    rename_i r i' hr horigin
    exact .answer (by rw [horigin]; rfl) hr
  | delete node key =>
    rw [step] at h
    cases h
    have hdoes : Does plan len s (.delete node key) _ := .delete rfl
    split
    · rename_i hsome
      rwa [if_pos hsome] at hdoes
    · rename_i hnone
      rw [if_neg hnone] at hdoes
      simpa [State.send] using hdoes
  | deliver k =>
    rw [step] at h
    split at h
    · cases h
    · rename_i m hm
      exact does_of_receive hm h
  | lose k =>
    rw [step] at h
    split at h <;> cases h
    exact .lose k
  | join node addr ok =>
    cases h
    exact .join fun hnone => by rw [hnone]; rfl
  | leave node addr =>
    cases h
    exact .leave fun hnone => by rw [hnone]; rfl
  | markSlotMigrated node =>
    cases h
    exact .mark node

/-- **The phase of a call after a step.** -/
theorem Does.phase (h : Does plan len s a s') (j : ℕ) :
    s'.phase j = s.phase j ∨ ((s.phase j).Outside ∧ (s'.phase j).Plain) ∨
      (∃ c n ms, a = .step j c ∧
        (s.nodes (plan.node j)).Advances plan len j (s.phase j) c n (s'.phase j) ms) ∨
      ∃ rpc v, plan.origin rpc = some j ∧ .response rpc (.ok v) ∈ s.net ∧
        (∃ rest, s.phase j = .await rpc rest) ∧ s'.phase j = .fetched v := by
  -- the phase of one call changes at most, and to a plain one in most cases
  have hplain : ∀ (t : State V) (i : ℕ) (ph : Phase V), t.phase = s.phase → (s.phase i).Outside →
      ph.Plain → (t.setPhase i ph).phase j = s.phase j ∨
        ((s.phase j).Outside ∧ ((t.setPhase i ph).phase j).Plain) := by
    intro t i ph ht hout hph
    rw [phase_setPhase, ht]
    split
    · rename_i hji
      exact Or.inr ⟨hji ▸ hout, hph⟩
    · exact Or.inl rfl
  cases h with
  | get i hidle => exact (hplain s i _ rfl (hidle ▸ .idle) (.start _)).imp_right Or.inl
  | @call i c n ph ms hadv =>
    rw [show (((s.setNode (plan.node i) n).setPhase i ph).send ms).phase j =
      if j = i then ph else s.phase j from phase_setPhase _ i j ph]
    split
    · rename_i hji
      rw [hji]
      exact Or.inr (Or.inr (Or.inl ⟨c, n, ms, rfl, hadv⟩))
    · exact Or.inl rfl
  | @ask i rpc peer rest hask hidle =>
    rw [show (((s.setPhase i (.await rpc rest)).setPhase rpc .requested).send _).phase j =
      ((s.setPhase i (.await rpc rest)).setPhase rpc .requested).phase j from rfl, phase_setPhase]
    split
    · rename_i hj
      exact Or.inr (Or.inl ⟨by rw [hj, hidle]; exact .idle, .requested⟩)
    · exact (hplain s i _ rfl (hask ▸ .ask peer rest) (.await rpc rest)).imp_right Or.inl
  | @fail i rpc rest hawait =>
    exact (hplain s i _ rfl (hawait ▸ .await rpc rest) (.next rest)).imp_right Or.inl
  | @answer i r _ hr => exact (hplain s i _ rfl (hr ▸ .returned r) .answered).imp_right Or.inl
  | @request k rpc _ hreq =>
    exact (hplain (s.drop k) rpc _ rfl (hreq ▸ .requested) (.start _)).imp_right Or.inl
  | @fetched k rpc i v rest hm horigin hawait =>
    rw [phase_setPhase]
    split
    · rename_i hji
      rw [hji]
      refine Or.inr (Or.inr (Or.inr ⟨rpc, v, horigin, List.mem_of_getElem? hm, ⟨rest, ?_⟩, rfl⟩))
      exact hawait
    · exact Or.inl rfl
  | @refused k rpc i r rest _ hawait =>
    exact (hplain (s.drop k) i _ rfl (hawait ▸ .await rpc rest) (.next rest)).imp_right Or.inl
  | _ => exact Or.inl rfl

/-- What a step sends. -/
inductive Sent (plan : Plan) (s : State V) : Action V → Message V → Prop
  | request (i rpc : ℕ) : Sent plan s (.ask i rpc) (.request rpc)
  | push {i : ℕ} {c : Choice V} {v : V} (peer : String) (h : (s.phase i).value? = some v) :
      Sent plan s (.step i c) (.push peer (plan.key i) v)
  | response {i : ℕ} {r : Except String V} (horigin : (plan.origin i).isSome)
      (h : s.phase i = .returned r) : Sent plan s (.answer i) (.response i r)
  | broadcast (node key : String) : Sent plan s (.delete node key) (.broadcast node key)
  | invalidate {k : ℕ} (peer key : String) : Sent plan s (.deliver k) (.invalidate peer key)

/-- **The messages after a step.** -/
theorem Does.net (h : Does plan len s a s') {m : Message V} (hm : m ∈ s'.net) :
    m ∈ s.net ∨ Sent plan s a m := by
  have hdrop : ∀ k, m ∈ (s.drop k).net → m ∈ s.net := fun k => List.mem_of_mem_eraseIdx
  cases h with
  | call hadv =>
    refine (List.mem_append.mp hm).imp_right fun hm => ?_
    obtain ⟨peer, v, rfl, hv⟩ := hadv.sent hm
    exact .push peer hv
  | @ask i rpc =>
    refine (List.mem_append.mp hm).imp_right fun hm => ?_
    rw [List.mem_singleton.mp hm]
    exact .request i rpc
  | answer horigin hr =>
    refine (List.mem_append.mp hm).imp_right fun hm => ?_
    rw [List.mem_singleton.mp hm]
    exact .response horigin hr
  | @delete node key ms hms =>
    refine (List.mem_append.mp hm).imp_right fun hm => ?_
    rw [hms] at hm
    split at hm
    · rw [List.mem_singleton.mp hm]
      exact .broadcast node key
    · cases hm
  | @broadcast k node key =>
    rcases List.mem_append.mp hm with hm | hm
    · exact Or.inl (hdrop k hm)
    · unfold Node.broadcastInvalidation at hm
      split at hm
      · cases hm
      · obtain ⟨peer, -, rfl⟩ := List.mem_map.mp hm
        exact Or.inr (.invalidate peer key)
  | request | fetched | refused | late | push | invalidate | lose => exact Or.inl (hdrop _ hm)
  | _ => exact Or.inl hm

/-- **The entries after a step.** -/
theorem Does.holds (h : Does plan len s a s') {node k : String} {v : V}
    (hh : (s'.nodes node).cache.Holds k v) :
    (s.nodes node).cache.Holds k v ∨
      (∃ i, plan.node i = node ∧ plan.key i = k ∧ (s.phase i).adds? = some v) ∨
      .push node k v ∈ s.net := by
  have hset : ∀ (t : State V) (m : String) (n : Node V), t.nodes = s.nodes →
      ((t.setNode m n).nodes node).cache.Holds k v →
      (node = m ∧ n.cache.Holds k v) ∨ (s.nodes node).cache.Holds k v := by
    intro t m n ht hh
    rw [nodes_setNode, ht] at hh
    split at hh
    · rename_i hnode
      exact Or.inl ⟨hnode, hh⟩
    · exact Or.inr hh
  cases h with
  | @call i c n ph ms hadv =>
    rcases hset s (plan.node i) n rfl hh with ⟨rfl, hn⟩ | hs
    · refine (hadv.holds hn).imp_right fun hv => Or.inl ?_
      exact ⟨i, rfl, hv.1.symm, hv.2⟩
    · exact Or.inl hs
  | delete =>
    rcases hset s _ _ rfl hh with ⟨rfl, hn⟩ | hs
    · exact Or.inl (LocalCache.holds_delete hn).1
    · exact Or.inl hs
  | @push j peer key u c hm hc =>
    rcases hset (s.drop j) _ _ rfl hh with ⟨rfl, hn⟩ | hs
    · rcases LocalCache.holds_add hc hn with ⟨rfl, rfl⟩ | ⟨hs, -⟩
      · exact Or.inr (Or.inr (List.mem_of_getElem? hm))
      · exact Or.inl hs
    · exact Or.inl hs
  | @invalidate j =>
    rcases hset (s.drop j) _ _ rfl hh with ⟨rfl, hn⟩ | hs
    · exact Or.inl (LocalCache.holds_delete hn).1
    · exact Or.inl hs
  | join | leave | mark =>
    rcases hset s _ _ rfl hh with ⟨rfl, hn⟩ | hs
    · exact Or.inl hn
    · exact Or.inl hs
  | _ => exact Or.inl hh

/-- What holds of all nodes before a step, and is kept by the steps of calls and by changes of
the cache, the registry and the flag, holds of all nodes after it. -/
theorem Does.nodes_inv {P : Node V → Prop} (h : Does plan len s a s')
    (hs : ∀ node, P (s.nodes node))
    (hadv : ∀ i c n ph ms,
      (s.nodes (plan.node i)).Advances plan len i (s.phase i) c n ph ms → P n)
    (hcache : ∀ n c, P n → P { n with cache := c })
    (hregistry : ∀ n r, P n → (n.registry = none → r = none) → P { n with registry := r })
    (hdirty : ∀ n, P n → P { n with cacheDirty := true }) (node : String) : P (s'.nodes node) := by
  have hset : ∀ (t : State V) (m : String) (n : Node V), t.nodes = s.nodes → P n →
      P ((t.setNode m n).nodes node) := by
    intro t m n ht hn
    rw [nodes_setNode, ht]
    split
    · exact hn
    · exact hs node
  cases h with
  | @call i c n ph ms h => exact hset s (plan.node i) n rfl (hadv i c n ph ms h)
  | delete => exact hset s _ _ rfl (hcache _ _ (hs _))
  | @push k => exact hset (s.drop k) _ _ rfl (hcache _ _ (hs _))
  | @invalidate k => exact hset (s.drop k) _ _ rfl (hcache _ _ (hs _))
  | join hr | leave hr => exact hset s _ _ rfl (hregistry _ _ (hs _) hr)
  | mark => exact hset s _ _ rfl (hdirty _ (hs _))
  | _ => exact hs node

theorem Does.loader_inv (h : Does plan len s a s') (hinv : ∀ node, (s.nodes node).loader.Inv)
    (node : String) : (s'.nodes node).loader.Inv :=
  h.nodes_inv hinv (fun _ _ _ _ _ hadv => hadv.loader_inv (hinv _)) (fun _ _ hn => hn)
    (fun _ _ hn _ => hn) (fun _ hn => hn) node

/-- Nobody ever waits. -/
theorem Does.calm (h : Does plan len s a s') (hcalm : s.Calm) : s'.Calm where
  loader := h.loader_inv hcalm.loader
  wait j := by
    rcases h.phase j with hsame | ⟨-, hplain⟩ | ⟨c, n, ms, -, hadv⟩ | ⟨rpc, v, -, -, -, hfetched⟩
    · rw [hsame]
      exact hcalm.wait j
    · exact hplain.ne.2.1
    · exact hadv.phase_ne.2.1
    · rw [hfetched]
      exact nofun

/-- **What is on its way after a step** has been on its way, or has just been returned by a
getter or found in a cache. -/
theorem Does.onItsWay (h : Does plan len s a s') {key : String} {v : V}
    (hw : OnItsWay plan s' key v) :
    OnItsWay plan s key v ∨ (∃ i, a = .step i (.getter (.ok v)) ∧ plan.key i = key) ∨
      ∃ i c, a = .step i c ∧ s.phase i = .lookup ∧ plan.key i = key ∧
        (s.nodes (plan.node i)).cache.Holds key v := by
  rcases hw with ⟨j, rfl, hv⟩ | ⟨j, rfl, horigin, hr⟩ | ⟨rpc, rfl, hm⟩ | ⟨peer, hm⟩
  · rcases h.phase j with hsame | ⟨-, hplain⟩ | ⟨c, n, ms, rfl, hadv⟩ |
      ⟨rpc, u, horigin, hm, -, hfetched⟩
    · rw [hsame] at hv
      exact Or.inl (.call j rfl hv)
    · rw [hplain.value?] at hv
      cases hv
    · rcases hadv.value hv with hv | rfl
      · exact Or.inl (.call j rfl hv)
      · exact Or.inr (Or.inl ⟨j, rfl, rfl⟩)
    · rw [hfetched] at hv
      cases hv
      exact Or.inl (.response rpc (plan.key_origin rpc j horigin) hm)
  · rcases h.phase j with hsame | ⟨-, hplain⟩ | ⟨c, n, ms, rfl, hadv⟩ | ⟨rpc, u, -, -, -, hfetched⟩
    · rw [hsame] at hr
      exact Or.inl (.result j rfl horigin hr)
    · exact absurd hr (hplain.ne.2.2 v)
    · rcases hadv.returned hr with hv | ⟨hlookup, hh⟩
      · exact Or.inl (.call j rfl hv)
      · exact Or.inr (Or.inr ⟨j, c, rfl, hlookup, rfl, hh⟩)
    · rw [hfetched] at hr
      cases hr
  · rcases h.net hm with hm | hsent
    · exact Or.inl (.response rpc rfl hm)
    · cases hsent with
      | response horigin hr => exact Or.inl (.result rpc rfl horigin hr)
  · rcases h.net hm with hm | hsent
    · exact Or.inl (.push peer hm)
    · cases hsent with
      | push _ hv => exact Or.inl (.call _ rfl hv)

/-- **What a call returns** it has had in its hands, or has found in the cache of its node. -/
theorem Does.result (h : Does plan len s a s') {j : ℕ} {v : V}
    (hr : s'.phase j = .returned (.ok v)) :
    s.phase j = .returned (.ok v) ∨ (s.phase j).value? = some v ∨
      ∃ c, a = .step j c ∧ s.phase j = .lookup ∧
        (s.nodes (plan.node j)).cache.Holds (plan.key j) v := by
  rcases h.phase j with hsame | ⟨-, hplain⟩ | ⟨c, n, ms, rfl, hadv⟩ | ⟨rpc, u, -, -, -, hfetched⟩
  · exact Or.inl (hsame.symm.trans hr)
  · exact absurd hr (hplain.ne.2.2 v)
  · rcases hadv.returned hr with hv | ⟨hlookup, hh⟩
    · exact Or.inr (Or.inl hv)
    · exact Or.inr (Or.inr ⟨c, rfl, hlookup, hh⟩)
  · rw [hfetched] at hr
    cases hr

end Step

theorem State.Init.calm {s : State V} (h : s.Init) : s.Calm where
  loader node := by
    rw [h.loader node]
    exact SingleFlight.inv_init
  wait i := by
    rw [h.phase i]
    exact nofun

/-! ### A getter that is a function -/

/-- All values are those that the getter gives for their keys. -/
structure Right (plan : Plan) (source : String → Except String V) (s : State V) : Prop where
  calm : s.Calm
  holds : ∀ node k v, (s.nodes node).cache.Holds k v → source k = .ok v
  onItsWay : ∀ k v, OnItsWay plan s k v → source k = .ok v
  result : ∀ i v, s.phase i = .returned (.ok v) → source (plan.key i) = .ok v

theorem State.Init.right {plan : Plan} {source : String → Except String V} {s : State V}
    (h : s.Init) : Right plan source s where
  calm := h.calm
  holds node k v := by
    rintro ⟨l, hl, -⟩
    rw [h.lru node] at hl
    cases hl
  onItsWay k v := by
    rintro (⟨i, -, hv⟩ | ⟨i, -, -, hr⟩ | ⟨rpc, -, hm⟩ | ⟨peer, hm⟩)
    · rw [h.phase i] at hv
      cases hv
    · rw [h.phase i] at hr
      cases hr
    · rw [h.net] at hm
      cases hm
    · rw [h.net] at hm
      cases hm
  result i v hr := by
    rw [h.phase i] at hr
    cases hr

/-- A step keeps all values right. -/
theorem Right.step {plan : Plan} {len : V → ℕ} {source : String → Except String V} {s s' : State V}
    {a : Action V} (hs : Right plan source s)
    (hsource : ∀ i r, a = .step i (.getter r) → r = source (plan.key i))
    (h : step plan len s a = some s') : Right plan source s' := by
  have hdoes := does_of_step hs.calm h
  refine ⟨hdoes.calm hs.calm, fun node k v hh => ?_, fun k v hw => ?_, fun i v hr => ?_⟩
  · rcases hdoes.holds hh with hh | ⟨i, -, rfl, hv⟩ | hm
    · exact hs.holds node k v hh
    · exact hs.onItsWay _ v (.call i rfl (Phase.value?_of_adds? hv))
    · exact hs.onItsWay k v (.push node hm)
  · rcases hdoes.onItsWay hw with hw | ⟨i, ha, rfl⟩ | ⟨i, c, -, -, rfl, hh⟩
    · exact hs.onItsWay k v hw
    · exact (hsource i _ ha).symm
    · exact hs.holds _ _ v hh
  · rcases hdoes.result hr with hr | hv | ⟨c, -, -, hh⟩
    · exact hs.result i v hr
    · exact hs.onItsWay _ v (.call i rfl hv)
    · exact hs.holds _ _ v hh

/-- **Cached values are right for a fixed source.** Where the getter is the same function on
all nodes, whatever a call returns and whatever is in a cache is what it gives for the key. -/
theorem cached_right (plan : Plan) (len : V → ℕ) (source : String → Except String V)
    (s₀ : State V) (hinit : s₀.Init) (actions : List (Action V))
    (hsource : ∀ i r, .step i (.getter r) ∈ actions → r = source (plan.key i)) (s : State V)
    (hs : Runs.exec (step plan len) s₀ actions = some s) :
    (∀ i v, s.phase i = .returned (.ok v) → source (plan.key i) = .ok v) ∧
      ∀ node k v, (s.nodes node).cache.Holds k v → source k = .ok v := by
  have hright : Right plan source s := by
    refine (Runs.Always.of_eachStep (C := fun _ a => a ∈ actions) hinit.right ?_ ?_).last hs
    · exact fun p a hp _ _ => hp.subset (List.mem_append_right p (List.mem_singleton_self a))
    · intro t a t' ht ha h
      exact ht.step (fun i r hr => hsource i r (hr ▸ ha)) h
  exact ⟨hright.result, hright.holds⟩

/-- A node by itself, and a call that loads a key. -/
def loneNode : State ℕ where
  nodes _ := { cache := { cacheBytes := 0 } }

def lonePlan : Plan where
  node _ := "a"
  key _ := "k"
  origin _ := none
  key_origin := nofun

/-- The steps of a load, one after the other. -/
def loadSteps (i v : ℕ) : List (Action ℕ) :=
  [.get i, .step i .go, .step i .go, .step i .go, .step i .go, .step i (.limit none),
    .step i (.getter (.ok v)), .step i .go, .step i .go, .step i (.hot false), .step i .go,
    .step i .go]

/-- The value of the getter is returned, and is in the cache. -/
theorem cached_right_loneNode :
    ∃ s, Runs.exec (step lonePlan id) loneNode (loadSteps 0 7) = some s ∧
      s.phase 0 = .returned (.ok 7) ∧
      ∀ node k v, (s.nodes node).cache.Holds k v → (.ok 7 : Except String ℕ) = .ok v := by
  refine ⟨_, rfl, rfl, ?_⟩
  refine (cached_right lonePlan id (fun _ => .ok 7) loneNode ?_ (loadSteps 0 7) ?_ _ rfl).2
  · exact ⟨fun _ => rfl, fun _ => rfl, fun _ => rfl, rfl⟩
  · intro i r hr
    simp [loadSteps] at hr
    exact hr.2

end Cache

end ClusterManager
