import ClusterManager.Cache.Replication

/-!
# Where a hot key goes

A request is counted at the beginning of `Get`, whatever becomes of it, and may be the one that
makes its key hot. The pushes of a hot key however come at the end of a load from the source of
truth. A key that is asked for often is in the cache of the node, or a peer has it, so that the
request that makes it hot hardly ever loads anything, and the next ones are not looked at: they do
not make the key hot any more.

`hotReplicated_iff` says which requests spread the value they return. One that finds the value in
the cache or at a peer pushes nothing; its value has to have been pushed before. One that loads the
value pushes it, unless a pruning in the meantime takes the mark away; then there is still the push
to the first other owner.
-/

namespace ClusterManager

namespace Cache

variable {V : Type} {len : V → ℕ}

/-- What happens to a group: a call of `Get`, or a pruning of its hot keys in between. -/
inductive Visit (V : Type) where
  | get (key : String) (a : Answers V)
  | prune (time : ℤ)

/-- The group and the messages that have been sent so far, after one more visit. -/
def visit (len : V → ℕ) (s : Group V × List (Message V)) :
    Visit V → Option (Group V × List (Message V))
  | .get key a => (s.1.get len key a).map fun o => (o.group, s.2 ++ o.sent)
  | .prune time => some ({ s.1 with hotTracker := s.1.hotTracker.map (·.prune time) }, s.2)

/-- **A key that becomes hot is spread.** If the visit is a `Get` that makes its key hot and returns
a value, that value has been pushed to all candidates when it returns. -/
def HotReplicated (len : V → ℕ) (s : Group V × List (Message V)) : Visit V → Prop
  | .prune _ => True
  | .get key a => ∀ t o v l, s.1.hotTracker = some t → (t.record key a.now).1 = true →
      s.1.get len key a = some o → o.result = .ok v → t.replicateCandidates key = some l →
      ∀ addr ∈ l, .push addr key v ∈ s.2 ++ o.sent

namespace Group

variable {g : Group V} {key : String} {a : Answers V}

/-- The value that the cache has for the key, when it has been dropped if it is dirty. -/
def cached (g : Group V) (key : String) : Option V := (g.purged.mainCache.get key).1

/-- The group when the key has been looked up. -/
def lookedUp (g : Group V) (key : String) (a : Answers V) : Group V :=
  { (g.recorded key a).purged with mainCache := (g.purged.mainCache.get key).2 }

theorem get_eq (hkey : key ≠ "") : g.get len key a = match g.cached key with
    | some v => some { group := g.lookedUp key a, result := .ok v }
    | none => (g.lookedUp key a).load len key a := by
  rw [get, if_neg hkey]
  rfl

theorem limited_lookedUp (hlimited : g.mainCache.Limited) (key : String) (a : Answers V) :
    (g.lookedUp key a).mainCache.Limited ∧
      (g.lookedUp key a).mainCache.cacheBytes = g.mainCache.cacheBytes := by
  have hpurged : g.purged.mainCache.Limited ∧
      g.purged.mainCache.cacheBytes = g.mainCache.cacheBytes := by
    rw [purged]
    cases g.cacheDirty
    · exact ⟨hlimited, rfl⟩
    · exact ⟨LocalCache.limited_of_lru rfl, rfl⟩
  obtain ⟨hlimited', hbytes⟩ := hpurged.1.get key
  exact ⟨hlimited', hbytes.trans hpurged.2⟩

/-- **What a `Get` returns**, for a key that is not empty: the value that is cached, or that of the
first peer that has one, and nothing is sent; or else that of the getter, and then it is pushed. -/
theorem get_ok_iff (hlimited : g.mainCache.Limited) (hkey : key ≠ "") {v : V}
    {sent : List (Message V)} :
    (∃ o, g.get len key a = some o ∧ o.result = .ok v ∧ o.sent = sent) ↔
      match g.cached key, g.fetch key a with
      | some u, _ => u = v ∧ sent = []
      | none, some u => 0 ≤ g.mainCache.cacheBytes ∧ u = v ∧ sent = []
      | none, none => 0 ≤ g.mainCache.cacheBytes ∧ g.Passes a ∧ a.getter = .ok v ∧
        ∃ pushes, (g.recorded key a).replicateIfHot key v = some pushes ∧
          sent = g.replicateToSecondaries key v ++ pushes := by
  obtain ⟨hlimited', hbytes⟩ := limited_lookedUp hlimited key a
  rw [get_eq hkey]
  rcases g.cached key with _ | u
  · have hfetch : (g.lookedUp key a).fetch key a = g.fetch key a := rfl
    simp only [load, hfetch]
    rcases g.fetch key a with _ | u
    · simp only [getLocally_ok_iff hlimited', hbytes]
      rfl
    · have hadd : (∃ c, (g.lookedUp key a).mainCache.add len key u = some c) ↔
          0 ≤ g.mainCache.cacheBytes := by
        rw [hlimited'.exists_add_iff, hbytes]
      simp only [← hadd]
      refine ⟨?_, ?_⟩
      · rintro ⟨o, ho, hok, rfl⟩
        obtain ⟨g', hg', rfl⟩ := Option.map_eq_some_iff.mp ho
        obtain ⟨c, hc, -⟩ := populateCache_eq_some.mp hg'
        cases hok
        exact ⟨⟨c, hc⟩, rfl, rfl⟩
      · rintro ⟨⟨c, hc⟩, rfl, rfl⟩
        have hpopulate := populateCache_eq_some.mpr ⟨c, hc, rfl⟩
        exact ⟨_, Option.map_eq_some_iff.mpr ⟨_, hpopulate, rfl⟩, rfl, rfl⟩
  · simp [eq_comm]

/-- A `Get` changes nothing of the group but its cache and its tracker. -/
theorem get_group (hlimited : g.mainCache.Limited) (hkey : key ≠ "") {o : Group.Outcome V}
    (h : g.get len key a = some o) :
    ∃ c, c.Limited ∧ o.group = { g.lookedUp key a with mainCache := c } := by
  obtain ⟨hlimited', -⟩ := limited_lookedUp hlimited key a
  have hpopulate : ∀ {v g'}, (g.lookedUp key a).populateCache len key v = some g' →
      ∃ c, c.Limited ∧ g' = { g.lookedUp key a with mainCache := c } := by
    intro v g' hg'
    obtain ⟨c, hadd, rfl⟩ := populateCache_eq_some.mp hg'
    exact ⟨c, (hlimited'.add hadd).1, rfl⟩
  rw [get_eq hkey] at h
  rcases hcached : g.cached key with _ | v
  · rw [hcached] at h
    simp only [load] at h
    split at h
    · obtain ⟨g', hg', rfl⟩ := Option.map_eq_some_iff.mp h
      exact hpopulate hg'
    · rcases hresult : o.result with err | v
      · exact ⟨_, hlimited', getLocally_error h hresult⟩
      · obtain ⟨-, -, c, pushes, hadd, -, rfl⟩ := getLocally_ok h hresult
        exact ⟨c, (hlimited'.add hadd).1, rfl⟩
  · rw [hcached] at h
    cases h
    exact ⟨_, hlimited', rfl⟩

end Group

/-! ### Requests that make a key hot -/

/-- **What spreads the value of a key that becomes hot.** If the cache or a peer has the value, it
has been pushed to all candidates before. If the getter is called for it, no pruning takes the
mark away before it is pushed, or the value has been pushed to them before or is pushed now as to
the first other owner. -/
def SpreadsHot (s : Group V × List (Message V)) : Visit V → Prop
  | .prune _ => True
  | .get key a => ∀ t l, s.1.hotTracker = some t → key ≠ "" → (t.record key a.now).1 = true →
      t.replicateCandidates key = some l → ∀ addr ∈ l,
        match s.1.cached key, s.1.fetch key a with
        | some v, _ => .push addr key v ∈ s.2
        | none, some v => 0 ≤ s.1.mainCache.cacheBytes → .push addr key v ∈ s.2
        | none, none => ∀ v, a.getter = .ok v → s.1.Passes a → 0 ≤ s.1.mainCache.cacheBytes →
          (∃ p ∈ a.prunes, p - a.now > t.cooldown) →
            .push addr key v ∈ s.2 ++ s.1.replicateToSecondaries key v

/-- The group and its tracker have the same registry. -/
structure Wired (r : Registry) (g : Group V) : Prop where
  registry : g.registry = some r
  tracker : ∀ t, g.hotTracker = some t → t.registry = some r
  limited : g.mainCache.Limited

theorem Wired.visit {r : Registry} {s s' : Group V × List (Message V)} (h : Wired r s.1)
    {v : Visit V} (hvisit : Cache.visit len s v = some s') : Wired r s'.1 := by
  cases v with
  | get key a =>
    obtain ⟨o, ho, rfl⟩ := Option.map_eq_some_iff.mp hvisit
    by_cases hkey : key = ""
    · subst hkey
      cases ho
      exact h
    · obtain ⟨c, hc, heq⟩ := Group.get_group h.limited hkey ho
      rw [heq]
      refine ⟨h.registry, ?_, hc⟩
      intro t ht
      obtain ⟨t₀, ht₀, rfl⟩ := Option.map_eq_some_iff.mp ht
      exact (t₀.wiring_record key a.now a.prunes).1.trans (h.tracker t₀ ht₀)
  | prune time =>
    cases hvisit
    refine ⟨h.registry, ?_, h.limited⟩
    intro t ht
    obtain ⟨t₀, ht₀, rfl⟩ := Option.map_eq_some_iff.mp ht
    exact h.tracker t₀ ht₀

/-- The pushes of a key that has just become hot: to all candidates, unless a pruning has taken the
mark away. -/
theorem push_mem_hot_iff {r : Registry} {g : Group V} (h : Wired r g) {t : HotKeyTracker}
    (htracker : g.hotTracker = some t) {key : String} {a : Answers V}
    (hmarks : (t.record key a.now).1 = true) {l : List String}
    (hl : t.replicateCandidates key = some l) {addr : String} (haddr : addr ∈ l) {v : V}
    {pushes : List (Message V)} (hpushes : (g.recorded key a).replicateIfHot key v = some pushes) :
    .push addr key v ∈ pushes ↔ ¬ ∃ p ∈ a.prunes, p - a.now > t.cooldown := by
  obtain ⟨hmark, hcooldown⟩ := t.record_true hmarks
  have hhot := HotKeyTracker.isHot_prunes hmark a.prunes
  rw [hcooldown] at hhot
  have hall : addr ∈ r.all :=
    HotKeyTracker.mem_all_of_replicateCandidates (h.tracker t htracker) hl haddr
  have hrecorded : (g.recorded key a).hotTracker =
      some (a.prunes.foldl HotKeyTracker.prune (t.record key a.now).2) := by
    rw [Group.recorded, htracker]
    rfl
  have hcandidate : (g.recorded key a).HotCandidate key addr ↔
      (a.prunes.foldl HotKeyTracker.prune (t.record key a.now).2).isHot key = true := by
    refine ⟨?_, fun hhot => ⟨_, l, hrecorded, hhot, ?_, haddr⟩⟩
    · rintro ⟨t', l', ht', hhot, -⟩
      rw [hrecorded] at ht'
      cases ht'
      exact hhot
    · rw [HotKeyTracker.replicateCandidates_record]
      exact hl
  rw [Group.mem_replicateIfHot (g := g.recorded key a) (r := r) h.registry hpushes]
  simp [hall, hcandidate, hhot]

/-- A visit spreads the value of a key that becomes hot exactly when it meets the condition. -/
theorem hotReplicated_visit_iff {r : Registry} {s : Group V × List (Message V)} (h : Wired r s.1)
    (v : Visit V) : HotReplicated len s v ↔ SpreadsHot s v := by
  cases v with
  | prune time => exact Iff.rfl
  | get key a =>
    by_cases hkey : key = ""
    · refine iff_of_true ?_ ?_
      · rintro t o v l - - hget hok
        rw [Group.get, if_pos hkey] at hget
        cases hget
        cases hok
      · rintro t l - hne
        exact absurd hkey hne
    -- What is pushed depends on what the call returns and sends only.
    have hreturns : HotReplicated len s (.get key a) ↔ ∀ t l, s.1.hotTracker = some t →
        (t.record key a.now).1 = true → t.replicateCandidates key = some l → ∀ addr ∈ l,
        ∀ v sent, (∃ o, s.1.get len key a = some o ∧ o.result = .ok v ∧ o.sent = sent) →
          .push addr key v ∈ s.2 ++ sent := by
      refine ⟨?_, ?_⟩
      · rintro hspread t l htracker hmarks hl addr haddr v sent ⟨o, hget, hok, rfl⟩
        exact hspread t o v l htracker hmarks hget hok hl addr haddr
      · intro hspread t o v l htracker hmarks hget hok hl addr haddr
        exact hspread t l htracker hmarks hl addr haddr v o.sent ⟨o, hget, hok, rfl⟩
    rw [hreturns]
    refine forall₂_congr fun t l => forall_congr' fun htracker => ?_
    simp only [hkey, ne_eq, not_false_eq_true, forall_true_left]
    refine forall₂_congr fun hmarks hl => forall₂_congr fun addr haddr => ?_
    simp only [Group.get_ok_iff h.limited hkey]
    rcases s.1.cached key with _ | u
    · rcases s.1.fetch key a with _ | u
      · refine ⟨?_, ?_⟩
        · intro hspread v hgetter hpasses hmax hpruned
          have htells : ∀ t', (s.1.recorded key a).hotTracker = some t' →
              ∃ l, t'.replicateCandidates key = some l := by
            intro t' ht'
            obtain ⟨t₀, ht₀, rfl⟩ := Option.map_eq_some_iff.mp ht'
            rw [htracker] at ht₀
            cases ht₀
            exact ⟨l, (HotKeyTracker.replicateCandidates_record ..).trans hl⟩
          obtain ⟨pushes, hpushes⟩ :=
            Group.exists_replicateIfHot (v := v) (g := s.1.recorded key a) h.registry htells
          have hmem := hspread v _ ⟨hmax, hpasses, hgetter, pushes, hpushes, rfl⟩
          rw [← List.append_assoc, List.mem_append] at hmem
          refine hmem.resolve_right fun hmem => ?_
          exact (push_mem_hot_iff h htracker hmarks hl haddr hpushes).mp hmem hpruned
        · rintro hspread v sent ⟨hmax, hpasses, hgetter, pushes, hpushes, rfl⟩
          rw [← List.append_assoc, List.mem_append]
          by_cases hpruned : ∃ p ∈ a.prunes, p - a.now > t.cooldown
          · exact Or.inl (hspread v hgetter hpasses hmax hpruned)
          · exact Or.inr ((push_mem_hot_iff h htracker hmarks hl haddr hpushes).mpr hpruned)
      · refine ⟨fun hspread hmax => ?_, ?_⟩
        · simpa using hspread u [] ⟨hmax, rfl, rfl⟩
        · rintro hspread v sent ⟨hmax, rfl, rfl⟩
          simpa using hspread hmax
    · refine ⟨fun hspread => ?_, ?_⟩
      · simpa using hspread u [] ⟨rfl, rfl⟩
      · rintro hspread v sent ⟨rfl, rfl⟩
        simpa using hspread

/-- **Which requests spread the value of a key that becomes hot**: in every sequence of calls of
`Get` and prunings on a node, each call that makes its key hot has spread its value exactly when
each meets the condition. -/
theorem hotReplicated_iff (len : V → ℕ) (r : Registry) (g : Group V) (hwired : Wired r g)
    (visits : List (Visit V)) :
    Runs.EachStep (visit len) (HotReplicated len) (g, []) visits ↔
      Runs.EachStep (visit len) SpreadsHot (g, []) visits := by
  have halways : Runs.Always (visit len) (fun s => Wired r s.1) (g, []) visits :=
    Runs.Always.of_inv hwired fun s v s' hs hvisit => hs.visit hvisit
  refine ⟨?_, ?_⟩
  · intro heach p v hp s hs
    have hs' := halways p ((List.prefix_append ..).trans hp) s hs
    exact (hotReplicated_visit_iff hs' v).mp (heach p v hp s hs)
  · intro heach p v hp s hs
    have hs' := halways p ((List.prefix_append ..).trans hp) s hs
    exact (hotReplicated_visit_iff hs' v).mpr (heach p v hp s hs)

/-- The first of three nodes, with a tracker that has counted `n` requests for a key, and a cache
that has these entries. -/
def askedGroup (n : Option ℕ) (lru : Option (Lru ℕ)) : Group ℕ :=
  { mainCache := { cacheBytes := 0, lru := lru }
    registry := some threeNodes
    hotTracker := some { newHotKeyTracker { threshold := 64 } (some threeNodes) "a" with
      counters := Function.update (fun _ => none) "k" n } }

theorem wired_askedGroup (n : Option ℕ) : Wired threeNodes (askedGroup n none) := by
  refine ⟨rfl, ?_, LocalCache.limited_of_lru rfl⟩
  rintro t ht
  cases ht
  rfl

/-- The sixty-fourth request spreads the value, if it is the one that loads it. -/
theorem hotReplicated_loaded : Runs.EachStep (visit fun _ => 1) (HotReplicated fun _ => 1)
    (askedGroup (some 63) none, []) [.get "k" { getter := .ok 7 }] := by
  refine (hotReplicated_iff (fun _ => 1) threeNodes _ (wired_askedGroup _) _).mpr ?_
  refine Runs.eachStep_cons.mpr ⟨?_, fun s _ => Runs.eachStep_nil⟩
  intro t l _ _ _ _ addr _ v _ _ _ hpruned
  simp at hpruned

/-- The cache with one entry. -/
def oneEntry : Lru ℕ := { maxBytes := 0, entries := [("k", 7)] }

/-- A peer has the value. -/
def fromPeer : Answers ℕ := { peer := fun _ => .ok 7, getter := .ok 7 }

/-- Most requests are counted, and nothing else. -/
theorem askedGroup_recorded {n : ℕ} (hn : (n + 1) % 64 ≠ 0) (lru : Option (Lru ℕ)) :
    (askedGroup (some n) lru).recorded "k" fromPeer = askedGroup (some (n + 1)) lru := by
  simp only [Group.recorded, askedGroup, HotKeyTracker.record, Function.update_self,
    Option.getD_some, if_pos hn, Option.map_some, Function.update_idem]
  rfl

/-- A request that finds its value in the cache is counted, and nothing else. -/
theorem exec_visit_hits {n : ℕ} (hn : n < 63) :
    Runs.exec (visit fun _ => 1) (askedGroup (some 1) (some oneEntry), [])
      (List.replicate n (.get "k" fromPeer)) =
        some (askedGroup (some (n + 1)) (some oneEntry), []) := by
  induction n with
  | zero => rfl
  | succ n ih =>
    have hrecorded := askedGroup_recorded (n := n + 1) (by omega) (some oneEntry)
    rw [List.replicate_succ', Runs.exec_concat, ih (by omega), Option.bind_some]
    simp only [visit, Group.get, hrecorded]
    rfl

/-- The first of three nodes, at the beginning. -/
def newHotGroup : Group ℕ :=
  { (Group.newGroup 0 : Group ℕ) with
    registry := some threeNodes
    hotTracker := some (newHotKeyTracker { threshold := 64 } (some threeNodes) "a") }

/-- The sixty-fourth request for a key that the node has from a peer makes it hot, and pushes
nothing. -/
theorem not_hotReplicated_cached : ¬ Runs.EachStep (visit fun _ => 1) (HotReplicated fun _ => 1)
    (newHotGroup, []) (List.replicate 64 (.get "k" fromPeer)) := by
  intro heach
  have hfirst : visit (fun _ => 1) (newHotGroup, []) (.get "k" fromPeer) =
      some (askedGroup (some 1) (some oneEntry), []) := rfl
  have hexec : Runs.exec (visit fun _ => 1) (newHotGroup, [])
      (List.replicate 63 (.get "k" fromPeer)) =
        some (askedGroup (some 63) (some oneEntry), []) := by
    rw [List.replicate_succ, Runs.exec_cons, hfirst, Option.bind_some]
    exact exec_visit_hits (by decide)
  obtain ⟨g, hget⟩ : ∃ g, (askedGroup (some 63) (some oneEntry)).get (fun _ => 1) "k" fromPeer =
      some { group := g, result := .ok 7 } := ⟨_, rfl⟩
  rw [List.replicate_succ'] at heach
  have hspread := heach _ _ (List.prefix_refl _) _ hexec _ _ 7 ["b", "c"] rfl (by decide) hget rfl
    (by decide) "b" (by decide)
  simp at hspread

end Cache

end ClusterManager
