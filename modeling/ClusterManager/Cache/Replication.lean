import ClusterManager.Cache.Group
import ClusterManager.Lib.Runs

/-!
# Replicas

A value that a node has loaded is meant to go to others: to the other owners of its key, as many
as the replication factor says, and to some more nodes if the key is hot. What the code brings
about is less.

Of the owners of a key only the first other one is sent a value, since the loop over them ends
after its first push. `replicated_iff` says when all the same each of the first owners has the
value: those that are supplied have room for it – the node itself, the first other owner, the
candidates of a hot key – and the others have had it already.
-/

namespace ClusterManager

namespace Cache

variable {V : Type} {len : V → ℕ}

/-! ### Messages arrive -/

/-- What a message does to the groups of the nodes when it arrives. -/
def deliver (len : V → ℕ) (groups : String → Group V) : Message V → Option (String → Group V)
  | .push peer key v =>
    ((groups peer).storeReplica len key v).map fun g => Function.update groups peer g
  | .invalidate peer key =>
    some (Function.update groups peer ((groups peer).deleteLocal key))
  | _ => some groups

/-- Storing a value changes the cache only. -/
theorem Group.populateCache_eq_some {g g' : Group V} {key : String} {v : V} :
    g.populateCache len key v = some g' ↔
      ∃ c, g.mainCache.add len key v = some c ∧ g' = { g with mainCache := c } := by
  rw [Group.populateCache, Option.map_eq_some_iff]
  refine exists_congr fun c => and_congr_right fun _ => eq_comm

/-- The limits are right everywhere if they are before and the new cache of a node has its limit. -/
theorem limited_update {groups : String → Group V} (h : ∀ addr, (groups addr).mainCache.Limited)
    (peer : String) {c : LocalCache V} (hc : c.Limited) (addr : String) :
    (Function.update groups peer { groups peer with mainCache := c } addr).mainCache.Limited := by
  by_cases haddr : addr = peer
  · subst haddr
    rw [Function.update_self]
    exact hc
  · rw [Function.update_of_ne haddr]
    exact h addr

/-- **What pushes of one value do**: a node that gets one holds the value if it has room for it,
and the others stay as they are. -/
theorem exec_deliver_pushes {key : String} {v : V} {msgs : List (Message V)}
    (hpushes : ∀ m ∈ msgs, ∃ peer, m = .push peer key v) {groups groups' : String → Group V}
    (hlimited : ∀ addr, (groups addr).mainCache.Limited)
    (hexec : Runs.exec (deliver len) groups msgs = some groups') (addr : String) :
    (.push addr key v ∈ msgs → ((groups' addr).mainCache.Holds key v ↔
        (groups addr).mainCache.HasRoom len key v)) ∧
      (.push addr key v ∉ msgs → groups' addr = groups addr) := by
  induction msgs generalizing groups with
  | nil =>
    cases hexec
    exact ⟨by simp, fun _ => rfl⟩
  | cons m msgs ih =>
    obtain ⟨peer, rfl⟩ := hpushes m (List.mem_cons_self ..)
    rw [Runs.exec_cons] at hexec
    obtain ⟨groups₁, hfirst, hexec⟩ := Option.bind_eq_some_iff.mp hexec
    obtain ⟨g, hg, rfl⟩ := Option.map_eq_some_iff.mp hfirst
    obtain ⟨c, hadd, rfl⟩ := Group.populateCache_eq_some.mp hg
    obtain ⟨hlimited', hbytes⟩ := (hlimited peer).add hadd
    obtain ⟨hin, hnotin⟩ := ih (fun m hm => hpushes m (List.mem_cons_of_mem _ hm))
      (limited_update hlimited peer hlimited') hexec
    by_cases haddr : addr = peer
    · subst haddr
      refine ⟨fun _ => ?_, fun hnot => absurd (List.mem_cons_self ..) hnot⟩
      by_cases hmem : .push addr key v ∈ msgs
      · rw [hin hmem, Function.update_self, LocalCache.HasRoom, LocalCache.HasRoom, hbytes]
      · rw [hnotin hmem, Function.update_self]
        exact LocalCache.holds_add_iff (hlimited addr) hadd
    · rw [Function.update_of_ne haddr] at hin hnotin
      have hcons : (.push addr key v : Message V) ∈ .push peer key v :: msgs ↔
          .push addr key v ∈ msgs := by
        simp [haddr]
      rw [hcons]
      exact ⟨hin, hnotin⟩

/-! ### What a load sends -/

namespace Group

variable {g : Group V} {r : Registry} {key addr : String} {v : V}

/-- The limiter lets a load through. -/
def Passes (g : Group V) (a : Answers V) : Prop := g.dbLimiter = true → a.limiter = none

/-- A load that succeeds is let through, has the value of the getter, stores it, and pushes it. -/
theorem getLocally_ok {a : Answers V} {o : Group.Outcome V} (h : g.getLocally len key a = some o)
    (hok : o.result = .ok v) : g.Passes a ∧ a.getter = .ok v ∧
      ∃ c pushes, g.mainCache.add len key v = some c ∧ g.replicateIfHot key v = some pushes ∧
        o = { group := { g with mainCache := c }, result := .ok v, getterCalls := [key]
              sent := g.replicateToSecondaries key v ++ pushes } := by
  unfold getLocally at h
  split at h
  · cases h
    cases hok
  · rename_i hlimiter
    have hpasses : g.Passes a := by
      intro hon
      rcases herr : a.limiter with _ | err
      · rfl
      · exact absurd herr (hlimiter err hon)
    rcases hgetter : a.getter with err | u
    · rw [hgetter] at h
      cases h
      cases hok
    · rw [hgetter] at h
      obtain ⟨g', hg', h⟩ := Option.bind_eq_some_iff.mp h
      obtain ⟨pushes, hpushes, rfl⟩ := Option.map_eq_some_iff.mp h
      obtain ⟨c, hadd, rfl⟩ := populateCache_eq_some.mp hg'
      cases hok
      exact ⟨hpasses, rfl, c, pushes, hadd, hpushes, rfl⟩

/-- A load that fails leaves the group as it is. -/
theorem getLocally_error {a : Answers V} {o : Group.Outcome V} (h : g.getLocally len key a = some o)
    {err : String} (herror : o.result = .error err) : o.group = g := by
  unfold getLocally at h
  split at h
  · cases h
    rfl
  · rcases hgetter : a.getter with err | u
    · rw [hgetter] at h
      cases h
      rfl
    · rw [hgetter] at h
      obtain ⟨g', -, h⟩ := Option.bind_eq_some_iff.mp h
      obtain ⟨pushes, -, rfl⟩ := Option.map_eq_some_iff.mp h
      cases herror

/-- A load succeeds if it is let through, the getter has a value and the cache can be added to. -/
theorem getLocally_ok_iff (hlimited : g.mainCache.Limited) {a : Answers V}
    {sent : List (Message V)} :
    (∃ o, g.getLocally len key a = some o ∧ o.result = .ok v ∧ o.sent = sent) ↔
      0 ≤ g.mainCache.cacheBytes ∧ g.Passes a ∧ a.getter = .ok v ∧
        ∃ pushes, g.replicateIfHot key v = some pushes ∧
          sent = g.replicateToSecondaries key v ++ pushes := by
  refine ⟨?_, ?_⟩
  · rintro ⟨o, ho, hok, rfl⟩
    obtain ⟨hpasses, hgetter, c, pushes, hadd, hpushes, rfl⟩ := getLocally_ok ho hok
    exact ⟨hlimited.exists_add_iff.mp ⟨c, hadd⟩, hpasses, hgetter, pushes, hpushes, rfl⟩
  · rintro ⟨hmax, hpasses, hgetter, pushes, hpushes, rfl⟩
    obtain ⟨c, hadd⟩ : ∃ c, g.mainCache.add len key v = some c :=
      hlimited.exists_add_iff.mpr hmax
    have hpopulate := populateCache_eq_some.mpr ⟨c, hadd, rfl⟩
    have hpushes' : { g with mainCache := c }.replicateIfHot key v = some pushes := hpushes
    unfold getLocally
    split
    · rename_i err hon herr
      rw [hpasses hon] at herr
      cases herr
    · rw [hgetter]
      simp only [hpopulate, Option.bind_some, hpushes', Option.map_some]
      exact ⟨_, rfl, rfl, rfl⟩

/-- The pushes of a hot key return, if the candidates can be told. -/
theorem exists_replicateIfHot (hregistry : g.registry = some r)
    (hcandidates : ∀ t, g.hotTracker = some t → ∃ l, t.replicateCandidates key = some l) :
    ∃ pushes, g.replicateIfHot key v = some pushes := by
  rw [replicateIfHot]
  split
  · exact ⟨_, rfl⟩
  · rename_i t htracker
    obtain ⟨l, hl⟩ := hcandidates t htracker
    split
    · exact ⟨_, rfl⟩
    · rw [hl, Option.bind_some, hregistry]
      rcases l with _ | ⟨peer, l⟩ <;> exact ⟨_, rfl⟩

/-- The group has a tracker for which the key is hot, and the node is one of its candidates. -/
def HotCandidate (g : Group V) (key addr : String) : Prop :=
  ∃ t l, g.hotTracker = some t ∧ t.isHot key = true ∧ t.replicateCandidates key = some l ∧ addr ∈ l

/-- A hot key is pushed to its candidates, -/
theorem mem_replicateIfHot (hregistry : g.registry = some r) {pushes : List (Message V)}
    (h : g.replicateIfHot key v = some pushes) {m : Message V} :
    m ∈ pushes ↔ ∃ peer, m = .push peer key v ∧ peer ∈ r.all ∧ g.HotCandidate key peer := by
  rw [replicateIfHot] at h
  split at h
  · rename_i htracker
    cases h
    simp [HotCandidate, htracker]
  · rename_i t htracker
    split at h
    · rename_i hhot
      cases h
      simp only [Bool.not_eq_true', ← Bool.not_eq_true] at hhot
      simp [HotCandidate, htracker, hhot]
    · rename_i hhot
      simp only [Bool.not_eq_true', Bool.not_eq_false] at hhot
      obtain ⟨l, hl, h⟩ := Option.bind_eq_some_iff.mp h
      have hpushes : pushes = (l.filter (· ∈ r.all)).map fun peer => .push peer key v := by
        rw [hregistry] at h
        rcases l with _ | ⟨p, l⟩
        · cases h
          rfl
        · cases h
          rfl
      have hcandidate : ∀ peer, g.HotCandidate key peer ↔ peer ∈ l := by
        intro peer
        refine ⟨?_, fun hpeer => ⟨t, l, htracker, hhot, hl, hpeer⟩⟩
        rintro ⟨t', l', ht', -, hl', hpeer⟩
        rw [htracker] at ht'
        cases ht'
        rw [hl] at hl'
        cases hl'
        exact hpeer
      simp only [hpushes, hcandidate, List.mem_map, List.mem_filter, decide_eq_true_eq]
      refine exists_congr fun peer => ?_
      rw [eq_comm (a := m), and_comm (a := peer ∈ l), and_comm]

theorem candidates_eq (hregistry : g.registry = some r) : g.candidates key =
    (r.hashRing.getN key g.replicationFactor).filter
      fun addr => addr ≠ r.localAddr ∧ addr ∈ r.getters := by
  rw [candidates, hregistry]
  rfl

/-- and every value to the first candidate for its key. -/
theorem mem_replicateToSecondaries (hregistry : g.registry = some r) {m : Message V} :
    m ∈ g.replicateToSecondaries key v ↔ ∃ peer, m = .push peer key v ∧
      2 ≤ g.replicationFactor ∧ (g.candidates key).head? = some peer := by
  have hothers : (g.candidates key).filter (· ≠ r.localAddr) = g.candidates key := by
    refine List.filter_eq_self.mpr fun peer hpeer => ?_
    rw [candidates_eq hregistry] at hpeer
    obtain ⟨hne, -⟩ := of_decide_eq_true (List.mem_filter.mp hpeer).2
    exact decide_eq_true hne
  unfold replicateToSecondaries
  rw [hregistry]
  simp only
  by_cases hfactor : g.replicationFactor < 2
  · rw [if_pos hfactor]
    refine iff_of_false (by simp) ?_
    rintro ⟨peer, -, hle, -⟩
    omega
  · rw [if_neg hfactor, ← List.head?_filter, hothers]
    simp only [List.mem_map, Option.mem_toList]
    refine exists_congr fun peer => ?_
    rw [eq_comm (a := m)]
    refine ⟨fun h => ⟨h.2, not_lt.mp hfactor, h.1⟩, fun h => ⟨h.2.2, h.1⟩⟩

/-! ### The owners of a key -/

/-- A load brings the value to the node: it is the one that loads, or the first other owner of the
key, or a candidate of a hot key. -/
def Supplies (g : Group V) (r : Registry) (key addr : String) : Prop :=
  addr = r.localAddr ∨
    ((r.hashRing.getN key g.replicationFactor).filter (· ≠ r.localAddr)).head? = some addr ∨
    g.HotCandidate key addr

/-- What is sent goes to the other owners that are supplied. -/
theorem push_mem_sent_iff (hregistry : g.registry = some r)
    (hreachable : ∀ addr, r.hashRing.Owns addr → addr ≠ r.localAddr → addr ∈ r.getters)
    (hlocal : r.localAddr ∈ r.hashRing.getN key g.replicationFactor)
    (howner : addr ∈ r.hashRing.getN key g.replicationFactor) (hne : addr ≠ r.localAddr)
    {pushes : List (Message V)} (hpushes : g.replicateIfHot key v = some pushes) :
    .push addr key v ∈ g.replicateToSecondaries key v ++ pushes ↔ g.Supplies r key addr := by
  have hgetter : addr ∈ r.getters := hreachable addr (Ring.owns_of_mem_getN howner) hne
  have hall : addr ∈ r.all := List.mem_filter.mpr ⟨hgetter, decide_eq_true hne⟩
  -- Two owners are two nodes, so that the factor is at least two.
  have hfactor : 2 ≤ g.replicationFactor := by
    have hlength : (r.hashRing.getN key g.replicationFactor).length ≤ g.replicationFactor :=
      Ring.length_getN_le
    rcases hgetN : r.hashRing.getN key g.replicationFactor with _ | ⟨x, _ | ⟨y, l⟩⟩
    · rw [hgetN] at howner
      cases howner
    · rw [hgetN] at howner hlocal
      exact absurd ((List.mem_singleton.mp howner).trans (List.mem_singleton.mp hlocal).symm) hne
    · rw [hgetN] at hlength
      simp only [List.length_cons] at hlength
      omega
  have hcandidates : g.candidates key =
      (r.hashRing.getN key g.replicationFactor).filter (· ≠ r.localAddr) := by
    rw [candidates_eq hregistry]
    refine List.filter_congr fun peer hpeer => ?_
    refine decide_eq_decide.mpr ⟨fun h => h.1, fun h => ⟨h, ?_⟩⟩
    exact hreachable peer (Ring.owns_of_mem_getN hpeer) h
  rw [List.mem_append, mem_replicateToSecondaries hregistry, mem_replicateIfHot hregistry hpushes,
    hcandidates, Supplies]
  simp [hne, hfactor, hall]

/-- Nothing is sent to the node itself. -/
theorem push_local_notMem_sent (hregistry : g.registry = some r) {pushes : List (Message V)}
    (hpushes : g.replicateIfHot key v = some pushes) :
    .push r.localAddr key v ∉ g.replicateToSecondaries key v ++ pushes := by
  intro hmem
  rcases List.mem_append.mp hmem with hmem | hmem
  · obtain ⟨peer, heq, -, hhead⟩ := (mem_replicateToSecondaries hregistry).mp hmem
    cases heq
    have hmem := List.mem_of_mem_head? hhead
    rw [candidates_eq hregistry] at hmem
    exact (of_decide_eq_true (List.mem_filter.mp hmem).2).1 rfl
  · obtain ⟨peer, heq, hall, -⟩ := (mem_replicateIfHot hregistry hpushes).mp hmem
    cases heq
    exact of_decide_eq_true (List.mem_filter.mp hall).2 rfl

end Group

/-- **When each of the first owners of a key has the value** that one of them has loaded, all
pushes having arrived in some order: when those that are supplied have room for it, and the others
have had it before. -/
theorem replicated_iff (len : V → ℕ) (groups : String → Group V) (r : Registry) (key : String)
    (hregistry : (groups r.localAddr).registry = some r)
    (hreachable : ∀ addr, r.hashRing.Owns addr → addr ≠ r.localAddr → addr ∈ r.getters)
    (hlimited : ∀ addr, (groups addr).mainCache.Limited)
    (hlocal : r.localAddr ∈ r.hashRing.getN key (groups r.localAddr).replicationFactor)
    (a : Answers V) (o : Group.Outcome V)
    (hload : (groups r.localAddr).getLocally len key a = some o)
    (v : V) (hok : o.result = .ok v) (msgs : List (Message V)) (hsent : msgs.Perm o.sent)
    (groups' : String → Group V) (hdelivered : Runs.exec (deliver len)
      (Function.update groups r.localAddr o.group) msgs = some groups') :
    (∀ addr ∈ r.hashRing.getN key (groups r.localAddr).replicationFactor,
        (groups' addr).mainCache.Holds key v) ↔
      ∀ addr ∈ r.hashRing.getN key (groups r.localAddr).replicationFactor,
        ((groups r.localAddr).Supplies r key addr → (groups addr).mainCache.HasRoom len key v) ∧
          (¬ (groups r.localAddr).Supplies r key addr →
            (groups addr).mainCache.Holds key v) := by
  obtain ⟨-, -, c, pushes, hadd, hpushes, rfl⟩ := Group.getLocally_ok hload hok
  have hform : ∀ m ∈ msgs, ∃ peer, m = .push peer key v := by
    intro m hm
    rcases List.mem_append.mp (hsent.mem_iff.mp hm) with hm | hm
    · obtain ⟨peer, rfl, -⟩ := (Group.mem_replicateToSecondaries hregistry).mp hm
      exact ⟨peer, rfl⟩
    · obtain ⟨peer, rfl, -⟩ := (Group.mem_replicateIfHot hregistry hpushes).mp hm
      exact ⟨peer, rfl⟩
  have hlimited' := limited_update hlimited r.localAddr ((hlimited r.localAddr).add hadd).1
  refine forall₂_congr fun addr howner => ?_
  obtain ⟨hin, hnotin⟩ := exec_deliver_pushes hform hlimited' hdelivered addr
  rw [hsent.mem_iff] at hin hnotin
  by_cases haddr : addr = r.localAddr
  · subst haddr
    have hsupplies : (groups r.localAddr).Supplies r key r.localAddr := Or.inl rfl
    rw [hnotin (Group.push_local_notMem_sent hregistry hpushes), Function.update_self,
      LocalCache.holds_add_iff (hlimited r.localAddr) hadd]
    simp [hsupplies]
  · have hpush := Group.push_mem_sent_iff (v := v) hregistry hreachable hlocal howner haddr hpushes
    rw [Function.update_of_ne haddr] at hin hnotin
    by_cases hsupplies : (groups r.localAddr).Supplies r key addr
    · rw [hin (hpush.mpr hsupplies)]
      simp [hsupplies]
    · rw [hnotin (fun hmem => hsupplies (hpush.mp hmem))]
      simp [hsupplies]

/-- A ring of three nodes. -/
def threeNodeRing : Ring :=
  ({ hash := fun s => (s.toList.map Char.toNat).sum, replicas := 1 } : Ring).add ["a", "b", "c"]

/-- The registry of the first of three nodes. -/
def threeNodes : Registry := { localAddr := "a", hashRing := threeNodeRing, getters := ["b", "c"] }

/-- The groups of three nodes, whose caches are empty and without limit. -/
def threeGroups (replicationFactor : ℕ) : String → Group ℕ := fun addr =>
  { mainCache := { cacheBytes := 0 }
    registry := some { threeNodes with localAddr := addr }
    replicationFactor := replicationFactor }

theorem threeNodes_reachable {addr : String} (h : threeNodeRing.Owns addr) (hne : addr ≠ "a") :
    addr ∈ threeNodes.getters := by
  obtain ⟨p, hp, rfl⟩ := h
  revert p
  decide

/-- With two copies the node that loads a value and the next owner both have it. -/
theorem replicated_two_copies : ∃ o groups',
    (threeGroups 2 "a").getLocally (fun _ => 1) "k" { getter := .ok 7 } = some o ∧
      Runs.exec (deliver fun _ => 1) (Function.update (threeGroups 2) "a" o.group) o.sent =
        some groups' ∧
      ∀ addr ∈ threeNodeRing.getN "k" 2, (groups' addr).mainCache.Holds "k" 7 := by
  refine ⟨_, _, rfl, rfl, ?_⟩
  refine (replicated_iff (fun _ => 1) (threeGroups 2) threeNodes "k" rfl
    (fun _ => threeNodes_reachable) (fun _ _ h => nomatch h) (by decide) { getter := .ok 7 } _ rfl 7
    rfl _ (List.Perm.refl _) _ rfl).mpr ?_
  intro addr howner
  refine ⟨fun _ => Or.inl rfl, fun hnot => absurd ?_ hnot⟩
  have howners : threeNodeRing.getN "k" 2 = ["a", "b"] := by decide
  have haddr : addr ∈ ["a", "b"] := howners ▸ howner
  rcases List.mem_pair.mp haddr with rfl | rfl
  · exact Or.inl rfl
  · exact Or.inr (Or.inl (by decide))

/-- With three copies the third owner of a key does not get its value. -/
theorem not_replicated_three_copies : "a" ∈ threeNodeRing.getN "k" 3 ∧
    (∀ addr, threeNodeRing.Owns addr → addr ≠ "a" → addr ∈ threeNodes.getters) ∧
    ∃ o groups',
      (threeGroups 3 "a").getLocally (fun _ => 1) "k" { getter := .ok 7 } = some o ∧
        o.result = .ok 7 ∧
        Runs.exec (deliver fun _ => 1) (Function.update (threeGroups 3) "a" o.group) o.sent =
          some groups' ∧
        ¬ ∀ addr ∈ threeNodeRing.getN "k" 3, (groups' addr).mainCache.Holds "k" 7 := by
  refine ⟨by decide, fun _ => threeNodes_reachable, _, _, rfl, rfl, rfl, ?_⟩
  intro hall
  obtain ⟨l, hl, -⟩ := hall "c" (by decide)
  cases hl

end Cache

end ClusterManager
