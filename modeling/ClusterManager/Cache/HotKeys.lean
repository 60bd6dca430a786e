import ClusterManager.Cache.Registry
import Mathlib.Algebra.Order.Ring.Int
import Mathlib.Data.List.Pairwise
import Mathlib.Tactic.Push

/-!
# Hot keys

A `HotKeyTracker` counts how often each key is asked for. At every sixty-fourth request it looks
whether there have been enough of them, and then marks the key as hot, or its mark as new. From
time to time the counters are set to zero and the marks that are too old are taken away
(`prune`); a counter stays then only for a key that is hot.

The counters and the marks can be told from the history alone. A counter is the number of
requests since the last pruning, whether or not it has been kept over it. A key is hot exactly
when some request has *triggered* a mark and no pruning since has come too late for that mark;
marks that are made new later are then no older, as time goes on (`isHot_iff_history`).
-/

namespace ClusterManager

namespace Cache

/-- How hot keys are told. -/
structure HotKeyConfig where
  threshold : ℤ := 100
  coolDown : ℤ := 60 * 10 ^ 9
  replicas : ℤ := 2

/-- The tracker of hot keys. Times and spans are in nanoseconds. -/
structure HotKeyTracker where
  counters : String → Option ℕ := fun _ => none
  /-- When a hot key has last been marked. -/
  hotKeys : String → Option ℤ := fun _ => none
  threshold : ℤ
  cooldown : ℤ
  /-- To how many more nodes a hot key goes. -/
  replicas : ℤ
  registry : Option Registry := none
  localAddr : String := ""

/-- A new tracker. -/
def newHotKeyTracker (cfg : HotKeyConfig) (registry : Option Registry) (localAddr : String) :
    HotKeyTracker where
  threshold := cfg.threshold
  cooldown := cfg.coolDown
  replicas := cfg.replicas
  registry := registry
  localAddr := localAddr

namespace HotKeyTracker

variable (t : HotKeyTracker)

/-- Mark a key, if it has been asked for often enough. -/
def checkHot (key : String) (count : ℕ) (now : ℤ) : Bool × HotKeyTracker :=
  match t.counters key with
  | none => (false, t)
  | some _ =>
    if t.threshold ≤ count then
      ((t.hotKeys key).isNone, { t with hotKeys := Function.update t.hotKeys key (some now) })
    else (false, t)

/-- Count a request for a key, and tell whether the key has just become hot. -/
def record (key : String) (now : ℤ) : Bool × HotKeyTracker :=
  let n := (t.counters key).getD 0 + 1
  let t' := { t with counters := Function.update t.counters key (some n) }
  if n % 64 ≠ 0 then (false, t') else t'.checkHot key n now

def isHot (key : String) : Bool := (t.hotKeys key).isSome

/-- Set the counters to zero, and take away those of keys that are not hot and the marks that are
too old. -/
def prune (now : ℤ) : HotKeyTracker :=
  { t with
    counters := fun key =>
      (t.counters key).bind fun _ => if (t.hotKeys key).isSome then some 0 else none
    hotKeys := fun key => (t.hotKeys key).filter fun lastSeen => ¬ t.cooldown < now - lastSeen }

/-- The nodes that a hot key goes to. Nothing, where the number of nodes is negative and the call
panics. -/
def replicateCandidates (key : String) : Option (List String) :=
  match t.registry with
  | none => some []
  | some r =>
    (r.hashRing.getN? key (t.replicas + 1)).map fun candidates =>
      (candidates.filter fun addr => addr ≠ r.localAddr ∧ addr ∈ r.getters).filter (· ≠ t.localAddr)

/-! ### Histories -/

/-- What happens to a tracker, and when. -/
inductive Event where
  | record (key : String) (time : ℤ)
  | prune (time : ℤ)

def Event.time : Event → ℤ
  | .record _ time => time
  | .prune time => time

/-- The tracker after an event. -/
def next : Event → HotKeyTracker
  | .record key time => (t.record key time).2
  | .prune time => t.prune time

/-- The tracker after a history. -/
def after (history : List Event) : HotKeyTracker := history.foldl next t

/-- The requests for a key since the last pruning. -/
def recordsSincePrune (history : List Event) (key : String) : ℕ :=
  (history.reverse.takeWhile fun e => match e with
    | .record _ _ => true
    | .prune _ => false).countP fun e => match e with
    | .record k _ => k = key
    | .prune _ => false

/-- After this history a request for the key triggers a mark. -/
def Triggers (threshold : ℤ) (history : List Event) (key : String) : Prop :=
  64 ∣ recordsSincePrune history key + 1 ∧ threshold ≤ (recordsSincePrune history key + 1 : ℕ)

instance (threshold : ℤ) (history : List Event) (key : String) :
    Decidable (Triggers threshold history key) :=
  inferInstanceAs (Decidable (_ ∧ _))

/-- Some request for the key has triggered a mark, and no pruning since has come too late for
it. -/
def HotBy (threshold cooldown : ℤ) (history : List Event) (key : String) : Prop :=
  ∃ before time since, history = before ++ .record key time :: since ∧
    Triggers threshold before key ∧ ∀ p, .prune p ∈ since → ¬ p - time > cooldown

variable {t}

theorem recordsSincePrune_record (history : List Event) (k key : String) (time : ℤ) :
    recordsSincePrune (history ++ [.record k time]) key =
      recordsSincePrune history key + if k = key then 1 else 0 := by
  rw [recordsSincePrune, List.reverse_append]
  simp [recordsSincePrune, List.countP_cons]

theorem recordsSincePrune_prune (history : List Event) (key : String) (time : ℤ) :
    recordsSincePrune (history ++ [.prune time]) key = 0 := by
  rw [recordsSincePrune, List.reverse_append]
  simp

/-- The counters of the tracker are the requests since the last pruning. -/
def Counts (t : HotKeyTracker) (history : List Event) : Prop :=
  ∀ key, (t.counters key).getD 0 = recordsSincePrune history key

/-- **What a request does**: it is counted, and it marks its key if it triggers a mark. -/
theorem Counts.record_eq {history : List Event} (h : t.Counts history) (key : String) (time : ℤ) :
    t.record key time = (decide (Triggers t.threshold history key) && !t.isHot key, { t with
      counters := Function.update t.counters key (some (recordsSincePrune history key + 1))
      hotKeys := if Triggers t.threshold history key then
        Function.update t.hotKeys key (some time) else t.hotKeys }) := by
  have hn : (t.counters key).getD 0 + 1 = recordsSincePrune history key + 1 := by rw [h key]
  simp only [HotKeyTracker.record, hn, checkHot, Function.update_self]
  by_cases hdvd : 64 ∣ recordsSincePrune history key + 1
  · rw [if_neg (not_not.mpr (Nat.mod_eq_zero_of_dvd hdvd))]
    by_cases hle : t.threshold ≤ (recordsSincePrune history key + 1 : ℕ)
    · have htriggers : Triggers t.threshold history key := ⟨hdvd, hle⟩
      rw [if_pos hle, if_pos htriggers, decide_eq_true htriggers, isHot, Bool.true_and,
        Option.not_isSome]
    · have htriggers : ¬ Triggers t.threshold history key := fun hT => hle hT.2
      rw [if_neg hle, if_neg htriggers, decide_eq_false htriggers, Bool.false_and]
  · have htriggers : ¬ Triggers t.threshold history key := fun hT => hdvd hT.1
    rw [if_pos (fun hmod => hdvd (Nat.dvd_of_mod_eq_zero hmod)), if_neg htriggers,
      decide_eq_false htriggers, Bool.false_and]

theorem Counts.record {history : List Event} (h : t.Counts history) (key : String) (time : ℤ) :
    (t.record key time).2.Counts (history ++ [.record key time]) := by
  intro k
  rw [h.record_eq, recordsSincePrune_record]
  by_cases hk : key = k
  · subst hk
    simp
  · simp only [Function.update_of_ne (Ne.symm hk), if_neg hk]
    exact h k

/-- A pruning leaves no count. -/
theorem counts_prune (history : List Event) (time : ℤ) :
    (t.prune time).Counts (history ++ [.prune time]) := by
  intro key
  rw [recordsSincePrune_prune]
  cases hc : t.counters key with
  | none => simp [prune, hc]
  | some n =>
    by_cases hhot : (t.hotKeys key).isSome <;> simp [prune, hc, hhot]

/-- A mark survives a pruning that does not come too late for it. -/
theorem hotKeys_prune_eq_some {key : String} {time p : ℤ} :
    (t.prune p).hotKeys key = some time ↔
      t.hotKeys key = some time ∧ ¬ p - time > t.cooldown := by
  simp [prune, Option.filter_eq_some_iff]

/-! ### Marks -/

/-- The marks are those that the history gives. A mark is the time of a request that has triggered
it and outlived every pruning since, and it is no older than any other such request. -/
structure Marks (t : HotKeyTracker) (history : List Event) : Prop where
  counts : t.Counts history
  hotBy : ∀ {key time}, t.hotKeys key = some time → ∃ before since,
    history = before ++ .record key time :: since ∧ Triggers t.threshold before key ∧
      ∀ p, .prune p ∈ since → ¬ p - time > t.cooldown
  latest : ∀ {key time before since}, history = before ++ .record key time :: since →
    Triggers t.threshold before key → (∀ p, .prune p ∈ since → ¬ p - time > t.cooldown) →
    ∃ mark, t.hotKeys key = some mark ∧ time ≤ mark

theorem Marks.isHot_iff {history : List Event} (h : t.Marks history) (key : String) :
    t.isHot key ↔ HotBy t.threshold t.cooldown history key := by
  rw [isHot, Option.isSome_iff_exists]
  refine ⟨?_, ?_⟩
  · rintro ⟨time, hmark⟩
    obtain ⟨before, since, hsplit, htriggers, hlive⟩ := h.hotBy hmark
    exact ⟨before, time, since, hsplit, htriggers, hlive⟩
  · rintro ⟨before, time, since, hsplit, htriggers, hlive⟩
    obtain ⟨mark, hmark, -⟩ := h.latest hsplit htriggers hlive
    exact ⟨mark, hmark⟩

/-- An event of a history with one more at its end is the last, or one of the history before. -/
theorem split_concat {history before since : List Event} {e last : Event}
    (h : history ++ [last] = before ++ e :: since) :
    (history = before ∧ last = e ∧ since = []) ∨
      ∃ since', history = before ++ e :: since' ∧ since = since' ++ [last] := by
  rcases List.eq_nil_or_concat since with rfl | ⟨since', x, rfl⟩
  · obtain ⟨h₁, h₂⟩ := List.append_inj' h rfl
    exact .inl ⟨h₁, by simpa using h₂, rfl⟩
  · rw [List.concat_eq_append, ← List.cons_append, ← List.append_assoc] at h
    obtain ⟨h₁, h₂⟩ := List.append_inj' h rfl
    refine .inr ⟨since', h₁, ?_⟩
    rw [List.concat_eq_append, h₂]

/-- A request keeps the marks as the history gives them, if it comes after everything in it. -/
theorem Marks.record {history : List Event} (h : t.Marks history) {key : String} {time : ℤ}
    (hlast : ∀ e ∈ history, e.time ≤ time) :
    (t.record key time).2.Marks (history ++ [.record key time]) := by
  have hcounts := h.counts.record key time
  rw [h.counts.record_eq key time] at hcounts ⊢
  -- A mark that the request has not made is one of before, and a request is no pruning.
  have hold : ∀ {k mark}, t.hotKeys k = some mark → ∃ before since,
      history ++ [.record key time] = before ++ .record k mark :: since ∧
        Triggers t.threshold before k ∧ ∀ p, .prune p ∈ since → ¬ p - mark > t.cooldown := by
    intro k mark hmark
    obtain ⟨before, since, hsplit, htriggers, hlive⟩ := h.hotBy hmark
    refine ⟨before, since ++ [.record key time], by rw [hsplit]; simp, htriggers, ?_⟩
    intro p hp
    exact hlive p (by simpa using hp)
  refine ⟨hcounts, ?_, ?_⟩
  · intro k mark hmark
    by_cases htriggers : Triggers t.threshold history key
    · simp only [if_pos htriggers] at hmark
      by_cases hk : k = key
      · subst hk
        rw [Function.update_self, Option.some_inj] at hmark
        subst hmark
        exact ⟨history, [], rfl, htriggers, by simp⟩
      · rw [Function.update_of_ne hk] at hmark
        exact hold hmark
    · simp only [if_neg htriggers] at hmark
      exact hold hmark
  · intro k earlier before since hsplit htriggers hlive
    rcases split_concat hsplit with ⟨rfl, hrecord, -⟩ | ⟨since', hsplit', rfl⟩
    · obtain ⟨rfl, rfl⟩ := Event.record.inj hrecord
      simp only [if_pos htriggers]
      exact ⟨time, Function.update_self .., le_rfl⟩
    · obtain ⟨mark, hmark, hle⟩ :=
        h.latest hsplit' htriggers fun p hp => hlive p (List.mem_append_left _ hp)
      by_cases hnow : Triggers t.threshold history key ∧ k = key
      · obtain ⟨hnow, rfl⟩ := hnow
        simp only [if_pos hnow]
        refine ⟨time, Function.update_self .., hlast (.record k earlier) ?_⟩
        rw [hsplit']
        simp
      · refine ⟨mark, ?_, hle⟩
        by_cases htriggers' : Triggers t.threshold history key
        · simp only [if_pos htriggers']
          rw [Function.update_of_ne (fun hk => hnow ⟨htriggers', hk⟩)]
          exact hmark
        · simp only [if_neg htriggers']
          exact hmark

/-- A pruning keeps the marks as the history gives them: it takes away a mark only if it comes too
late for it, and then for every older request too. -/
theorem Marks.prune {history : List Event} (h : t.Marks history) (time : ℤ) :
    (t.prune time).Marks (history ++ [.prune time]) := by
  refine ⟨counts_prune history time, ?_, ?_⟩
  · intro key mark hmark
    obtain ⟨hmark, hinTime⟩ := hotKeys_prune_eq_some.mp hmark
    obtain ⟨before, since, hsplit, htriggers, hlive⟩ := h.hotBy hmark
    refine ⟨before, since ++ [.prune time], by rw [hsplit]; simp, htriggers, ?_⟩
    intro p hp
    rcases List.mem_append.mp hp with hp | hp
    · exact hlive p hp
    · obtain rfl : p = time := by simpa using hp
      exact hinTime
  · intro key earlier before since hsplit htriggers hlive
    rcases split_concat hsplit with ⟨-, hprune, -⟩ | ⟨since', hsplit', rfl⟩
    · exact nomatch hprune
    · obtain ⟨mark, hmark, hle⟩ :=
        h.latest hsplit' htriggers fun p hp => hlive p (List.mem_append_left _ hp)
      have hinTime : ¬ time - earlier > t.cooldown := hlive time (by simp)
      exact ⟨mark, hotKeys_prune_eq_some.mpr ⟨hmark, by omega⟩, hle⟩

theorem after_concat (history : List Event) (e : Event) :
    t.after (history ++ [e]) = (t.after history).next e := by
  rw [after, List.foldl_append]
  rfl

theorem marks_new (cfg : HotKeyConfig) (registry : Option Registry) (localAddr : String) :
    (newHotKeyTracker cfg registry localAddr).Marks [] := by
  refine ⟨fun _ => rfl, ?_, ?_⟩
  · intro key time hmark
    exact nomatch hmark
  · intro key time before since hsplit
    exact absurd hsplit (by simp)

/-- In every history in which time goes on, the marks are those that the history gives. -/
theorem Marks.after (h : t.Marks []) {history : List Event}
    (hmono : (history.map Event.time).Pairwise (· ≤ ·)) :
    (t.after history).Marks history ∧ (t.after history).threshold = t.threshold ∧
      (t.after history).cooldown = t.cooldown := by
  induction history using List.reverseRecOn with
  | nil => exact ⟨h, rfl, rfl⟩
  | append_singleton history e ih =>
    rw [List.map_append, List.pairwise_append] at hmono
    obtain ⟨hmono, -, hlast⟩ := hmono
    obtain ⟨hmarks, hthreshold, hcooldown⟩ := ih hmono
    rw [after_concat]
    cases e with
    | record key time =>
      refine ⟨hmarks.record ?_, ?_⟩
      · intro e he
        exact hlast e.time (List.mem_map_of_mem he) time (by simp [Event.time])
      · rw [next, hmarks.counts.record_eq]
        exact ⟨hthreshold, hcooldown⟩
    | prune time => exact ⟨hmarks.prune time, hthreshold, hcooldown⟩

/-- **When a key is hot**: after every history in which time goes on, some request for the key has
triggered a mark and no pruning since has come too late for it. A request says that the key has
become hot exactly when it triggers a mark and the key has not been hot before. -/
theorem isHot_iff_history (cfg : HotKeyConfig) (registry : Option Registry) (localAddr : String)
    (history : List Event) (hmono : (history.map Event.time).Pairwise (· ≤ ·)) (key : String) :
    let t := (newHotKeyTracker cfg registry localAddr).after history
    (t.isHot key ↔ HotBy cfg.threshold cfg.coolDown history key) ∧
      ∀ time, (t.record key time).1 = true ↔
        Triggers cfg.threshold history key ∧ ¬ t.isHot key := by
  intro t
  obtain ⟨hmarks, hthreshold, hcooldown⟩ := (marks_new cfg registry localAddr).after hmono
  refine ⟨?_, fun time => ?_⟩
  · rw [hmarks.isHot_iff, hthreshold, hcooldown]
    rfl
  · rw [hmarks.counts.record_eq, hthreshold]
    simp only [Bool.and_eq_true, decide_eq_true_eq, Bool.not_eq_true', Bool.not_eq_true]
    rfl

/-- Sixty-four requests at once make a key hot, and a pruning within the cooldown leaves it so. -/
theorem isHot_iff_history_requests :
    ((newHotKeyTracker { threshold := 50, coolDown := 10 } none "").after
      (List.replicate 63 (.record "k" 0) ++ [.record "k" 0, .prune 10])).isHot "k" = true := by
  have hcount : recordsSincePrune (List.replicate 63 (.record "k" 0)) "k" = 63 := by
    simp [recordsSincePrune]
  obtain ⟨hhot, -⟩ := isHot_iff_history { threshold := 50, coolDown := 10 } none ""
    (List.replicate 63 (.record "k" 0) ++ [.record "k" 0, .prune 10])
    (by simp [Event.time]) "k"
  refine hhot.mpr ⟨List.replicate 63 (.record "k" 0), 0, [.prune 10], rfl, ?_, by simp⟩
  rw [Triggers, hcount]
  decide

/-! ### One call -/

/-- A request that makes its key hot marks it with its time, and changes nothing else that
matters to the mark. -/
theorem record_true {key : String} {now : ℤ} (h : (t.record key now).1 = true) :
    (t.record key now).2.hotKeys key = some now ∧
      (t.record key now).2.cooldown = t.cooldown := by
  rw [record, checkHot] at h ⊢
  simp only [Function.update_self] at h ⊢
  split at h
  · cases h
  · rename_i hmod
    rw [if_neg hmod]
    split at h
    · rename_i hle
      rw [if_pos hle]
      exact ⟨Function.update_self .., rfl⟩
    · cases h

/-- Prunings make no marks. -/
theorem hotKeys_prunes_eq_none {key : String} (h : t.hotKeys key = none) (ps : List ℤ) :
    (ps.foldl prune t).hotKeys key = none := by
  induction ps generalizing t with
  | nil => exact h
  | cons p ps ih => exact ih (by simp [prune, h])

/-- The mark of a key is there after prunings that do not come too late for it. -/
theorem isHot_prunes {key : String} {mark : ℤ} (h : t.hotKeys key = some mark) (ps : List ℤ) :
    (ps.foldl prune t).isHot key = true ↔ ∀ p ∈ ps, ¬ p - mark > t.cooldown := by
  induction ps generalizing t with
  | nil => simp [isHot, h]
  | cons p ps ih =>
    rw [List.foldl_cons, List.forall_mem_cons]
    by_cases hinTime : p - mark > t.cooldown
    · have hnone : (t.prune p).hotKeys key = none := by
        simp [prune, h, Option.filter]
        omega
      refine iff_of_false ?_ (fun hall => hall.1 hinTime)
      rw [isHot, hotKeys_prunes_eq_none hnone]
      simp
    · rw [ih (hotKeys_prune_eq_some.mpr ⟨h, hinTime⟩)]
      exact ⟨fun hps => ⟨hinTime, hps⟩, fun hall => hall.2⟩

/-- What a request and prunings leave as it is. -/
theorem wiring_record (key : String) (now : ℤ) (ps : List ℤ) :
    (ps.foldl prune (t.record key now).2).registry = t.registry ∧
      (ps.foldl prune (t.record key now).2).replicas = t.replicas ∧
      (ps.foldl prune (t.record key now).2).localAddr = t.localAddr := by
  induction ps using List.reverseRecOn with
  | nil =>
    simp only [List.foldl_nil, record, checkHot, Function.update_self]
    split
    · exact ⟨rfl, rfl, rfl⟩
    · split <;> exact ⟨rfl, rfl, rfl⟩
  | append_singleton ps p ih =>
    rw [List.foldl_append]
    exact ih

theorem replicateCandidates_record (key k : String) (now : ℤ) (ps : List ℤ) :
    (ps.foldl prune (t.record key now).2).replicateCandidates k = t.replicateCandidates k := by
  obtain ⟨hregistry, hreplicas, hlocalAddr⟩ := t.wiring_record key now ps
  rw [replicateCandidates, replicateCandidates, hregistry, hreplicas, hlocalAddr]

/-- The candidates are peers that there is a client for. -/
theorem mem_all_of_replicateCandidates {r : Registry} (h : t.registry = some r) {key addr : String}
    {l : List String} (hl : t.replicateCandidates key = some l) (haddr : addr ∈ l) :
    addr ∈ r.all := by
  rw [replicateCandidates, h] at hl
  obtain ⟨owners, -, rfl⟩ := Option.map_eq_some_iff.mp hl
  have hmem := List.mem_of_mem_filter haddr
  obtain ⟨hne, hgetter⟩ := of_decide_eq_true (List.mem_filter.mp hmem).2
  exact List.mem_filter.mpr ⟨hgetter, decide_eq_true hne⟩

end HotKeyTracker

end Cache

end ClusterManager
