import Mathlib.Data.List.Induction
import Mathlib.Logic.Function.Basic
import ClusterManager.Lib.Runs

/-!
# Single flight

`Group.Do` is meant to let one caller at a time run `fn` for a key, the others waiting
for its result. Its steps are the four stretches between two points at which another
goroutine can come in between: the look-up under the lock (`enter`), the return of `fn`
(`complete`), the deletion of the key under the lock (`delete`), and the wake-up of a
caller that waits (`wake`). A run is any interleaving of the steps of any number of
callers.

A caller that finds no record of a call makes one, but does not put it into the map. So
the map is empty for good (`State.Inv`), nobody ever waits, and each caller runs `fn`
itself. That each caller returns the result of an execution that was going on during
its call is true all the same, since that execution is its own; that there is at most
one execution for a key is true exactly as long as no caller enters while another one
runs `fn` for its key.
-/

namespace ClusterManager

namespace SingleFlight

/-- Where a caller is in `Do`. -/
inductive Phase (ι ρ : Type) where
  /-- The call has not started. -/
  | idle
  /-- The caller waits for the record of another caller. -/
  | waiting (c : ι)
  /-- The caller runs `fn`. -/
  | running
  /-- `fn` has returned, and the key is still to be deleted. -/
  | finished
  | returned (r : ρ)
  deriving DecidableEq, Repr

/-- The state of a group: the map from keys to the records of calls, the records by the
caller that made them, and where each caller is. -/
structure State (ι κ ρ : Type) where
  m : κ → Option ι := fun _ => none
  /-- The result in the record, once `fn` has returned. -/
  val : ι → Option ρ := fun _ => none
  phase : ι → Phase ι ρ := fun _ => .idle

/-- The steps of the callers. -/
inductive Action (ι ρ : Type) where
  | enter (i : ι)
  | complete (i : ι) (r : ρ)
  | delete (i : ι)
  | wake (i : ι)
  deriving DecidableEq, Repr

variable {ι κ ρ : Type} [DecidableEq ι] [DecidableEq κ] (key : ι → κ)

namespace State

variable (s : State ι κ ρ)

/-- Move a caller to a phase. -/
def move (i : ι) (ph : Phase ι ρ) : State ι κ ρ :=
  { s with phase := Function.update s.phase i ph }

end State

/-- One step of `Do`, if the caller is at that point. -/
def step (s : State ι κ ρ) : Action ι ρ → Option (State ι κ ρ)
  | .enter i =>
    match s.phase i with
    | .idle => match s.m (key i) with
      | some c => some (s.move i (.waiting c))
      -- the new record is not put into the map
      | none => some (s.move i .running)
    | _ => none
  | .complete i r =>
    match s.phase i with
    | .running => some { s.move i .finished with val := Function.update s.val i (some r) }
    | _ => none
  | .delete i =>
    match s.phase i, s.val i with
    | .finished, some r =>
      some { s.move i (.returned r) with m := Function.update s.m (key i) none }
    | _, _ => none
  | .wake i =>
    match s.phase i with
    | .waiting c => (s.val c).map fun r => s.move i (.returned r)
    | _ => none

/-- At most one caller runs `fn` for a key. -/
def AtMostOne (s : State ι κ ρ) : Prop :=
  ∀ i j, key i = key j → s.phase i = .running → s.phase j = .running → i = j

/-- What is true at every moment: the map is empty, and nobody waits. -/
structure State.Inv (s : State ι κ ρ) : Prop where
  map_empty : ∀ k, s.m k = none
  no_waiting : ∀ i c, s.phase i ≠ .waiting c

variable {key} {s s' : State ι κ ρ} {a : Action ι ρ}

/-- What a step does, in a state with an empty map. -/
theorem step_cases (hinv : s.Inv) (h : step key s a = some s') :
    (∃ i, a = .enter i ∧ s.phase i = .idle ∧ s' = s.move i .running) ∨
    (∃ i r, a = .complete i r ∧ s.phase i = .running ∧
      s' = { s.move i .finished with val := Function.update s.val i (some r) }) ∨
    (∃ i r, a = .delete i ∧ s.phase i = .finished ∧ s.val i = some r ∧
      s' = { s.move i (.returned r) with m := Function.update s.m (key i) none }) := by
  cases a with
  | enter i =>
    simp only [step, hinv.map_empty] at h
    cases hph : s.phase i with
    | idle =>
      rw [hph] at h
      exact Or.inl ⟨i, rfl, hph, (Option.some_inj.mp h).symm⟩
    | waiting | running | finished | returned => simp [hph] at h
  | complete i r =>
    simp only [step] at h
    cases hph : s.phase i with
    | running =>
      rw [hph] at h
      exact Or.inr (Or.inl ⟨i, r, rfl, hph, (Option.some_inj.mp h).symm⟩)
    | idle | waiting | finished | returned => simp [hph] at h
  | delete i =>
    simp only [step] at h
    cases hph : s.phase i with
    | finished =>
      cases hv : s.val i with
      | none => simp [hph, hv] at h
      | some r =>
        rw [hph, hv] at h
        exact Or.inr (Or.inr ⟨i, r, rfl, hph, hv, (Option.some_inj.mp h).symm⟩)
    | idle | waiting | running | returned => simp [hph] at h
  | wake i =>
    simp only [step] at h
    cases hph : s.phase i with
    | waiting c => exact absurd hph (hinv.no_waiting i c)
    | idle | running | finished | returned => simp [hph] at h

omit [DecidableEq ι] [DecidableEq κ] in
theorem inv_init : ({} : State ι κ ρ).Inv := ⟨fun _ => rfl, fun _ _ => by simp⟩

/-- The map stays empty. -/
theorem step_inv (hinv : s.Inv) (h : step key s a = some s') : s'.Inv := by
  obtain ⟨i, -, -, rfl⟩ | ⟨i, r, -, -, rfl⟩ | ⟨i, r, -, -, -, rfl⟩ := step_cases hinv h
  all_goals
    refine ⟨fun k => ?_, fun j c => ?_⟩
    · simp only [State.move, Function.update_apply, hinv.map_empty, ite_self]
    · simp only [State.move, Function.update_apply]
      split
      · simp
      · exact hinv.no_waiting j c

/-- A step keeps executions apart exactly when it does not enter beside one. -/
theorem step_atMostOne (hinv : s.Inv) (hone : AtMostOne key s) (h : step key s a = some s') :
    AtMostOne key s' ↔ ∀ i, a = .enter i → ∀ j, key j = key i → s.phase j ≠ .running := by
  obtain ⟨i, rfl, hi, rfl⟩ | ⟨i, r, rfl, hi, rfl⟩ | ⟨i, r, rfl, hi, -, rfl⟩ := step_cases hinv h
  · constructor
    · rintro hone' i' hi' j hj hrun
      obtain rfl : i = i' := by simpa using hi'
      have hne : j ≠ i := by
        rintro rfl
        simp [hi] at hrun
      exact hne (hone' j i hj (by simp [State.move, hne, hrun]) (by simp [State.move]))
    · intro hfree j j' hkey hj hj'
      simp only [State.move, Function.update_apply] at hj hj'
      have hi' := hfree i rfl
      split at hj <;> split at hj'
      · simp_all
      · subst_vars
        exact absurd hj' (hi' j' hkey.symm)
      · subst_vars
        exact absurd hj (hi' j hkey)
      · exact hone j j' hkey hj hj'
  all_goals
    refine ⟨fun _ i' hi' => by simp at hi', fun _ j j' hkey hj hj' => ?_⟩
    simp only [State.move, Function.update_apply] at hj hj'
    split at hj
    · simp at hj
    split at hj'
    · simp at hj'
    exact hone j j' hkey hj hj'

/-! ### What a caller returns -/

/-- The caller is between the start of its call and its return. -/
def State.InCall (s : State ι κ ρ) (i : ι) : Prop :=
  s.phase i ≠ .idle ∧ ∀ r, s.phase i ≠ .returned r

/-- The result `r` is that of an execution of `fn` for the key of `i` that was going on at
some moment of the call of `i`. -/
def Served (key : ι → κ) (l : List (Action ι ρ)) (i : ι) (r : ρ) : Prop :=
  ∃ p q j t, l = p ++ q ∧ key j = key i ∧ Runs.exec (step key) {} p = some t ∧
    t.InCall i ∧ t.phase j = .running ∧ .complete j r ∈ q

/-- The execution is the caller's own. -/
def ServedByOwn (key : ι → κ) (l : List (Action ι ρ)) (i : ι) (r : ρ) : Prop :=
  ∃ p q t, l = p ++ q ∧ Runs.exec (step key) {} p = some t ∧ t.phase i = .running ∧
    .complete i r ∈ q

theorem ServedByOwn.served {l : List (Action ι ρ)} {i : ι} {r : ρ}
    (h : ServedByOwn key l i r) : Served key l i r := by
  obtain ⟨p, q, t, hl, ht, hrun, hmem⟩ := h
  exact ⟨p, q, i, t, hl, rfl, ht, ⟨by simp [hrun], by simp [hrun]⟩, hrun, hmem⟩

theorem ServedByOwn.concat {l : List (Action ι ρ)} {i : ι} {r : ρ}
    (h : ServedByOwn key l i r) (a : Action ι ρ) : ServedByOwn key (l ++ [a]) i r := by
  obtain ⟨p, q, t, rfl, ht, hrun, hmem⟩ := h
  exact ⟨p, q ++ [a], t, by simp, ht, hrun, by simp [hmem]⟩

/-- A caller whose `fn` has returned holds the result of its own execution. -/
theorem servedByOwn_of_exec {l : List (Action ι ρ)} {t : State ι κ ρ}
    (h : Runs.exec (step key) {} l = some t) (i : ι) (r : ρ) :
    (t.phase i = .finished → t.val i = some r → ServedByOwn key l i r) ∧
      (t.phase i = .returned r → ServedByOwn key l i r) := by
  induction l using List.reverseRec generalizing t i r with
  | nil =>
    cases h
    simp
  | append_singleton l a ih =>
    rw [Runs.exec_concat] at h
    obtain ⟨u, hu, hut⟩ := Option.bind_eq_some_iff.mp h
    have hinv : u.Inv := (Runs.Always.of_inv inv_init fun _ _ _ => step_inv).last hu
    have hstay : ∀ j, (u.phase j = .finished → u.val j = some r → ServedByOwn key (l ++ [a]) j r) ∧
        (u.phase j = .returned r → ServedByOwn key (l ++ [a]) j r) := fun j =>
      ⟨fun h1 h2 => ((ih hu j r).1 h1 h2).concat a, fun h1 => ((ih hu j r).2 h1).concat a⟩
    obtain ⟨j, rfl, hj, rfl⟩ | ⟨j, r', rfl, hj, rfl⟩ | ⟨j, r', rfl, hj, hv, rfl⟩ :=
      step_cases hinv hut
    · rcases eq_or_ne i j with rfl | hne
      · simp [State.move]
      · simpa [State.move, hne] using hstay i
    · rcases eq_or_ne i j with rfl | hne
      · -- the moment before `fn` returns is one at which it is going on
        refine ⟨fun _ hval => ?_, by simp [State.move]⟩
        obtain rfl : r' = r := by simpa [State.move] using hval
        exact ⟨l, [_], u, rfl, hu, hj, by simp⟩
      · simpa [State.move, hne] using hstay i
    · rcases eq_or_ne i j with rfl | hne
      · refine ⟨by simp [State.move], fun hret => ?_⟩
        obtain rfl : r' = r := by simpa [State.move] using hret
        exact (hstay i).1 hj hv
      · simpa [State.move, hne] using hstay i

/-- **Single flight, when it holds.** In a run of any callers from an empty group there
is at most one execution of `fn` for a key at any moment, and each caller returns the
result of one that was going on during its call, exactly when no caller enters while
`fn` is being run for its key. -/
theorem singleFlight_iff (key : ι → κ) (l : List (Action ι ρ))
    (hrun : (Runs.exec (step key) {} l).isSome) :
    (Runs.Always (step key) (AtMostOne key) {} l ∧
      ∀ t, Runs.exec (step key) {} l = some t → ∀ i r, t.phase i = .returned r →
        Served key l i r) ↔
    Runs.EachStep (step key)
      (fun s a => ∀ i, a = .enter i → ∀ j, key j = key i → s.phase j ≠ .running) {} l := by
  have hreturn : ∀ t, Runs.exec (step key) {} l = some t → ∀ i r, t.phase i = .returned r →
      Served key l i r := fun t ht i r hr => ((servedByOwn_of_exec ht i r).2 hr).served
  rw [and_iff_left hreturn]
  exact Runs.always_iff_eachStep inv_init (fun _ _ _ => step_inv) (fun i j _ hi => by simp at hi)
    (fun _ _ _ => step_atMostOne) hrun

/-- One caller after the other. -/
def sequential : List (Action Bool ℕ) :=
  [.enter true, .complete true 1, .delete true, .enter false]

/-- The second caller finds no execution going on. -/
theorem atMostOne_of_sequential :
    (Runs.exec (step fun _ : Bool => "k") {} sequential).isSome ∧
      Runs.Always (step fun _ : Bool => "k") (AtMostOne fun _ => "k") {} sequential := by
  refine ⟨rfl, ((singleFlight_iff (fun _ : Bool => "k") sequential rfl).mpr ?_).1⟩
  refine Runs.eachStep_cons.mpr ⟨fun _ _ _ _ => by simp, fun t ht => ?_⟩
  obtain rfl := Option.some_inj.mp ht
  refine Runs.eachStep_cons.mpr ⟨fun _ h => by simp at h, fun t ht => ?_⟩
  obtain rfl := Option.some_inj.mp ht
  refine Runs.eachStep_cons.mpr ⟨fun _ h => by simp at h, fun t ht => ?_⟩
  obtain rfl := Option.some_inj.mp ht
  refine Runs.eachStep_cons.mpr ⟨fun _ _ j _ => ?_, fun t ht => Runs.eachStep_nil⟩
  cases j <;> decide

/-- Two callers that enter one after the other. -/
def overlapping : List (Action Bool ℕ) := [.enter true, .enter false]

/-- Two callers for one key both run `fn`. -/
theorem not_atMostOne_of_overlapping :
    ∃ t, Runs.exec (step fun _ : Bool => "k") {} overlapping = some t ∧
      ¬ AtMostOne (fun _ => "k") t := by
  refine ⟨_, rfl, fun h => ?_⟩
  exact absurd (h true false rfl rfl rfl) (by decide)

end SingleFlight

end ClusterManager
