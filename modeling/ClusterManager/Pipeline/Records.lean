import ClusterManager.Data.Store
import ClusterManager.Lib.Runs
import ClusterManager.Pipeline

/-!
# The records of a pipeline

A pipeline remembers which of its steps are completed, and so does its persister, which is
asked again by the next process. `StoreIn` is an environment with a store in it, besides
whatever else the steps of a pipeline talk to, and `StoreIn.persister` is the persister
that keeps its records there.

The two memories are written by different rules. A step that is completed is noted in
both. When steps are undone the pipeline forgets each step that has been undone, and the
store forgets all steps, once for each of them. So if some of the steps before a step that
fails can be undone and others cannot, the pipeline still takes the others for completed
and the store does not; `completed_agrees_iff` says that this is the only way in which the
two can come to differ.
-/

namespace ClusterManager

variable {C : Type} {R : C → Type} {μ σ : Type}

/-- A store in an environment: a statement is sent as a request, and is executed without an
error. -/
structure StoreIn (H : Handler C R σ) where
  send : StoreCmd → C
  answer : ∀ c, R (send c) → c.Reply
  get : σ → Store
  reply : ∀ w c, answer c (H w (send c)).1 = (get w).reply c
  effect : ∀ w c, get (H w (send c)).2 = (get w).effect c

namespace StoreIn

variable {H : Handler C R σ} (s : StoreIn H)

/-- The store as the persister of a pipeline. -/
def persister : Persister C R where
  savePipelineStep p n := .request (s.send (.savePipelineStep p n)) fun r => .done (s.answer _ r)
  startPipelineStep p n := .request (s.send (.startPipelineStep p n)) fun r => .done (s.answer _ r)
  failPipelineStep p n := .request (s.send (.failPipelineStep p n)) fun r => .done (s.answer _ r)
  loadPipelineSteps p := .request (s.send (.loadPipelineSteps p)) fun r => .done (s.answer _ r)
  deletePipeline p := .request (s.send (.deletePipeline p)) fun r => .done (s.answer _ r)

/-- The steps of a pipeline that are recorded as completed. -/
def recorded (name : String) (w : σ) : List String := (s.get w).loadPipelineSteps name

/-- A request that does not touch the records of a pipeline. -/
def Leaves (name : String) (c : C) : Prop :=
  ∀ w n, n ∈ s.recorded name (H w c).2 ↔ n ∈ s.recorded name w

variable {s}

/-- What leaves the records alone leaves them as they are, at every moment, -/
theorem recorded_runFor {α : Type} {name : String} {q : Program C R α}
    (hq : q.Sends (s.Leaves name)) (k : ℕ) (w : σ) (n : String) :
    n ∈ s.recorded name (q.runFor H k w).2 ↔ n ∈ s.recorded name w := by
  refine Program.Sends.runFor_inv (I := fun w' => ∀ n, n ∈ s.recorded name w' ↔
    n ∈ s.recorded name w) hq ?_ (fun _ => Iff.rfl) n
  exact fun w₁ c hc hw₁ n => (hc w₁ n).trans (hw₁ n)

/-- and in the end. -/
theorem recorded_run {α : Type} {name : String} {q : Program C R α}
    (hq : q.Sends (s.Leaves name)) (w : σ) (n : String) :
    n ∈ s.recorded name (q.run H w).2 ↔ n ∈ s.recorded name w := by
  refine Program.Sends.run_inv (I := fun w' => ∀ n, n ∈ s.recorded name w' ↔
    n ∈ s.recorded name w) hq ?_ (fun _ => Iff.rfl) n
  exact fun w₁ c hc hw₁ n => (hc w₁ n).trans (hw₁ n)

theorem leaves_start (name n : String) : s.Leaves name (s.send (.startPipelineStep name n)) := by
  intro w n'
  rw [recorded, recorded, s.effect, Store.effect, Store.mem_loadPipelineSteps,
    Store.recorded_startPipelineStep, Store.mem_loadPipelineSteps]

theorem leaves_load (name : String) : s.Leaves name (s.send (.loadPipelineSteps name)) := by
  intro w n'
  rw [recorded, recorded, s.effect]
  rfl

variable {p : Pipeline C R μ} (hpersist : p.persist = some s.persister) {w : σ} {n : String}

include hpersist

theorem mem_recorded_started (step : Step C R μ) :
    n ∈ s.recorded p.name (p.started H step w) ↔ n ∈ s.recorded p.name w := by
  have hget : s.get (p.started H step w) = (s.get w).startPipelineStep p.name step.name := by
    rw [Pipeline.started, Pipeline.told, hpersist]
    exact s.effect w (.startPipelineStep p.name step.name)
  rw [recorded, recorded, hget, Store.mem_loadPipelineSteps, Store.recorded_startPipelineStep,
    Store.mem_loadPipelineSteps]

theorem mem_recorded_saved (step : Step C R μ) :
    n ∈ s.recorded p.name (p.saved H step w) ↔ n ∈ s.recorded p.name w ∨ n = step.name := by
  have hget : s.get (p.saved H step w) = (s.get w).savePipelineStep p.name step.name := by
    rw [Pipeline.saved, Pipeline.told, hpersist]
    exact s.effect w (.savePipelineStep p.name step.name)
  rw [recorded, recorded, hget, Store.mem_loadPipelineSteps, Store.recorded_savePipelineStep,
    Store.mem_loadPipelineSteps]
  simp

theorem mem_recorded_failed (step : Step C R μ) :
    n ∈ s.recorded p.name (p.failed H step w) ↔ n ∈ s.recorded p.name w ∧ n ≠ step.name := by
  have hget : s.get (p.failed H step w) = (s.get w).failPipelineStep p.name step.name := by
    rw [Pipeline.failed, Pipeline.told, hpersist]
    exact s.effect w (.failPipelineStep p.name step.name)
  rw [recorded, recorded, hget, Store.mem_loadPipelineSteps, Store.recorded_failPipelineStep,
    Store.mem_loadPipelineSteps]
  simp

theorem notMem_recorded_deleted :
    n ∉ s.recorded p.name (p.told H (fun persist => persist.deletePipeline) w) := by
  have hget : s.get (p.told H (fun persist => persist.deletePipeline) w) =
      (s.get w).deletePipeline p.name := by
    rw [Pipeline.told, hpersist]
    exact s.effect w (.deletePipeline p.name)
  rw [recorded, hget, Store.mem_loadPipelineSteps, Store.recorded_deletePipeline]
  exact fun h => h.2 rfl

/-- A new pipeline: what is recorded is taken for completed. -/
theorem run_new (w : σ) :
    (Pipeline.new p.name p.persist : Program C R (Pipeline C R μ)).run H w =
      ({ name := p.name, persist := p.persist,
         completed := fun n => n ∈ s.recorded p.name w },
        (H w (s.send (.loadPipelineSteps p.name))).2) := by
  have hload : s.answer _ (H w (s.send (.loadPipelineSteps p.name))).1 =
      .ok (s.recorded p.name w) := s.reply w (.loadPipelineSteps p.name)
  rw [hpersist, Pipeline.new, Program.run_bind, persister]
  simp only [Program.run, hload]
  rfl

theorem completed_new :
    ((Pipeline.new p.name p.persist : Program C R (Pipeline C R μ)).run H w).1.completed n ↔
      n ∈ s.recorded p.name w := by
  rw [run_new hpersist]
  exact decide_eq_true_iff

theorem recorded_new (name : String) :
    s.recorded name ((Pipeline.new p.name p.persist : Program C R (Pipeline C R μ)).run H w).2 =
      s.recorded name w := by
  have hget : s.get (H w (s.send (.loadPipelineSteps p.name))).2 = s.get w :=
    s.effect w (.loadPipelineSteps p.name)
  rw [run_new hpersist, recorded, hget, recorded]

end StoreIn

/-! ### Runs of one pipeline -/

/-- A pipeline in a process: what it takes for completed, the memory of the process, and the
environment. -/
structure Progress (μ σ : Type) where
  completed : String → Bool
  memory : μ
  world : σ

namespace Pipeline

variable (H : Handler C R σ) (p : Pipeline C R μ)

/-- The pipeline as it is when it has just been made. -/
def start (m : μ) (w : σ) : Progress μ σ :=
  let r := (Pipeline.new p.name p.persist : Program C R (Pipeline C R μ)).run H w
  ⟨r.1.completed, m, r.2⟩

/-- The pipeline with what it has come to take for completed. -/
def resumed (t : Progress μ σ) : Pipeline C R μ := { p with completed := t.completed }

/-- What a call leaves behind, if it returns. -/
def after (x : Session C R μ Failure (Except String PUnit × (String → Bool)))
    (t : Progress μ σ) : Option (Progress μ σ) :=
  match Session.exec H x t.memory t.world with
  | ((.ok r, m), w) => some ⟨r.2, m, w⟩
  | ((.error _, _), _) => none

/-- Run the pipeline once more. -/
def rerun (t : Progress μ σ) (_ : Unit) : Option (Progress μ σ) :=
  after H (p.resumed t).run t

/-- The steps that are completed are those that a new pipeline would take for completed. -/
def Agrees {H : Handler C R σ} (s : StoreIn H) (p : Pipeline C R μ) (t : Progress μ σ) : Prop :=
  ∀ n, n ∈ (p.resumed t).completedNames ↔ n ∈ s.recorded p.name t.world

/-- If the run comes to a step that fails, then either none of the steps before it can be
undone, or all of them can. -/
def UndoesAllOrNone (t : Progress μ σ) : Prop :=
  ∀ i completed' m' w', (p.resumed t).FailsAt H t.memory t.world i completed' m' w' →
    (∀ step ∈ p.steps.take i, step.undo = none) ∨ ∀ step ∈ p.steps.take i, step.undo ≠ none

/-! ### The two memories along a run -/

section Memories

variable {H p} {s : StoreIn H} (hpersist : p.persist = some s.persister)

include hpersist

omit hpersist in
/-- Trying a step that leaves the records alone. -/
theorem recorded_executeStep {step : Step C R μ}
    (hleaves : Session.Sends (s.Leaves p.name) step.action)
    (m : μ) (w : σ) (n : String) :
    n ∈ s.recorded p.name (Session.exec H (executeStep step) m w).2 ↔ n ∈ s.recorded p.name w := by
  have hkeeps : step.Keeps H fun _ w' =>
      ∀ n, n ∈ s.recorded p.name w' ↔ n ∈ s.recorded p.name w := by
    intro m w₁ hI n
    exact (StoreIn.recorded_run (hleaves m) w₁ n).trans (hI n)
  exact executeStep_inv hkeeps (fun n => Iff.rfl) n

/-- What is completed along a run is recorded, and nothing else is. -/
theorem Completes.mem_recorded {steps : List (Step C R μ)} {completed completed' : String → Bool}
    {m m' : μ} {w w' : σ} (h : p.Completes H steps completed m w completed' m' w')
    (hleaves : ∀ step ∈ steps, Session.Sends (s.Leaves p.name) step.action) (n : String) :
    n ∈ s.recorded p.name w' ↔ n ∈ s.recorded p.name w ∨ (completed' n ∧ ¬ completed n) := by
  induction h with
  | nil => simp
  | skip _ _ ih => exact ih fun step hstep => hleaves step (List.mem_cons_of_mem _ hstep)
  | @step step rest completed completed' m m₁ m' w w₁ w' hnot hexec hrest ih =>
    have hdone := recorded_executeStep (hleaves step List.mem_cons_self) m
      (p.started H step w) n
    rw [hexec] at hdone
    rw [ih fun step hstep => hleaves step (List.mem_cons_of_mem _ hstep),
      StoreIn.mem_recorded_saved hpersist, hdone, StoreIn.mem_recorded_started hpersist]
    by_cases hn : n = step.name
    · subst hn
      have hcompleted := hrest.completed_of_completed (Function.update_self ..)
      simp [hcompleted, hnot]
    · rw [Function.update_of_ne hn]
      simp [hn]

/-- What undoing steps leaves of the two memories. -/
theorem rollback_ok {l : List (Step C R μ)} {completed completed' : String → Bool} {m m' : μ}
    {w w' : σ} (h : Session.exec H (p.rollback l completed) m w = ((.ok completed', m'), w')) :
    (∀ n, completed' n ↔ completed n ∧ ∀ step ∈ l, step.name = n → step.undo = none) ∧
      ((∀ step ∈ l, step.undo = none) → w' = w) ∧
        ((∃ step ∈ l, step.undo ≠ none) → ∀ n, n ∉ s.recorded p.name w') := by
  induction l generalizing completed m w with
  | nil =>
    cases h
    exact ⟨by simp, fun _ => rfl, fun ⟨_, hstep, _⟩ => absurd hstep (List.not_mem_nil)⟩
  | cons step l ih =>
    rw [rollback] at h
    cases hundo : step.undo with
    | none =>
      simp only [hundo] at h
      obtain ⟨hcompleted, hsame, hnone⟩ := ih h
      refine ⟨fun n => ?_, fun hall => hsame fun s hs => hall s (List.mem_cons_of_mem _ hs), ?_⟩
      · rw [hcompleted]
        simp [hundo]
      · rintro ⟨step', hstep', hne⟩
        rcases List.mem_cons.mp hstep' with rfl | hstep'
        · exact absurd hundo hne
        · exact hnone ⟨step', hstep', hne⟩
    | some undo =>
      simp only [hundo] at h
      obtain ⟨r, m₁, w₁, hundone, hrest⟩ := Session.exec_bind_ok h
      have hcont : Session.exec H (do
          p.tell fun persist => persist.deletePipeline
          p.rollback l (Function.update completed step.name false)) m₁ w₁ =
            ((.ok completed', m'), w') := by
        rcases r with (err | err) | _
        · exact hrest
        · cases hrest
        · exact hrest
      rw [Session.exec_bind, exec_tell] at hcont
      obtain ⟨hcompleted, hsame, hnone⟩ := ih hcont
      refine ⟨fun n => ?_, fun hall => ?_, fun _ n => ?_⟩
      · rw [hcompleted]
        by_cases hn : n = step.name
        · subst hn
          simp [hundo]
        · rw [Function.update_of_ne hn]
          simp [Ne.symm hn]
      · rw [hall step List.mem_cons_self] at hundo
        cases hundo
      · -- the records are gone, and what follows either deletes them again or does nothing
        by_cases hall : ∀ step ∈ l, step.undo = none
        · rw [hsame hall]
          exact StoreIn.notMem_recorded_deleted hpersist
        · obtain ⟨step', hstep', hne⟩ : ∃ step ∈ l, step.undo ≠ none := by
            simpa only [not_forall, exists_prop] using hall
          exact hnone ⟨step', hstep', hne⟩ n

/-- What is recorded when a step has failed for good. -/
theorem FailsAt.mem_recorded
    (hleaves : ∀ step ∈ p.steps, Session.Sends (s.Leaves p.name) step.action)
    {m m' : μ} {w w' : σ} {i : ℕ} {completed' : String → Bool}
    (h : p.FailsAt H m w i completed' m' w') {step : Step C R μ} (hget : p.steps[i]? = some step)
    (n : String) :
    n ∈ s.recorded p.name (p.failed H step w') ↔
      (n ∈ s.recorded p.name w ∨ (completed' n ∧ ¬ p.completed n)) ∧ n ≠ step.name := by
  obtain ⟨step', m₁, w₁, err, hget', hbefore, hnot, hexec⟩ := h
  obtain rfl := Option.some_inj.mp (hget.symm.trans hget')
  have hmem : step ∈ p.steps := List.mem_of_getElem? hget
  have hdone := recorded_executeStep (hleaves step hmem) m₁ (p.started H step w₁) n
  rw [hexec] at hdone
  rw [StoreIn.mem_recorded_failed hpersist, hdone, StoreIn.mem_recorded_started hpersist,
    hbefore.mem_recorded hpersist fun step hstep => hleaves step (List.mem_of_mem_take hstep)]

end Memories

/-! ### Where the two memories come to differ -/

/-- The steps that are completed are the first ones. -/
def Initial (p : Pipeline C R μ) (t : Progress μ σ) : Prop :=
  ∃ k, ∀ (i : ℕ) (step : Step C R μ), p.steps[i]? = some step → (t.completed step.name ↔ i < k)

/-- A step that cannot be undone is completed, and not recorded. -/
def Lost {H : Handler C R σ} (s : StoreIn H) (p : Pipeline C R μ) (t : Progress μ σ) : Prop :=
  ∃ step ∈ p.steps, step.undo = none ∧ t.completed step.name ∧
    step.name ∉ s.recorded p.name t.world

theorem mem_completedNames (t : Progress μ σ) (n : String) :
    n ∈ (p.resumed t).completedNames ↔ n ∈ p.steps.map Step.name ∧ t.completed n :=
  List.mem_filter

variable {H p}

theorem Lost.not_agrees {s : StoreIn H} {t : Progress μ σ} (h : p.Lost s t) : ¬ p.Agrees s t := by
  obtain ⟨step, hstep, -, hdone, hnot⟩ := h
  intro hagree
  refine hnot ((hagree step.name).mp ?_)
  exact (mem_completedNames p t _).mpr ⟨List.mem_map.mpr ⟨step, hstep, rfl⟩, hdone⟩

/-- How one more run can go. -/
theorem rerun_cases {t t' : Progress μ σ} (h : p.rerun H t () = some t') :
    (p.resumed t).Completes H p.steps t.completed t.memory t.world t'.completed t'.memory t'.world ∨
    ∃ i step completed₁ m₁ w₁, p.steps[i]? = some step ∧
      (p.resumed t).FailsAt H t.memory t.world i completed₁ m₁ w₁ ∧
      Session.exec H ((p.resumed t).rollback (p.steps.take i).reverse completed₁) m₁
        ((p.resumed t).failed H step w₁) = ((.ok t'.completed, t'.memory), t'.world) := by
  rw [rerun, after] at h
  rcases (p.resumed t).completes_or_fails_or_panics t.memory t.world with
    ⟨completed', m', w', hc⟩ | ⟨i, completed₁, m₁, w₁, hf⟩ | ⟨i, hpanic⟩
  · rw [hc.exec_run] at h
    cases h
    exact Or.inl hc
  · obtain ⟨step, err, hget, hrun⟩ := hf.exec_run
    rw [hrun, Session.exec_bind] at h
    rcases hback : Session.exec H
      ((p.resumed t).rollback ((p.resumed t).steps.take i).reverse completed₁) m₁
        ((p.resumed t).failed H step w₁) with ⟨⟨e | completed', m'⟩, w'⟩
    · rw [hback] at h
      cases h
    · rw [hback] at h
      cases h
      exact Or.inr ⟨i, step, completed₁, m₁, w₁, hget, hf, hback⟩
  · obtain ⟨err, m', w', hrun⟩ := hpanic.exec_run
    rw [hrun] at h
    cases h

theorem mem_take {i j : ℕ} (hji : j < i) {step : Step C R μ} (hget : p.steps[j]? = some step) :
    step ∈ p.steps.take i := by
  obtain ⟨hj, hstep⟩ := List.getElem?_eq_some_iff.mp hget
  exact List.mem_take_iff_getElem.mpr ⟨j, by omega, hstep⟩

theorem exists_of_mem_take {i : ℕ} {step : Step C R μ} (h : step ∈ p.steps.take i) :
    ∃ j < i, p.steps[j]? = some step := by
  obtain ⟨j, hj, hstep⟩ := List.mem_take_iff_getElem.mp h
  exact ⟨j, by omega, by rw [← hstep, List.getElem?_eq_getElem]⟩

section Outcome

variable {s : StoreIn H} (hpersist : p.persist = some s.persister)
  (hnames : (p.steps.map Step.name).Nodup)
  (hleaves : ∀ step ∈ p.steps, Session.Sends (s.Leaves p.name) step.action)
  {t t' : Progress μ σ}

include hnames in
/-- The name of a step is not that of an earlier one. -/
theorem name_notMem_take {i j : ℕ} (hij : i ≤ j) {step : Step C R μ}
    (hget : p.steps[j]? = some step) :
    step.name ∉ (p.steps.take i).map Step.name := by
  intro hmem
  obtain ⟨step', hstep', hname⟩ := List.mem_map.mp hmem
  obtain ⟨k, hk, hget'⟩ := exists_of_mem_take hstep'
  obtain ⟨hlen, -⟩ := List.getElem?_eq_some_iff.mp hget'
  have heq : (p.steps.map Step.name)[k]? = (p.steps.map Step.name)[j]? := by
    rw [List.getElem?_map, List.getElem?_map, hget, hget']
    exact congrArg some hname
  have := (List.getElem?_inj (by rwa [List.length_map]) hnames).mp heq
  omega

omit hnames in
/-- What is completed after a run through steps was completed before, or is new. -/
theorem Completes.completed_iff {steps : List (Step C R μ)} (hsub : steps.Sublist p.steps)
    {completed completed' : String → Bool} {m m' : μ} {w w' : σ}
    (h : (p.resumed t).Completes H steps completed m w completed' m' w') (n : String) :
    (n ∈ p.steps.map Step.name ∧ completed' n) ↔
      (n ∈ p.steps.map Step.name ∧ completed n) ∨ (completed' n ∧ ¬ completed n) := by
  constructor
  · rintro ⟨hn, hdone⟩
    by_cases hbefore : completed n
    · exact Or.inl ⟨hn, hbefore⟩
    · exact Or.inr ⟨hdone, hbefore⟩
  · rintro (⟨hn, hdone⟩ | ⟨hdone, hnew⟩)
    · exact ⟨hn, h.completed_of_completed hdone⟩
    · refine ⟨?_, hdone⟩
      by_contra hn
      rw [h.completed_of_notMem fun hmem => hn ((hsub.map _).subset hmem)] at hdone
      exact hnew hdone

include hpersist hleaves

/-- When a step fails for good, the two memories still agree. -/
theorem FailsAt.agrees (hagree : p.Agrees s t) {i : ℕ} {completed₁ : String → Bool} {m₁ : μ}
    {w₁ : σ} (hf : (p.resumed t).FailsAt H t.memory t.world i completed₁ m₁ w₁)
    {step : Step C R μ} (hget : p.steps[i]? = some step) (n : String) :
    (n ∈ p.steps.map Step.name ∧ completed₁ n) ↔
      n ∈ s.recorded p.name ((p.resumed t).failed H step w₁) := by
  have hmem : n ∈ s.recorded p.name ((p.resumed t).failed H step w₁) ↔ _ :=
    hf.mem_recorded (p := p.resumed t) hpersist hleaves hget n
  have hbefore' : (n ∈ p.steps.map Step.name ∧ t.completed n) ↔
      n ∈ s.recorded (p.resumed t).name t.world :=
    (mem_completedNames p t n).symm.trans (hagree n)
  obtain ⟨step', m₂, w₂, err, hget', hbefore, hnot, -⟩ := hf
  obtain rfl := Option.some_inj.mp (hget.symm.trans hget')
  rw [hmem, ← hbefore']
  refine Iff.trans ?_ (and_congr_left' (hbefore.completed_iff (List.take_sublist _ _) n))
  constructor
  · rintro ⟨hn, hdone⟩
    exact ⟨⟨hn, hdone⟩, fun heq => hnot (heq ▸ hdone)⟩
  · rintro ⟨h, -⟩
    exact h

include hnames

/-- **What one more run makes of memories that agree**: they agree again, if it undoes all
steps or none; otherwise a step is lost. -/
theorem rerun_outcome (hagree : p.Agrees s t) (hinit : p.Initial t)
    (h : p.rerun H t () = some t') :
    (p.Agrees s t' ∧ p.Initial t' ∧ p.UndoesAllOrNone H t) ∨
      (p.Lost s t' ∧ ¬ p.UndoesAllOrNone H t) := by
  rcases rerun_cases h with hc | ⟨i, step, completed₁, m₁, w₁, hget, hf, hback⟩
  · refine Or.inl ⟨fun n => ?_, ⟨p.steps.length, fun j step hstep => ?_⟩, ?_⟩
    · have hmem : n ∈ s.recorded p.name t'.world ↔ _ :=
        hc.mem_recorded (p := p.resumed t) hpersist hleaves n
      have hbefore : (n ∈ p.steps.map Step.name ∧ t.completed n) ↔
          n ∈ s.recorded (p.resumed t).name t.world :=
        (mem_completedNames p t n).symm.trans (hagree n)
      rw [hmem, ← hbefore, mem_completedNames]
      exact hc.completed_iff (List.Sublist.refl _) n
    · obtain ⟨hj, -⟩ := List.getElem?_eq_some_iff.mp hstep
      exact ⟨fun _ => hj, fun _ => hc.completed_of_mem (List.mem_of_getElem? hstep)⟩
    · intro i completed₁ m₁ w₁ hf
      obtain ⟨_, _, _, _, hget, _⟩ := id hf
      obtain ⟨hi, -⟩ := List.getElem?_eq_some_iff.mp hget
      have htake : (p.resumed t).Completes H ((p.resumed t).steps.take p.steps.length)
          (p.resumed t).completed t.memory t.world t'.completed t'.memory t'.world := by
        rw [show (p.resumed t).steps.take p.steps.length = p.steps from List.take_length]
        exact hc
      exact (hf.not_completes hi htake).elim
  · have hfailed := hf.agrees hpersist hleaves hagree hget
    obtain ⟨hcompleted, hsame, hnone⟩ := rollback_ok (p := p.resumed t) hpersist hback
    simp only [List.mem_reverse] at hcompleted hsame hnone
    -- the steps before the failure are completed, the others are not
    have hfirst : ∀ (j : ℕ) (step : Step C R μ), p.steps[j]? = some step →
        (completed₁ step.name ↔ j < i) := by
      obtain ⟨k, hk⟩ := hinit
      obtain ⟨step', m₂, w₂, err, hget', hbefore, hnot, -⟩ := hf
      obtain rfl := Option.some_inj.mp (hget.symm.trans hget')
      have hlater : ∀ (j : ℕ) (step : Step C R μ), p.steps[j]? = some step → i ≤ j →
          completed₁ step.name = t.completed step.name := fun j step hj hij =>
        hbefore.completed_of_notMem (name_notMem_take hnames hij hj)
      have hki : k ≤ i := by
        rw [hlater i step hget (Nat.le_refl _), hk i step hget] at hnot
        omega
      intro j step' hj
      constructor
      · intro hdone
        by_contra hij
        rw [hlater j step' hj (by omega), hk j step' hj] at hdone
        omega
      · intro hij
        exact hbefore.completed_of_mem (mem_take hij hj)
    by_cases hall : ∀ step ∈ p.steps.take i, step.undo = none
    · -- nothing is undone
      have hiff : ∀ n, t'.completed n ↔ completed₁ n := fun n =>
        (hcompleted n).trans (and_iff_left fun step hstep _ => hall step hstep)
      refine Or.inl ⟨fun n => ?_, ⟨i, fun j step hj => (hiff _).trans (hfirst j step hj)⟩, ?_⟩
      · rw [mem_completedNames, hiff, hsame hall]
        exact hfailed n
      · intro i' _ _ _ hf'
        obtain rfl := hf.unique hf'
        exact Or.inl hall
    have hgone : ∀ n, n ∉ s.recorded p.name t'.world := hnone (by simpa using hall)
    by_cases hevery : ∀ step ∈ p.steps.take i, step.undo ≠ none
    · -- everything is undone
      have hforgot : ∀ (j : ℕ) (step : Step C R μ), p.steps[j]? = some step →
          ¬ t'.completed step.name := by
        intro j step hj hdone
        obtain ⟨hdone₁, hundo⟩ := (hcompleted _).mp hdone
        have hmem := mem_take ((hfirst j step hj).mp hdone₁) hj
        exact hevery step hmem (hundo step hmem rfl)
      refine Or.inl ⟨fun n => ?_, ⟨0, fun j step hj => ?_⟩, ?_⟩
      · rw [mem_completedNames]
        refine iff_of_false ?_ (hgone n)
        rintro ⟨hn, hdone⟩
        obtain ⟨step, hstep, rfl⟩ := List.mem_map.mp hn
        obtain ⟨j, hj⟩ := List.mem_iff_getElem?.mp hstep
        exact hforgot j step hj hdone
      · exact iff_of_false (hforgot j step hj) (Nat.not_lt_zero j)
      · intro i' _ _ _ hf'
        obtain rfl := hf.unique hf'
        exact Or.inr hevery
    · -- a step that is not undone is forgotten by the store only
      have hmixed : ¬ p.UndoesAllOrNone H t := fun h =>
        (h i completed₁ m₁ w₁ hf).elim hall hevery
      obtain ⟨step', hstep', hundo⟩ : ∃ step ∈ p.steps.take i, step.undo = none := by
        simpa using hevery
      refine Or.inr ⟨⟨step', List.mem_of_mem_take hstep', hundo, ?_, hgone _⟩, hmixed⟩
      obtain ⟨j, hj, hget'⟩ := exists_of_mem_take hstep'
      refine (hcompleted _).mpr ⟨(hfirst j step' hget').mpr hj, fun step'' hstep'' hname => ?_⟩
      obtain rfl := List.inj_on_of_nodup_map hnames (List.mem_of_mem_take hstep'')
        (List.mem_of_mem_take hstep') hname
      exact hundo

/-- A step that is lost stays lost. -/
theorem Lost.rerun (hlost : p.Lost s t) (h : p.rerun H t () = some t') : p.Lost s t' := by
  obtain ⟨step', hstep', hundo, hdone, hnot⟩ := hlost
  refine ⟨step', hstep', hundo, ?_⟩
  rcases rerun_cases h with hc | ⟨i, step, completed₁, m₁, w₁, hget, hf, hback⟩
  · refine ⟨hc.completed_of_completed hdone, fun hmem => ?_⟩
    rcases (hc.mem_recorded (p := p.resumed t) hpersist hleaves _).mp hmem with h | ⟨-, h⟩
    · exact hnot h
    · exact h hdone
  · obtain ⟨hcompleted, hsame, hnone⟩ := rollback_ok (p := p.resumed t) hpersist hback
    simp only [List.mem_reverse] at hcompleted hsame hnone
    constructor
    · obtain ⟨_, _, _, _, _, hbefore, _⟩ := id hf
      refine (hcompleted _).mpr
        ⟨hbefore.completed_of_completed hdone, fun step'' hstep'' hname => ?_⟩
      obtain rfl := List.inj_on_of_nodup_map hnames (List.mem_of_mem_take hstep'') hstep' hname
      exact hundo
    · by_cases hall : ∀ step ∈ p.steps.take i, step.undo = none
      · rw [hsame hall]
        intro hmem
        rcases (hf.mem_recorded (p := p.resumed t) hpersist hleaves hget _).mp hmem with
          ⟨h | ⟨-, h⟩, -⟩
        · exact hnot h
        · exact h hdone
      · exact hnone (by simpa using hall) _

end Outcome

end Pipeline

open Pipeline in
/-- **When the two memories agree.** A pipeline that has been made on a store without records
of it agrees with the store after every run exactly if every run that comes to a step that
fails undoes all the steps before it, or none. -/
theorem completed_agrees_iff {H : Handler C R σ} (s : StoreIn H) (p : Pipeline C R μ)
    (hpersist : p.persist = some s.persister) (hnames : (p.steps.map Step.name).Nodup)
    (hleaves : ∀ step ∈ p.steps, Session.Sends (s.Leaves p.name) step.action) (m : μ) (w : σ)
    (hfresh : s.recorded p.name w = []) (runs : List Unit)
    (hruns : (Runs.exec (p.rerun H) (p.start H m w) runs).isSome) :
    Runs.Always (p.rerun H) (p.Agrees s) (p.start H m w) runs ↔
      Runs.EachStep (p.rerun H) (fun t _ => p.UndoesAllOrNone H t) (p.start H m w) runs := by
  have hnone : ∀ n, ¬ (p.start H m w).completed n := by
    intro n hn
    have hmem := (StoreIn.completed_new hpersist).mp hn
    rw [hfresh] at hmem
    cases hmem
  have hagree : p.Agrees s (p.start H m w) := by
    intro n
    rw [mem_completedNames]
    refine iff_of_false (fun h => hnone n h.2) ?_
    rw [start, StoreIn.recorded_new hpersist, hfresh]
    exact List.not_mem_nil
  have hinit : p.Initial (p.start H m w) :=
    ⟨0, fun i step _ => iff_of_false (hnone _) (Nat.not_lt_zero i)⟩
  refine Runs.always_iff_eachStep (J := fun t => (p.Agrees s t ∧ p.Initial t) ∨ p.Lost s t)
    (Or.inl ⟨hagree, hinit⟩) ?_ hagree ?_ hruns
  · rintro t ⟨⟩ t' (⟨ht, hti⟩ | hlost) hstep
    · rcases rerun_outcome hpersist hnames hleaves ht hti hstep with ⟨h, hi, -⟩ | ⟨h, -⟩
      · exact Or.inl ⟨h, hi⟩
      · exact Or.inr h
    · exact Or.inr (hlost.rerun hpersist hnames hleaves hstep)
  · rintro t ⟨⟩ t' (⟨ht, hti⟩ | hlost) hI hstep
    · rcases rerun_outcome hpersist hnames hleaves ht hti hstep with ⟨h, -, hc⟩ | ⟨h, hc⟩
      · exact iff_of_true h hc
      · exact iff_of_false h.not_agrees hc
    · exact absurd hI hlost.not_agrees

/-! ### Steps that can be undone, and steps that cannot -/

/-- An environment that is a store and nothing else. -/
def Store.handler : Handler StoreCmd StoreCmd.Reply Store := fun s c => (s.reply c, s.effect c)

def Store.asIs : StoreIn Store.handler where
  send c := c
  answer _ r := r
  get s := s
  reply _ _ := rfl
  effect _ _ := rfl

/-- Two steps that succeed and one that fails; of the first two, those in `undoes` can be
undone. -/
def threeSteps (undoes : List String) : Pipeline StoreCmd StoreCmd.Reply Unit where
  name := "three"
  persist := some Store.asIs.persister
  steps := [
    { name := "a", action := return ⟨⟩, undo := if "a" ∈ undoes then some (return ⟨⟩) else none },
    { name := "b", action := return ⟨⟩, undo := if "b" ∈ undoes then some (return ⟨⟩) else none },
    { name := "c", action := Session.fail "no", undo := some (return ⟨⟩) }]

theorem threeSteps_leaves (undoes : List String) :
    ∀ step ∈ (threeSteps undoes).steps, Session.Sends (Store.asIs.Leaves "three") step.action := by
  simp only [threeSteps, List.forall_mem_cons]
  exact ⟨Session.Sends.pure _, Session.Sends.pure _, Session.Sends.fail _, by simp⟩

/-- Where every step can be undone, the memories agree. -/
theorem completed_agrees_threeSteps :
    Runs.Always ((threeSteps ["a", "b"]).rerun Store.handler)
      ((threeSteps ["a", "b"]).Agrees Store.asIs)
      ((threeSteps ["a", "b"]).start Store.handler () {}) [(), ()] := by
  refine (completed_agrees_iff Store.asIs (threeSteps ["a", "b"]) rfl (by decide)
    (threeSteps_leaves _) () {} rfl [(), ()] rfl).mpr ?_
  have hundo : ∀ step ∈ (threeSteps ["a", "b"]).steps, step.undo ≠ none := by
    simp [threeSteps]
  exact fun _ _ _ t _ i _ _ _ _ => Or.inr fun step hstep => hundo step (List.mem_of_mem_take hstep)

/-- Where only the second step can be undone, the pipeline takes the first one for completed
and the store does not. -/
theorem not_completed_agrees_threeSteps :
    (Runs.exec ((threeSteps ["b"]).rerun Store.handler)
        ((threeSteps ["b"]).start Store.handler () {}) [()]).isSome ∧
      ¬ Runs.Always ((threeSteps ["b"]).rerun Store.handler)
        ((threeSteps ["b"]).Agrees Store.asIs)
        ((threeSteps ["b"]).start Store.handler () {}) [()] := by
  have hrun : (Runs.exec ((threeSteps ["b"]).rerun Store.handler)
      ((threeSteps ["b"]).start Store.handler () {}) [()]).map (fun t =>
        (((threeSteps ["b"]).resumed t).completedNames, Store.asIs.recorded "three" t.world)) =
      some (["a"], []) := by decide
  obtain ⟨t, ht, hnames⟩ := Option.map_eq_some_iff.mp hrun
  obtain ⟨hcompleted, hrecorded⟩ := Prod.mk.inj hnames
  refine ⟨by rw [ht]; rfl, fun halways => ?_⟩
  have hmem := (halways.last ht "a").mp (by rw [hcompleted]; exact List.mem_singleton_self _)
  rw [show (threeSteps ["b"]).name = "three" from rfl, hrecorded] at hmem
  cases hmem

end ClusterManager
