import Mathlib.Data.Int.Notation
import ClusterManager.Lib.Session

/-!
# Pipelines

A pipeline runs its steps one after the other. A step that is recorded as completed is
skipped; a step that fails is tried again as often as it says, and then the steps before
it are undone, the last one first. A `Persister` keeps the records across processes. It is
asked for them once, when the pipeline is made, and told of every step; what it answers
to being told is ignored.

A step is a `Session`, over whatever requests and memory the operation has that is made
of it. It fails with an error, which the pipeline sees, or it panics, which ends the run
where it is.

How a run ends is said by two relations: `Pipeline.Completes`, a run through steps none of
which fails, and `Pipeline.FailsAt`, a step that fails after such a run. `exec_runFrom_ok`
and `exec_runFrom_error` are what a whole run does in terms of them.
-/

namespace ClusterManager

/-- What keeps the records of steps. -/
structure Persister (C : Type) (R : C → Type) where
  savePipelineStep (pipelineName stepName : String) : Program C R (Except String Unit)
  startPipelineStep (pipelineName stepName : String) : Program C R (Except String Unit)
  failPipelineStep (pipelineName stepName : String) : Program C R (Except String Unit)
  loadPipelineSteps (pipelineName : String) : Program C R (Except String (List String))
  deletePipeline (pipelineName : String) : Program C R (Except String Unit)

structure Step (C : Type) (R : C → Type) (μ : Type) where
  name : String
  action : Session C R μ Failure PUnit
  /-- What undoes the step, if anything does. -/
  undo : Option (Session C R μ Failure PUnit) := none
  /-- How often the step is tried again. -/
  retry : ℤ := 0

/-- Trying a step keeps `I`. -/
def Step.Keeps {C : Type} {R : C → Type} {μ σ : Type} (H : Handler C R σ) (I : μ → σ → Prop)
    (step : Step C R μ) : Prop :=
  ∀ m w, I m w → I (Session.exec H step.action m w).1.2 (Session.exec H step.action m w).2

structure Pipeline (C : Type) (R : C → Type) (μ : Type) where
  name : String
  steps : List (Step C R μ) := []
  completed : String → Bool := fun _ => false
  persist : Option (Persister C R) := none

namespace Pipeline

variable {C : Type} {R : C → Type} {μ : Type}

/-- A pipeline without steps; what its persister has recorded is completed. -/
def new (name : String) : Option (Persister C R) → Program C R (Pipeline C R μ)
  | none => return { name := name }
  | some persist => do
    let r ← persist.loadPipelineSteps name
    match r with
    | .error _ => return { name := name, persist := some persist }
    | .ok steps =>
      return { name := name, persist := some persist, completed := fun s => s ∈ steps }

/-- Append a step. -/
def add (p : Pipeline C R μ) (step : Step C R μ) : Pipeline C R μ :=
  { p with steps := p.steps ++ [if step.retry < 0 then { step with retry := 0 } else step] }

/-- Tell the persister something, if there is one. -/
def tell (p : Pipeline C R μ) (f : Persister C R → String → Program C R (Except String Unit)) :
    Session C R μ Failure PUnit :=
  match p.persist with
  | none => return ⟨⟩
  | some persist => do
    let _ ← liftM (f persist p.name)
    return ⟨⟩

/-- Try a step up to `n` times. The result is the error of the last try. -/
def attempt (step : Step C R μ) : ℕ → String → Session C R μ Failure (Except String PUnit)
  | 0, lastErr => return .error lastErr
  | n + 1, _ => do
    match ← step.action.reflect with
    | .ok _ => return .ok ⟨⟩
    | .error (.error err) => attempt step n err
    | .error (.panic err) => throw (.panic err)

def executeStep (step : Step C R μ) : Session C R μ Failure (Except String PUnit) := do
  let attempts := step.retry + 1
  match ← attempt step attempts.toNat "" with
  | .ok _ => return .ok ⟨⟩
  | .error lastErr => return .error s!"after {attempts} attempts: {lastErr}"

/-- Undo steps, in the order of the list. An undo that fails is not tried again. -/
def rollback (p : Pipeline C R μ) :
    List (Step C R μ) → (String → Bool) → Session C R μ Failure (String → Bool)
  | [], completed => return completed
  | step :: rest, completed =>
    match step.undo with
    | none => rollback p rest completed
    | some undo => do
      match ← undo.reflect with
      | .error (.panic err) => throw (.panic err)
      | _ =>
        p.tell fun persist => persist.deletePipeline
        rollback p rest (Function.update completed step.name false)

/-- The error of a run, by the step that has failed and its error. -/
def failure (p : Pipeline C R μ) (step : Step C R μ) (err : String) : String :=
  s!"pipeline {p.name.quote} step {step.name.quote}: {err}"

/-- Run the steps that are left. `passed` are the steps before them, the last one first. -/
def runFrom (p : Pipeline C R μ) (passed : List (Step C R μ)) :
    List (Step C R μ) → (String → Bool) →
      Session C R μ Failure (Except String PUnit × (String → Bool))
  | [], completed => return (.ok ⟨⟩, completed)
  | step :: rest, completed =>
    if completed step.name then runFrom p (step :: passed) rest completed
    else do
      p.tell fun persist name => persist.startPipelineStep name step.name
      match ← executeStep step with
      | .error err =>
        p.tell fun persist name => persist.failPipelineStep name step.name
        let completed ← p.rollback passed completed
        return (.error (p.failure step err), completed)
      | .ok _ =>
        p.tell fun persist name => persist.savePipelineStep name step.name
        runFrom p (step :: passed) rest (Function.update completed step.name true)

/-- Run the pipeline. The result is its error, if any, and which steps are completed. -/
def run (p : Pipeline C R μ) : Session C R μ Failure (Except String PUnit × (String → Bool)) :=
  p.runFrom [] p.steps p.completed

/-- Forget that the steps from the named one on are completed, and run the pipeline. -/
def retryFrom (p : Pipeline C R μ) (stepName : String) :
    Session C R μ Failure (Except String PUnit × (String → Bool)) :=
  match p.steps.dropWhile (·.name ≠ stepName) with
  | [] =>
    return (.error s!"step {stepName.quote} not found in pipeline {p.name.quote}", p.completed)
  | step :: rest =>
    { p with completed := fun name => p.completed name && name ∉ (step :: rest).map Step.name }.run

/-- The names of the steps that are completed (`Completed`). -/
def completedNames (p : Pipeline C R μ) : List String :=
  (p.steps.map Step.name).filter p.completed

/-- Run the pipeline up to the moment at which the step at `i` is first tried. -/
def reach (p : Pipeline C R μ) (i : ℕ) : Session C R μ Failure PUnit := do
  let _ ← p.runFrom [] (p.steps.take i) p.completed
  match p.steps[i]? with
  | none => return ⟨⟩
  | some step => p.tell fun persist name => persist.startPipelineStep name step.name

/-- Run the pipeline up to the step at `i` and try it once. -/
def tryAt (p : Pipeline C R μ) (i : ℕ) : Session C R μ Failure PUnit := do
  p.reach i
  match p.steps[i]? with
  | none => return ⟨⟩
  | some step => step.action

/-! ### How a run goes -/

section Runs

variable {σ : Type} (H : Handler C R σ) (p : Pipeline C R μ)

/-- The environment when the persister has been told something. -/
def told (f : Persister C R → String → Program C R (Except String Unit)) (w : σ) : σ :=
  match p.persist with
  | none => w
  | some persist => ((f persist p.name).run H w).2

@[simp] theorem exec_tell (f : Persister C R → String → Program C R (Except String Unit)) (m : μ)
    (w : σ) : Session.exec H (p.tell f) m w = ((.ok ⟨⟩, m), p.told H f w) := by
  rw [tell, told]
  split
  · rfl
  · rw [Session.exec_bind, Session.exec_lift]
    rfl

/-- The environment when a step has been recorded as running. -/
def started (step : Step C R μ) (w : σ) : σ :=
  p.told H (fun persist name => persist.startPipelineStep name step.name) w

/-- The environment when a step has been recorded as completed. -/
def saved (step : Step C R μ) (w : σ) : σ :=
  p.told H (fun persist name => persist.savePipelineStep name step.name) w

/-- The environment when a step has been recorded as failed. -/
def failed (step : Step C R μ) (w : σ) : σ :=
  p.told H (fun persist name => persist.failPipelineStep name step.name) w

/-- A run through steps each of which is skipped or succeeds. -/
inductive Completes : List (Step C R μ) → (String → Bool) → μ → σ →
    (String → Bool) → μ → σ → Prop
  | nil {completed : String → Bool} {m : μ} {w : σ} : Completes [] completed m w completed m w
  | skip {step : Step C R μ} {rest : List (Step C R μ)} {completed completed' : String → Bool}
      {m m' : μ} {w w' : σ} (hskip : completed step.name)
      (hrest : Completes rest completed m w completed' m' w') :
      Completes (step :: rest) completed m w completed' m' w'
  | step {step : Step C R μ} {rest : List (Step C R μ)} {completed completed' : String → Bool}
      {m m₁ m' : μ} {w w₁ w' : σ} (hnot : ¬ completed step.name)
      (hexec : Session.exec H (executeStep step) m (p.started H step w) = ((.ok (.ok ⟨⟩), m₁), w₁))
      (hrest : Completes rest (Function.update completed step.name true) m₁ (p.saved H step w₁)
        completed' m' w') :
      Completes (step :: rest) completed m w completed' m' w'

/-- The step at `i` is tried and fails, after a run through the steps before it. -/
def FailsAt (m : μ) (w : σ) (i : ℕ) (completed' : String → Bool) (m' : μ) (w' : σ) : Prop :=
  ∃ step m₁ w₁ err, p.steps[i]? = some step ∧
    p.Completes H (p.steps.take i) p.completed m w completed' m₁ w₁ ∧ ¬ completed' step.name ∧
    Session.exec H (executeStep step) m₁ (p.started H step w₁) = ((.ok (.error err), m'), w')

/-- The step at `i` panics, after a run through the steps before it. -/
def PanicsAt (m : μ) (w : σ) (i : ℕ) : Prop :=
  ∃ step completed' m₁ w₁ err m' w', p.steps[i]? = some step ∧
    p.Completes H (p.steps.take i) p.completed m w completed' m₁ w₁ ∧ ¬ completed' step.name ∧
    Session.exec H (executeStep step) m₁ (p.started H step w₁) = ((.error (.panic err), m'), w')

variable {H p}

/-- A step that is tried does not return an error: it tells it. -/
theorem attempt_error {step : Step C R μ} {n : ℕ} {lastErr : String} {m m' : μ} {w w' : σ}
    {e : Failure} (h : Session.exec H (attempt step n lastErr) m w = ((.error e, m'), w')) :
    ∃ err, e = .panic err := by
  induction n generalizing lastErr m w with
  | zero => cases h
  | succ n ih =>
    rw [attempt, Session.exec_bind, Session.exec_reflect] at h
    rcases hr : Session.exec H step.action m w with ⟨⟨(err | err) | _, m₁⟩, w₁⟩
    · rw [hr] at h
      exact ih h
    · rw [hr] at h
      cases h
      exact ⟨err, rfl⟩
    · rw [hr] at h
      cases h

theorem executeStep_error {step : Step C R μ} {m m' : μ} {w w' : σ} {e : Failure}
    (h : Session.exec H (executeStep step) m w = ((.error e, m'), w')) : ∃ err, e = .panic err := by
  rw [executeStep, Session.exec_bind] at h
  rcases hr : Session.exec H (attempt step (step.retry + 1).toNat "") m w with
    ⟨⟨e' | err | _, m₁⟩, w₁⟩
  · rw [hr] at h
    cases h
    exact attempt_error hr
  · rw [hr] at h
    cases h
  · rw [hr] at h
    cases h

theorem Completes.append {steps steps' : List (Step C R μ)}
    {completed completed' completed'' : String → Bool} {m m' m'' : μ} {w w' w'' : σ}
    (h : p.Completes H steps completed m w completed' m' w')
    (h' : p.Completes H steps' completed' m' w' completed'' m'' w'') :
    p.Completes H (steps ++ steps') completed m w completed'' m'' w'' := by
  induction h with
  | nil => exact h'
  | skip hskip _ ih => exact .skip hskip (ih h')
  | step hnot hexec _ ih => exact .step hnot hexec (ih h')

/-- A run through steps is one through the first of them and one through the others. -/
theorem Completes.append_inv {steps steps' : List (Step C R μ)}
    {completed completed'' : String → Bool} {m m'' : μ} {w w'' : σ}
    (h : p.Completes H (steps ++ steps') completed m w completed'' m'' w'') :
    ∃ completed' m' w', p.Completes H steps completed m w completed' m' w' ∧
      p.Completes H steps' completed' m' w' completed'' m'' w'' := by
  induction steps generalizing completed m w with
  | nil => exact ⟨_, _, _, .nil, h⟩
  | cons step steps ih =>
    cases h with
    | skip hskip hrest =>
      obtain ⟨_, _, _, h₁, h₂⟩ := ih hrest
      exact ⟨_, _, _, .skip hskip h₁, h₂⟩
    | step hnot hexec hrest =>
      obtain ⟨_, _, _, h₁, h₂⟩ := ih hrest
      exact ⟨_, _, _, .step hnot hexec h₁, h₂⟩

/-- A step that is not recorded has been tried with success. -/
theorem Completes.cons_inv {step : Step C R μ} {rest : List (Step C R μ)}
    {completed completed' : String → Bool} {m m' : μ} {w w' : σ} (hnot : ¬ completed step.name)
    (h : p.Completes H (step :: rest) completed m w completed' m' w') :
    ∃ m₁ w₁, Session.exec H (executeStep step) m (p.started H step w) =
        ((.ok (.ok ⟨⟩), m₁), w₁) ∧
      p.Completes H rest (Function.update completed step.name true) m₁ (p.saved H step w₁)
        completed' m' w' := by
  cases h with
  | skip hskip _ => exact absurd hskip hnot
  | step _ hexec hrest => exact ⟨_, _, hexec, hrest⟩

/-- A run records the names of its steps only. -/
theorem Completes.completed_of_notMem {steps : List (Step C R μ)}
    {completed completed' : String → Bool} {m m' : μ} {w w' : σ}
    (h : p.Completes H steps completed m w completed' m' w') {name : String}
    (hname : name ∉ steps.map Step.name) : completed' name = completed name := by
  induction h with
  | nil => rfl
  | skip _ _ ih => exact ih fun h => hname (List.mem_cons_of_mem _ h)
  | @step step _ _ _ _ _ _ _ _ _ _ _ _ ih =>
    have hne : name ≠ step.name := fun heq => hname (heq ▸ List.mem_cons_self)
    rw [ih fun h => hname (List.mem_cons_of_mem _ h), Function.update_of_ne hne]

/-- What is completed stays completed, -/
theorem Completes.completed_of_completed {steps : List (Step C R μ)}
    {completed completed' : String → Bool} {m m' : μ} {w w' : σ}
    (h : p.Completes H steps completed m w completed' m' w') {name : String}
    (hname : completed name) : completed' name := by
  induction h with
  | nil => exact hname
  | skip _ _ ih => exact ih hname
  | @step step _ completed _ _ _ _ _ _ _ _ _ _ ih =>
    refine ih ?_
    by_cases heq : name = step.name
    · rw [heq, Function.update_self]
    · rwa [Function.update_of_ne heq]

/-- and the steps that have been passed are completed. -/
theorem Completes.completed_of_mem {steps : List (Step C R μ)}
    {completed completed' : String → Bool} {m m' : μ} {w w' : σ}
    (h : p.Completes H steps completed m w completed' m' w') {step : Step C R μ}
    (hstep : step ∈ steps) : completed' step.name := by
  induction h with
  | nil => cases hstep
  | skip hskip hrest ih =>
    rcases List.mem_cons.mp hstep with rfl | hstep
    · exact hrest.completed_of_completed hskip
    · exact ih hstep
  | step _ _ hrest ih =>
    rcases List.mem_cons.mp hstep with rfl | hstep
    · exact hrest.completed_of_completed (Function.update_self ..)
    · exact ih hstep

/-- A step that has no record when the run comes to it has been tried with success there. -/
theorem Completes.at_step (pre : List (Step C R μ)) {post : List (Step C R μ)} {step : Step C R μ}
    {completed completed' : String → Bool} {m m' : μ} {w w' : σ}
    (h : p.Completes H (pre ++ step :: post) completed m w completed' m' w')
    (hnot : ¬ completed step.name) (hpre : step.name ∉ pre.map Step.name) :
    ∃ completed₁ m₁ w₁ m₂ w₂,
      p.Completes H pre completed m w completed₁ m₁ w₁ ∧
      Session.exec H (executeStep step) m₁ (p.started H step w₁) = ((.ok (.ok ⟨⟩), m₂), w₂) ∧
      p.Completes H post (Function.update completed₁ step.name true) m₂ (p.saved H step w₂)
        completed' m' w' := by
  obtain ⟨completed₁, m₁, w₁, h₁, hrest⟩ := h.append_inv
  have hnot₁ : ¬ completed₁ step.name := by rwa [h₁.completed_of_notMem hpre]
  obtain ⟨m₂, w₂, hexec, h₂⟩ := hrest.cons_inv hnot₁
  exact ⟨completed₁, m₁, w₁, m₂, w₂, h₁, hexec, h₂⟩

/-- A step that succeeds at once. -/
theorem executeStep_of_ok {step : Step C R μ} (hretry : 0 ≤ step.retry) {m m' : μ} {w w' : σ}
    (h : Session.exec H step.action m w = ((.ok ⟨⟩, m'), w')) :
    Session.exec H (executeStep step) m w = ((.ok (.ok ⟨⟩), m'), w') := by
  obtain ⟨n, hn⟩ : ∃ n, (step.retry + 1).toNat = n + 1 := ⟨step.retry.toNat, by omega⟩
  have hattempt : Session.exec H (attempt step (step.retry + 1).toNat "") m w =
      ((.ok (.ok ⟨⟩), m'), w') := by
    rw [hn, attempt, Session.exec_bind, Session.exec_reflect, h]
    rfl
  rw [executeStep, Session.exec_bind, hattempt]
  rfl

/-- A step that is tried once and fails. -/
theorem executeStep_of_error {step : Step C R μ} (hretry : step.retry = 0) {m m' : μ} {w w' : σ}
    {err : String} (h : Session.exec H step.action m w = ((.error (.error err), m'), w')) :
    ∃ err', Session.exec H (executeStep step) m w = ((.ok (.error err'), m'), w') := by
  have hattempt : Session.exec H (attempt step (step.retry + 1).toNat "") m w =
      ((.ok (.error err), m'), w') := by
    rw [hretry]
    show Session.exec H (step.action.reflect >>= _) m w = _
    rw [Session.exec_bind, Session.exec_reflect, h]
    rfl
  rw [executeStep, Session.exec_bind, hattempt]
  exact ⟨_, rfl⟩

variable (H) in
/-- The memory and the environment when a step is tried once more after `j` tries. -/
def beforeTry (step : Step C R μ) : ℕ → μ → σ → μ × σ
  | 0, m, w => (m, w)
  | j + 1, m, w =>
    beforeTry step j (Session.exec H step.action m w).1.2 (Session.exec H step.action m w).2

theorem attempt_failed {step : Step C R μ} {n : ℕ} {lastErr err : String} {m m' : μ} {w w' : σ}
    (h : Session.exec H (attempt step n lastErr) m w = ((.ok (.error err), m'), w')) :
    beforeTry H step n m w = (m', w') ∧
      ∀ j < n, ∃ err, (Session.exec H step.action (beforeTry H step j m w).1
        (beforeTry H step j m w).2).1.1 = .error (.error err) := by
  induction n generalizing lastErr m w with
  | zero =>
    cases h
    exact ⟨rfl, nofun⟩
  | succ n ih =>
    rw [attempt, Session.exec_bind, Session.exec_reflect] at h
    rcases hr : Session.exec H step.action m w with ⟨⟨(err' | err') | _, m₁⟩, w₁⟩
    · rw [hr] at h
      obtain ⟨hend, htries⟩ := ih h
      refine ⟨by rw [beforeTry, hr, hend], fun j hj => ?_⟩
      rcases j with _ | j
      · exact ⟨err', by rw [beforeTry, hr]⟩
      · rw [beforeTry, hr]
        exact htries j (by omega)
    · rw [hr] at h
      cases h
    · rw [hr] at h
      cases h

/-- **A step that fails has failed in each of its tries.** -/
theorem executeStep_failed {step : Step C R μ} {err : String} {m m' : μ} {w w' : σ}
    (h : Session.exec H (executeStep step) m w = ((.ok (.error err), m'), w')) :
    beforeTry H step (step.retry + 1).toNat m w = (m', w') ∧
      ∀ j < (step.retry + 1).toNat, ∃ err, (Session.exec H step.action
        (beforeTry H step j m w).1 (beforeTry H step j m w).2).1.1 = .error (.error err) := by
  rw [executeStep, Session.exec_bind] at h
  rcases hr : Session.exec H (attempt step (step.retry + 1).toNat "") m w with
    ⟨⟨e | err' | _, m₁⟩, w₁⟩
  · rw [hr] at h
    cases h
  · rw [hr] at h
    cases h
    exact attempt_failed hr
  · rw [hr] at h
    cases h

/-- A step that is tried once and fails has been left by its action. -/
theorem action_of_executeStep_error {step : Step C R μ} (hretry : step.retry = 0) {err : String}
    {m m' : μ} {w w' : σ}
    (h : Session.exec H (executeStep step) m w = ((.ok (.error err), m'), w')) :
    ∃ err', Session.exec H step.action m w = ((.error (.error err'), m'), w') := by
  obtain ⟨hend, htries⟩ := executeStep_failed h
  rw [hretry] at hend htries
  obtain ⟨err', htry⟩ := htries 0 (by decide)
  obtain ⟨hm, hw⟩ := Prod.mk.inj
    (show ((Session.exec H step.action m w).1.2, (Session.exec H step.action m w).2) = (m', w')
      from hend)
  exact ⟨err', Prod.ext (Prod.ext htry hm) hw⟩

theorem attempt_ok {step : Step C R μ} {n : ℕ} {lastErr : String} {m m' : μ} {w w' : σ}
    (h : Session.exec H (attempt step n lastErr) m w = ((.ok (.ok ⟨⟩), m'), w')) :
    ∃ j < n, Session.exec H step.action (beforeTry H step j m w).1 (beforeTry H step j m w).2 =
        ((.ok ⟨⟩, m'), w') ∧
      ∀ i < j, ∃ err, (Session.exec H step.action (beforeTry H step i m w).1
        (beforeTry H step i m w).2).1.1 = .error (.error err) := by
  induction n generalizing lastErr m w with
  | zero => cases h
  | succ n ih =>
    rw [attempt, Session.exec_bind, Session.exec_reflect] at h
    rcases hr : Session.exec H step.action m w with ⟨⟨(err' | err') | _, m₁⟩, w₁⟩
    · rw [hr] at h
      obtain ⟨j, hj, hok, htries⟩ := ih h
      refine ⟨j + 1, by omega, by rw [beforeTry, hr, hok], fun i hi => ?_⟩
      rcases i with _ | i
      · exact ⟨err', by rw [beforeTry, hr]⟩
      · rw [beforeTry, hr]
        exact htries i (by omega)
    · rw [hr] at h
      cases h
    · rw [hr] at h
      cases h
      exact ⟨0, by omega, hr, nofun⟩

/-- **A step that succeeds does so in one of its tries**, and has failed in those before. -/
theorem executeStep_ok {step : Step C R μ} {m m' : μ} {w w' : σ}
    (h : Session.exec H (executeStep step) m w = ((.ok (.ok ⟨⟩), m'), w')) :
    ∃ j < (step.retry + 1).toNat,
      Session.exec H step.action (beforeTry H step j m w).1 (beforeTry H step j m w).2 =
        ((.ok ⟨⟩, m'), w') ∧
      ∀ i < j, ∃ err, (Session.exec H step.action (beforeTry H step i m w).1
        (beforeTry H step i m w).2).1.1 = .error (.error err) := by
  rw [executeStep, Session.exec_bind] at h
  rcases hr : Session.exec H (attempt step (step.retry + 1).toNat "") m w with
    ⟨⟨e | err' | _, m₁⟩, w₁⟩
  · rw [hr] at h
    cases h
  · rw [hr] at h
    cases h
  · rw [hr] at h
    cases h
    exact attempt_ok hr

/-- A step that is tried once and succeeds. -/
theorem action_of_executeStep_ok {step : Step C R μ} (hretry : step.retry = 0) {m m' : μ}
    {w w' : σ} (h : Session.exec H (executeStep step) m w = ((.ok (.ok ⟨⟩), m'), w')) :
    Session.exec H step.action m w = ((.ok ⟨⟩, m'), w') := by
  obtain ⟨j, hj, hok, -⟩ := executeStep_ok h
  rw [hretry] at hj
  obtain rfl : j = 0 := by omega
  exact hok

/-- What a run does with a step that is not recorded. -/
theorem exec_runFrom_step {step : Step C R μ} {completed : String → Bool}
    (hnot : ¬ completed step.name) (passed rest : List (Step C R μ)) (m : μ) (w : σ) :
    Session.exec H (p.runFrom passed (step :: rest) completed) m w =
      match Session.exec H (executeStep step) m (p.started H step w) with
      | ((.ok (.ok _), m'), w') =>
        Session.exec H (p.runFrom (step :: passed) rest (Function.update completed step.name true))
          m' (p.saved H step w')
      | ((.ok (.error err), m'), w') =>
        Session.exec H (do
          let completed ← p.rollback passed completed
          return (.error (p.failure step err), completed)) m' (p.failed H step w')
      | ((.error e, m'), w') => ((.error e, m'), w') := by
  rw [runFrom, if_neg hnot, Session.exec_bind, exec_tell]
  show Session.exec H (executeStep step >>= _) m (p.started H step w) = _
  rw [Session.exec_bind]
  rcases Session.exec H (executeStep step) m (p.started H step w) with ⟨⟨e | err | _, m'⟩, w'⟩
  · rfl
  · simp only [Session.exec_bind, exec_tell]
    rfl
  · simp only [Session.exec_bind, exec_tell]
    rfl

/-- What a run does depends on the environment in which its first step is begun. -/
theorem exec_runFrom_congr {step : Step C R μ} {completed : String → Bool}
    (hnot : ¬ completed step.name) {w w' : σ} (h : p.started H step w = p.started H step w')
    (passed rest : List (Step C R μ)) (m : μ) :
    Session.exec H (p.runFrom passed (step :: rest) completed) m w =
      Session.exec H (p.runFrom passed (step :: rest) completed) m w' := by
  rw [exec_runFrom_step hnot, exec_runFrom_step hnot, h]

/-- A run goes on after the steps it has come through. -/
theorem Completes.exec_runFrom {pre : List (Step C R μ)} {completed completed' : String → Bool}
    {m m' : μ} {w w' : σ} (h : p.Completes H pre completed m w completed' m' w')
    (passed post : List (Step C R μ)) :
    Session.exec H (p.runFrom passed (pre ++ post) completed) m w =
      Session.exec H (p.runFrom (pre.reverse ++ passed) post completed') m' w' := by
  induction h generalizing passed with
  | nil => rfl
  | @skip step rest completed completed' m m' w w' hskip _ ih =>
    rw [List.cons_append, runFrom, if_pos hskip, ih (step :: passed)]
    simp
  | @step step rest completed completed' m m₁ m' w w₁ w' hnot hexec _ ih =>
    rw [List.cons_append, exec_runFrom_step hnot, hexec]
    simp only [ih (step :: passed)]
    simp

/-- There is one way to run through steps. -/
theorem Completes.unique {steps : List (Step C R μ)}
    {completed completed' completed'' : String → Bool}
    {m m' m'' : μ} {w w' w'' : σ} (h : p.Completes H steps completed m w completed' m' w')
    (h' : p.Completes H steps completed m w completed'' m'' w'') :
    completed' = completed'' ∧ m' = m'' ∧ w' = w'' := by
  have hrun := (h.exec_runFrom [] []).symm.trans (h'.exec_runFrom [] [])
  obtain ⟨h₁, hw⟩ := Prod.mk.inj hrun
  obtain ⟨h₂, hm⟩ := Prod.mk.inj h₁
  exact ⟨(Prod.mk.inj (Except.ok.inj h₂)).2, hm, hw⟩

/-- **How a run can go**: through all its steps, or up to one that fails or panics. -/
theorem completes_or_fails_or_panics (p : Pipeline C R μ) (m : μ) (w : σ) :
    (∃ completed' m' w', p.Completes H p.steps p.completed m w completed' m' w') ∨
      (∃ i completed' m' w', p.FailsAt H m w i completed' m' w') ∨ ∃ i, p.PanicsAt H m w i := by
  -- the steps come one by one; `n` of them have been passed
  have key : ∀ n ≤ p.steps.length,
      (∃ completed' m' w', p.Completes H (p.steps.take n) p.completed m w completed' m' w') ∨
        (∃ i completed' m' w', p.FailsAt H m w i completed' m' w') ∨
          ∃ i, p.PanicsAt H m w i := by
    intro n
    induction n with
    | zero => exact fun _ => Or.inl ⟨_, _, _, by rw [List.take_zero]; exact .nil⟩
    | succ n ih =>
      intro hn
      rcases ih (by omega) with ⟨completed', m₁, w₁, hc⟩ | h
      · have hget : p.steps[n]? = some p.steps[n] := List.getElem?_eq_getElem hn
        have htake : p.steps.take (n + 1) = p.steps.take n ++ [p.steps[n]] :=
          (List.take_append_getElem hn).symm
        by_cases hdone : completed' p.steps[n].name
        · refine Or.inl ⟨completed', m₁, w₁, ?_⟩
          rw [htake]
          exact hc.append (.skip hdone .nil)
        rcases hexec : Session.exec H (executeStep p.steps[n]) m₁ (p.started H p.steps[n] w₁) with
          ⟨⟨err | err | _, m'⟩, w'⟩
        · obtain ⟨err, rfl⟩ := executeStep_error hexec
          exact Or.inr (Or.inr ⟨n, _, _, _, _, _, _, _, hget, hc, hdone, hexec⟩)
        · exact Or.inr (Or.inl ⟨n, _, _, _, _, _, _, _, hget, hc, hdone, hexec⟩)
        · refine Or.inl ⟨Function.update completed' p.steps[n].name true, m',
            p.saved H p.steps[n] w', ?_⟩
          rw [htake]
          exact hc.append (.step hdone hexec .nil)
      · exact Or.inr h
  have h := key p.steps.length (Nat.le_refl _)
  rwa [List.take_length] at h

/-- A run through all its steps returns without an error. -/
theorem Completes.exec_run {completed' : String → Bool} {m m' : μ} {w w' : σ}
    (h : p.Completes H p.steps p.completed m w completed' m' w') :
    Session.exec H p.run m w = ((.ok (.ok ⟨⟩, completed'), m'), w') := by
  have hrun := h.exec_runFrom [] []
  rw [List.append_nil] at hrun
  rw [run, hrun]
  rfl

/-- Where the step at `i` is first tried. -/
theorem Completes.exec_reach {i : ℕ} {step : Step C R μ} {completed' : String → Bool} {m m' : μ}
    {w w' : σ} (h : p.Completes H (p.steps.take i) p.completed m w completed' m' w')
    (hget : p.steps[i]? = some step) :
    Session.exec H (p.reach i) m w = ((.ok ⟨⟩, m'), p.started H step w') := by
  have hrun := h.exec_runFrom [] []
  rw [List.append_nil] at hrun
  rw [reach, Session.exec_bind, hrun, hget]
  exact exec_tell H p _ m' w'

theorem Completes.exec_tryAt {i : ℕ} {step : Step C R μ} {completed' : String → Bool} {m m' : μ}
    {w w' : σ} (h : p.Completes H (p.steps.take i) p.completed m w completed' m' w')
    (hget : p.steps[i]? = some step) :
    Session.exec H (p.tryAt i) m w = Session.exec H step.action m' (p.started H step w') := by
  rw [tryAt, Session.exec_bind_of_ok (h.exec_reach hget), hget]

theorem steps_eq {i : ℕ} {step : Step C R μ} (h : p.steps[i]? = some step) :
    p.steps = p.steps.take i ++ step :: p.steps.drop (i + 1) := by
  obtain ⟨hi, rfl⟩ := List.getElem?_eq_some_iff.mp h
  rw [List.getElem_cons_drop, List.take_append_drop]

/-- A run up to a step that fails undoes the steps before it. -/
theorem FailsAt.exec_run {m m' : μ} {w w' : σ} {i : ℕ} {completed' : String → Bool}
    (h : p.FailsAt H m w i completed' m' w') :
    ∃ step err, p.steps[i]? = some step ∧ Session.exec H p.run m w =
      Session.exec H (do
        let completed ← p.rollback (p.steps.take i).reverse completed'
        return (.error (p.failure step err), completed)) m' (p.failed H step w') := by
  obtain ⟨step, m₁, w₁, err, hget, hbefore, hnot, hexec⟩ := h
  have hrun := hbefore.exec_runFrom [] (step :: p.steps.drop (i + 1))
  rw [← steps_eq hget, List.append_nil, exec_runFrom_step hnot, hexec] at hrun
  exact ⟨step, err, hget, hrun⟩

/-- A run through some of its steps has not come to a failure among them. -/
theorem FailsAt.not_completes {m m' m₂ : μ} {w w' w₂ : σ} {i j : ℕ}
    {completed' completed₂ : String → Bool}
    (h : p.FailsAt H m w i completed' m' w') (hij : i < j)
    (hj : p.Completes H (p.steps.take j) p.completed m w completed₂ m₂ w₂) : False := by
  obtain ⟨step, m₁, w₁, err, hget, hbefore, hnot, hexec⟩ := h
  have htake : p.steps.take j =
      p.steps.take i ++ step :: (p.steps.drop (i + 1)).take (j - (i + 1)) := by
    conv_lhs => rw [steps_eq hget]
    obtain ⟨hi, -⟩ := List.getElem?_eq_some_iff.mp hget
    rw [List.take_append, List.take_of_length_le (by rw [List.length_take]; omega),
      List.length_take, Nat.min_eq_left (Nat.le_of_lt hi), show j - i = j - (i + 1) + 1 by omega,
      List.take_succ_cons]
  rw [htake] at hj
  obtain ⟨completed₁, m₃, w₃, hbefore', hrest⟩ := hj.append_inv
  obtain ⟨rfl, rfl, rfl⟩ := hbefore.unique hbefore'
  obtain ⟨m₄, w₄, hok, -⟩ := hrest.cons_inv hnot
  rw [hexec] at hok
  cases hok

/-- There is one step at which a run fails. -/
theorem FailsAt.unique {m m' m'' : μ} {w w' w'' : σ} {i j : ℕ}
    {completed' completed'' : String → Bool} (h : p.FailsAt H m w i completed' m' w')
    (h' : p.FailsAt H m w j completed'' m'' w'') : i = j := by
  obtain ⟨_, _, _, _, _, hi, _⟩ := id h
  obtain ⟨_, _, _, _, _, hj, _⟩ := id h'
  rcases Nat.lt_trichotomy i j with hlt | heq | hlt
  · exact (h.not_completes hlt hj).elim
  · exact heq
  · exact (h'.not_completes hlt hi).elim

/-- A run up to a step that panics does not return. -/
theorem PanicsAt.exec_run {m : μ} {w : σ} {i : ℕ} (h : p.PanicsAt H m w i) :
    ∃ err m' w', Session.exec H p.run m w = ((.error (.panic err), m'), w') := by
  obtain ⟨step, completed', m₁, w₁, err, m', w', hget, hbefore, hnot, hexec⟩ := h
  have hrun := hbefore.exec_runFrom [] (step :: p.steps.drop (i + 1))
  rw [← steps_eq hget, List.append_nil, exec_runFrom_step hnot, hexec] at hrun
  exact ⟨err, m', w', hrun⟩

/-! ### What a run keeps -/

variable {I : μ → σ → Prop}

theorem attempt_inv {step : Step C R μ} (hstep : step.Keeps H I) (n : ℕ) (err : String) {m : μ}
    {w : σ} (hI : I m w) :
    I (Session.exec H (attempt step n err) m w).1.2
      (Session.exec H (attempt step n err) m w).2 := by
  induction n generalizing err m w with
  | zero => exact hI
  | succ n ih =>
    have h := hstep m w hI
    rw [attempt, Session.exec_bind, Session.exec_reflect]
    generalize Session.exec H step.action m w = r at h ⊢
    rcases r with ⟨⟨(err | err) | _, m'⟩, w'⟩
    · exact ih err h
    · exact h
    · exact h

theorem beforeTry_inv {step : Step C R μ} (hstep : step.Keeps H I) (j : ℕ) {m : μ} {w : σ}
    (hI : I m w) : I (beforeTry H step j m w).1 (beforeTry H step j m w).2 := by
  induction j generalizing m w with
  | zero => exact hI
  | succ j ih => exact ih (hstep m w hI)

theorem executeStep_inv {step : Step C R μ} (hstep : step.Keeps H I) {m : μ} {w : σ}
    (hI : I m w) :
    I (Session.exec H (executeStep step) m w).1.2 (Session.exec H (executeStep step) m w).2 := by
  have h := attempt_inv hstep (step.retry + 1).toNat "" hI
  rw [executeStep, Session.exec_bind]
  generalize Session.exec H (attempt step (step.retry + 1).toNat "") m w = r at h ⊢
  rcases r with ⟨⟨e | err | _, m'⟩, w'⟩ <;> exact h

/-- Being told of a step keeps `I`. -/
structure TellKeeps (H : Handler C R σ) (p : Pipeline C R μ) (I : μ → σ → Prop) : Prop where
  started : ∀ step m w, I m w → I m (p.started H step w)
  saved : ∀ step m w, I m w → I m (p.saved H step w)
  failed : ∀ step m w, I m w → I m (p.failed H step w)

theorem Completes.inv (htell : p.TellKeeps H I) {steps : List (Step C R μ)}
    (hsteps : ∀ step ∈ steps, step.Keeps H I) {completed completed' : String → Bool}
    {m m' : μ} {w w' : σ} (h : p.Completes H steps completed m w completed' m' w') (hI : I m w) :
    I m' w' := by
  induction h with
  | nil => exact hI
  | skip _ _ ih => exact ih (fun s hs => hsteps s (List.mem_cons_of_mem _ hs)) hI
  | @step step _ _ _ _ _ _ _ _ _ _ hexec _ ih =>
    refine ih (fun s hs => hsteps s (List.mem_cons_of_mem _ hs)) (htell.saved _ _ _ ?_)
    have h := executeStep_inv (hsteps _ List.mem_cons_self) (htell.started step _ _ hI)
    rwa [hexec] at h

theorem FailsAt.inv (htell : p.TellKeeps H I) (hsteps : ∀ step ∈ p.steps, step.Keeps H I)
    {m m' : μ} {w w' : σ} {i : ℕ} {completed' : String → Bool}
    (h : p.FailsAt H m w i completed' m' w') (hI : I m w) : I m' w' := by
  obtain ⟨step, m₁, w₁, err, hget, hbefore, -, hexec⟩ := h
  have h₁ := hbefore.inv htell (fun s hs => hsteps s (List.mem_of_mem_take hs)) hI
  have h := executeStep_inv (hsteps _ (List.mem_of_getElem? hget)) (htell.started step _ _ h₁)
  rwa [hexec] at h

/-! ### What is undone -/

/-- A step that is undone is undone before the steps that come after it in the list. -/
theorem exec_rollback_cons {step : Step C R μ} {undo : Session C R μ Failure PUnit}
    (hundo : step.undo = some undo) {m m₁ : μ} {w w₁ : σ} {r : Except Failure PUnit}
    (hexec : Session.exec H undo m w = ((r, m₁), w₁)) (hr : ∀ err, r ≠ .error (.panic err))
    (rest : List (Step C R μ)) (completed : String → Bool) :
    Session.exec H (p.rollback (step :: rest) completed) m w =
        Session.exec H (p.rollback rest (Function.update completed step.name false)) m₁
          (p.told H (fun persist => persist.deletePipeline) w₁) ∧
      ∀ x, (x ∈ Session.sent H undo m w ∨
        x ∈ Session.sent H (p.rollback rest (Function.update completed step.name false)) m₁
          (p.told H (fun persist => persist.deletePipeline) w₁)) →
        x ∈ Session.sent H (p.rollback (step :: rest) completed) m w := by
  have hreflect : Session.exec H undo.reflect m w = ((.ok r, m₁), w₁) := by
    rw [Session.exec_reflect, hexec]
  have hsent : Session.sent H undo.reflect m w = Session.sent H undo m w := by
    rw [Session.sent, Session.program_reflect, Program.trace_bind, Program.trace_pure,
      List.append_nil]
    rfl
  rw [rollback, hundo]
  simp only
  rw [Session.exec_bind_of_ok hreflect, Session.sent_bind_of_ok hreflect, hsent]
  rcases r with (err | err) | _
  · simp only [Session.exec_bind, Session.sent_bind, exec_tell]
    refine ⟨trivial, fun x hx => ?_⟩
    rcases hx with hx | hx
    · exact List.mem_append_left _ hx
    · exact List.mem_append_right _ (List.mem_append_right _ hx)
  · exact absurd rfl (hr err)
  · simp only [Session.exec_bind, Session.sent_bind, exec_tell]
    refine ⟨trivial, fun x hx => ?_⟩
    rcases hx with hx | hx
    · exact List.mem_append_left _ hx
    · exact List.mem_append_right _ (List.mem_append_right _ hx)

/-- Steps that cannot be undone are passed over. -/
theorem rollback_append_of_no_undo {l : List (Step C R μ)} (hl : ∀ step ∈ l, step.undo = none)
    (l' : List (Step C R μ)) (completed : String → Bool) :
    p.rollback (l ++ l') completed = p.rollback l' completed := by
  induction l with
  | nil => rfl
  | cons step l ih =>
    rw [List.cons_append, rollback, hl step List.mem_cons_self]
    exact ih fun s hs => hl s (List.mem_cons_of_mem _ hs)

end Runs

end Pipeline

end ClusterManager
