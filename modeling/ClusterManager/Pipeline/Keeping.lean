import ClusterManager.Lib.Watch
import ClusterManager.Pipeline.Moments

/-!
# What holds at every moment of a run

What each step keeps whenever it is cut, and the persister keeps whenever it is told something, a
run keeps whenever it is cut: `Pipeline.keeps_run`. Undoing counts as well, for a run that fails
undoes its steps, and so does every attempt of a step that is retried.
-/

namespace ClusterManager

variable {C : Type} {R : C → Type} {μ σ : Type}

section Keeps

variable (H : Handler C R σ) (I : σ → Prop)

/-- Whenever the persister is being told something, `I` holds if it held before. -/
structure Persister.Keeps (persist : Persister C R) (name : String) : Prop where
  start : ∀ n w, I w → (persist.startPipelineStep name n).Throughout H I w
  fail : ∀ n w, I w → (persist.failPipelineStep name n).Throughout H I w
  save : ∀ n w, I w → (persist.savePipelineStep name n).Throughout H I w
  delete : ∀ w, I w → (persist.deletePipeline name).Throughout H I w

/-- Whenever a step is being done or undone, `I` holds if it held before. -/
structure Step.KeepsThroughout (step : Step C R μ) : Prop where
  action : ∀ m w, I w → Session.Throughout H I step.action m w
  undo : ∀ undo, step.undo = some undo → ∀ m w, I w → Session.Throughout H I undo m w

namespace Pipeline

variable {H I} {p : Pipeline C R μ} {m : μ} {w : σ}

theorem keeps_tell {f : Persister C R → String → Program C R (Except String Unit)}
    (hf : ∀ persist, p.persist = some persist → (f persist p.name).Throughout H I w) (hw : I w) :
    Session.Throughout H I (p.tell f) m w := by
  rw [tell]
  cases hp : p.persist with
  | none => exact Session.throughout_pure hw
  | some persist =>
    exact (Session.throughout_lift (hf persist hp)).andThen fun _ _ _ => Session.throughout_pure

theorem keeps_attempt {step : Step C R μ} (hstep : step.KeepsThroughout H I) (n : ℕ)
    (err : String) (hw : I w) : Session.Throughout H I (attempt step n err) m w := by
  induction n generalizing err m w with
  | zero => exact Session.throughout_pure hw
  | succ n ih =>
    rw [attempt]
    refine (hstep.action m w hw).reflect.andThen fun r m' w' hw' => ?_
    rcases r with (e | e) | _
    · exact ih e hw'
    · exact Session.throughout_throw hw'
    · exact Session.throughout_pure hw'

theorem keeps_executeStep {step : Step C R μ} (hstep : step.KeepsThroughout H I) (hw : I w) :
    Session.Throughout H I (executeStep step) m w := by
  refine (keeps_attempt hstep _ "" hw).andThen fun r m' w' hw' => ?_
  rcases r with err | _ <;> exact Session.throughout_pure hw'

variable (hpersist : ∀ persist, p.persist = some persist → persist.Keeps H I p.name)

include hpersist

theorem keeps_rollback {passed : List (Step C R μ)}
    (hpassed : ∀ step ∈ passed, step.KeepsThroughout H I) (completed : String → Bool) (hw : I w) :
    Session.Throughout H I (p.rollback passed completed) m w := by
  induction passed generalizing completed m w with
  | nil => exact Session.throughout_pure hw
  | cons step rest ih =>
    have hrest : ∀ s ∈ rest, s.KeepsThroughout H I := fun s hs =>
      hpassed s (List.mem_cons_of_mem _ hs)
    rw [rollback]
    cases hundo : step.undo with
    | none => exact ih hrest completed hw
    | some undo =>
      refine ((hpassed step List.mem_cons_self).undo undo hundo m w hw).reflect.andThen
        fun r m₁ w₁ hw₁ => ?_
      have hgo : Session.Throughout H I (do
          p.tell fun persist => persist.deletePipeline
          p.rollback rest (Function.update completed step.name false)) m₁ w₁ :=
        (keeps_tell (f := fun persist => persist.deletePipeline)
          (fun persist h => (hpersist persist h).delete _ hw₁) hw₁).andThen
            fun _ _ _ => ih hrest _
      rcases r with (e | e) | _
      · exact hgo
      · exact Session.throughout_throw hw₁
      · exact hgo

theorem keeps_runFrom {steps passed : List (Step C R μ)}
    (hsteps : ∀ step ∈ steps, step.KeepsThroughout H I)
    (hpassed : ∀ step ∈ passed, step.KeepsThroughout H I) (completed : String → Bool) (hw : I w) :
    Session.Throughout H I (p.runFrom passed steps completed) m w := by
  induction steps generalizing passed completed m w with
  | nil => exact Session.throughout_pure hw
  | cons step rest ih =>
    have hstep := hsteps step List.mem_cons_self
    have hrest : ∀ s ∈ rest, s.KeepsThroughout H I := fun s hs =>
      hsteps s (List.mem_cons_of_mem _ hs)
    have hpassed' := List.forall_mem_cons.mpr ⟨hstep, hpassed⟩
    rw [runFrom]
    split
    · exact ih hrest hpassed' completed hw
    refine (keeps_tell (f := fun persist name => persist.startPipelineStep name step.name)
      (fun persist h => (hpersist persist h).start _ w hw) hw).andThen fun _ m₁ w₁ hw₁ => ?_
    refine (keeps_executeStep hstep hw₁).andThen fun r m₂ w₂ hw₂ => ?_
    rcases r with err | _
    · exact (keeps_tell (f := fun persist name => persist.failPipelineStep name step.name)
        (fun persist h => (hpersist persist h).fail _ _ hw₂) hw₂).andThen fun _ _ _ hw₃ =>
          (keeps_rollback hpersist hpassed completed hw₃).andThen
            fun _ _ _ => Session.throughout_pure
    · exact (keeps_tell (f := fun persist name => persist.savePipelineStep name step.name)
        (fun persist h => (hpersist persist h).save _ _ hw₂) hw₂).andThen
          fun _ _ _ => ih hrest hpassed' _

/-- **What each step keeps whenever it is cut, a run keeps whenever it is cut.** -/
theorem keeps_run (hsteps : ∀ step ∈ p.steps, step.KeepsThroughout H I) (hw : I w) :
    Session.Throughout H I p.run m w :=
  keeps_runFrom hpersist hsteps (List.forall_mem_nil _) p.completed hw

end Pipeline

end Keeps

end ClusterManager
