import Mathlib.Data.List.Perm.Basic
import Mathlib.Logic.Relation

/-!
# Workers on queues

A pool is a queue of tasks with workers on it: a worker that is free takes the next
task, and when it is done with it reports a result. Several pools run side by side, each
step being one of some pool. Nothing is said of what the tasks are, or of which result a
task comes to.

However the steps interleave, a task is in its queue, with a worker or reported, and in
one of these places only (`Step.content_perm`). So when all workers are idle each task
has been reported once (`results_perm`), and the workers can always come to that, with
any results (`exists_complete`).
-/

namespace ClusterManager

/-- A queue, the tasks that workers have taken from it, and the results. -/
structure Pool (α ρ : Type) where
  queue : List α
  running : List α := []
  finished : List (α × ρ) := []

namespace Pool

variable {α ρ : Type}

/-- What one worker of a pool does. -/
inductive WorkerStep (workers : ℕ) : Pool α ρ → Pool α ρ → Prop where
  | take {a q r d} (h : r.length < workers) : WorkerStep workers ⟨a :: q, r, d⟩ ⟨q, a :: r, d⟩
  | finish {q r₁ a r₂ d} (x : ρ) :
    WorkerStep workers ⟨q, r₁ ++ a :: r₂, d⟩ ⟨q, r₁ ++ r₂, d ++ [(a, x)]⟩

/-- One step of some pool. -/
inductive Step (workers : ℕ) : List (Pool α ρ) → List (Pool α ρ) → Prop where
  | head {p p' ps} (h : WorkerStep workers p p') : Step workers (p :: ps) (p' :: ps)
  | tail {p ps ps'} (h : Step workers ps ps') : Step workers (p :: ps) (p :: ps')

/-- Any number of steps. -/
abbrev Run (workers : ℕ) : List (Pool α ρ) → List (Pool α ρ) → Prop :=
  Relation.ReflTransGen (Step workers)

/-- The tasks of a pool, wherever they are. -/
def content (p : Pool α ρ) : List α := p.queue ++ p.running ++ p.finished.map Prod.fst

/-- The pools with all tasks in their queues. -/
def start (groups : List (List α)) : List (Pool α ρ) := groups.map fun l => { queue := l }

/-- All workers are idle, with nothing left to take. -/
def Idle (ps : List (Pool α ρ)) : Prop := ∀ p ∈ ps, p.queue = [] ∧ p.running = []

/-- All results. -/
def results (ps : List (Pool α ρ)) : List (α × ρ) := ps.flatMap finished

variable {workers : ℕ}

theorem WorkerStep.content_perm {p p' : Pool α ρ} (h : WorkerStep workers p p') :
    p'.content.Perm p.content := by
  cases h with
  | take h =>
    simp only [content, List.cons_append]
    exact (List.perm_middle).append_right _
  | finish x =>
    simp only [content, List.map_append, List.map_singleton, List.append_assoc]
    refine List.Perm.append_left _ (List.Perm.append_left _ ?_)
    rw [← List.append_assoc]
    exact (List.perm_append_singleton _ _).trans (by rfl)

/-- No task is lost, and none is there twice. -/
theorem Step.content_perm {ps ps' : List (Pool α ρ)} (h : Step workers ps ps') :
    (ps'.flatMap content).Perm (ps.flatMap content) := by
  induction h with
  | head h =>
    rw [List.flatMap_cons, List.flatMap_cons]
    exact h.content_perm.append_right _
  | tail h ih =>
    rw [List.flatMap_cons, List.flatMap_cons]
    exact ih.append_left _

theorem Run.content_perm {ps ps' : List (Pool α ρ)} (h : Run workers ps ps') :
    (ps'.flatMap content).Perm (ps.flatMap content) := by
  induction h with
  | refl => exact List.Perm.refl _
  | tail _ hstep ih => exact hstep.content_perm.trans ih

theorem flatMap_content_start (groups : List (List α)) :
    (start groups : List (Pool α ρ)).flatMap content = groups.flatten := by
  induction groups with
  | nil => rfl
  | cons l groups ih =>
    rw [start, List.map_cons, ← start, List.flatMap_cons, ih, List.flatten_cons]
    simp [content]

theorem Idle.flatMap_content {ps : List (Pool α ρ)} (h : Idle ps) :
    ps.flatMap content = (results ps).map Prod.fst := by
  induction ps with
  | nil => rfl
  | cons p ps ih =>
    obtain ⟨hq, hr⟩ := h p (by simp)
    rw [results, List.flatMap_cons, List.flatMap_cons, ← results, List.map_append,
      ih fun p' hp' => h p' (by simp [hp']), content, hq, hr]
    rfl

/-- **Each task is reported once.** -/
theorem results_perm {groups : List (List α)} {ps : List (Pool α ρ)}
    (h : Run workers (start groups) ps) (hidle : Idle ps) :
    ((results ps).map Prod.fst).Perm groups.flatten := by
  rw [← hidle.flatMap_content, ← flatMap_content_start]
  exact h.content_perm

/-- One worker can do all the tasks of a queue. -/
theorem exists_drained (hw : 0 < workers) (f : α → ρ) (ps : List (Pool α ρ)) (l : List α)
    (d : List (α × ρ)) :
    Run workers (⟨l, [], d⟩ :: ps) (⟨[], [], d ++ l.map fun a => (a, f a)⟩ :: ps) := by
  induction l generalizing d with
  | nil => simpa using Relation.ReflTransGen.refl
  | cons a l ih =>
    have htake : Step workers (⟨a :: l, [], d⟩ :: ps) (⟨l, [a], d⟩ :: ps) := .head (.take hw)
    have hfinish : WorkerStep workers ⟨l, [] ++ a :: [], d⟩ ⟨l, [] ++ [], d ++ [(a, f a)]⟩ :=
      .finish (f a)
    refine Relation.ReflTransGen.head htake (Relation.ReflTransGen.head (.head hfinish) ?_)
    simpa using ih (d ++ [(a, f a)])

theorem Run.cons {p : Pool α ρ} {ps ps' : List (Pool α ρ)} (h : Run workers ps ps') :
    Run workers (p :: ps) (p :: ps') := by
  induction h with
  | refl => exact Relation.ReflTransGen.refl
  | tail _ hstep ih => exact Relation.ReflTransGen.tail ih (.tail hstep)

/-- **Any results can come about.** -/
theorem exists_complete (hw : 0 < workers) (f : α → ρ) (groups : List (List α)) :
    ∃ ps, Run workers (start groups) ps ∧ Idle ps ∧
      results ps = groups.flatten.map fun a => (a, f a) := by
  induction groups with
  | nil => exact ⟨[], Relation.ReflTransGen.refl, by simp [Idle], rfl⟩
  | cons l groups ih =>
    obtain ⟨ps, hrun, hidle, hres⟩ := ih
    refine ⟨⟨[], [], l.map fun a => (a, f a)⟩ :: ps, ?_, ?_, ?_⟩
    · exact (exists_drained hw f _ l []).trans hrun.cons
    · rintro p hp
      rcases List.mem_cons.mp hp with rfl | hp
      · exact ⟨rfl, rfl⟩
      · exact hidle p hp
    · rw [results, List.flatMap_cons, ← results, hres, List.flatten_cons, List.map_append]

end Pool

end ClusterManager
