import Mathlib.Algebra.BigOperators.Group.List.Basic
import Mathlib.Algebra.Order.Ring.Nat
import Mathlib.Data.List.Nodup
import ClusterManager.Lib.Pool
import ClusterManager.Lib.Watch

/-!
# Workers that share a store

A crew is a pool (`ClusterManager.Lib.Pool`) that is seen at its requests: a job is a
program, a worker that is at a job sends one request of it at a time, and between two
requests of one worker any number of requests of others, in its own crew or in another, may
take place. All requests go to one store, which has a cell for each key `k : κ`.

Workers that keep to cells of their own do not notice each other, and the point of this
file is to say what that takes and what follows:

* `Program.ActsOn` is what it takes: each request the job can send is answered from one
  cell of the store and changes no other. It is a property of the program's requests, with
  the rules of a program logic (`ActsOn.bind`, `ActsOn.send`, `ActsOn.forM`);
* `Run.inOrder` is what follows: when the jobs have different cells, a finished run has left
  the store, and each job's result, as the jobs do that are run one after the other;
* `Run.moment` is what holds before that: at any moment of a run, each cell is as its job alone
  leaves it at some moment, so what a job keeps throughout when it is alone it keeps in company;
* `Run.bounded` and `Step.exists` say that all runs come to such an end: every run has a bounded
  number of steps, and one that is not finished has a next step.

A step of a crew is said once, in `Step.advances`: one job goes from one stage of its life to
the next, and nothing else moves. All results are read off from there.
-/

namespace ClusterManager

/-! ### Programs that keep to one cell -/

namespace Program

variable {C : Type} {R : C → Type} {α β κ σ : Type} [DecidableEq κ]

/-- Each request the program can send is answered by `H` from the cell `k` of the store, as
`h` answers it from there, and changes no other cell; what it returns satisfies `Q`. -/
def ActsOn (H : Handler C R (κ → σ)) (h : Handler C R σ) (k : κ) (Q : α → Prop) :
    Program C R α → Prop
  | .done a => Q a
  | .request c next =>
    (∀ st, H st c = ((h (st k) c).1, Function.update st k (h (st k) c).2)) ∧
      ∀ s, (next (h s c).1).ActsOn H h k Q

variable {H : Handler C R (κ → σ)} {h : Handler C R σ} {k : κ} {Q : α → Prop}

theorem ActsOn.send {c : C} {Q : R c → Prop}
    (hc : ∀ st, H st c = ((h (st k) c).1, Function.update st k (h (st k) c).2))
    (hQ : ∀ s, Q (h s c).1) : (Program.send c : Program C R (R c)).ActsOn H h k Q :=
  ⟨hc, hQ⟩

theorem ActsOn.bind {Q' : β → Prop} {p : Program C R α} {f : α → Program C R β}
    (hp : p.ActsOn H h k Q) (hf : ∀ a, Q a → (f a).ActsOn H h k Q') :
    (p >>= f).ActsOn H h k Q' := by
  induction p with
  | done a => exact hf a hp
  | request c next ih => exact ⟨hp.1, fun s => ih _ (hp.2 s)⟩

theorem ActsOn.forM {f : α → Program C R PUnit} {l : List α}
    (hf : ∀ a ∈ l, (f a).ActsOn H h k fun _ => True) :
    (forM l f : Program C R PUnit).ActsOn H h k fun _ => True := by
  induction l with
  | nil => trivial
  | cons a l ih =>
    rw [List.forM_cons]
    exact (hf a (by simp)).bind fun _ _ => ih fun b hb => hf b (by simp [hb])

/-- **It runs on the store as on its cell.** -/
theorem ActsOn.run {p : Program C R α} (hp : p.ActsOn H h k Q) (st : κ → σ) :
    p.run H st = ((p.run h (st k)).1, Function.update st k (p.run h (st k)).2) := by
  induction p generalizing st with
  | done a => exact Prod.ext rfl (Function.update_eq_self k st).symm
  | request c next ih =>
    rw [Program.run, hp.1 st, ih _ (hp.2 _)]
    simp only [Function.update_self, Function.update_idem]
    rfl

end Program

/-! ### Crews and their steps -/

/-- A queue, the jobs that workers are at with what is left of each, and the results. -/
structure Crew (α : Type) (C : Type) (R : C → Type) (ρ : Type) where
  queue : List α
  running : List (α × Program C R ρ) := []
  finished : List (α × ρ) := []

namespace Crew

variable {α C : Type} {R : C → Type} {ρ ω : Type}

/-- What one worker of a crew does. The outcome of a request may depend on the job. -/
inductive WorkerStep (workers : ℕ) (work : α → Program C R ρ) (H : α → Handler C R ω) :
    Crew α C R ρ × ω → Crew α C R ρ × ω → Prop where
  | take {a q r d st} (h : r.length < workers) :
    WorkerStep workers work H (⟨a :: q, r, d⟩, st) (⟨q, (a, work a) :: r, d⟩, st)
  | command {q r₁ a c next r₂ d st} :
    WorkerStep workers work H (⟨q, r₁ ++ (a, .request c next) :: r₂, d⟩, st)
      (⟨q, r₁ ++ (a, next (H a st c).1) :: r₂, d⟩, (H a st c).2)
  | finish {q r₁ a x r₂ d st} :
    WorkerStep workers work H (⟨q, r₁ ++ (a, .done x) :: r₂, d⟩, st)
      (⟨q, r₁ ++ r₂, d ++ [(a, x)]⟩, st)

/-- One step of some crew. -/
inductive Step (workers : ℕ) (work : α → Program C R ρ) (H : α → Handler C R ω) :
    List (Crew α C R ρ) × ω → List (Crew α C R ρ) × ω → Prop where
  | head {y y' ys st st'} (h : WorkerStep workers work H (y, st) (y', st')) :
    Step workers work H (y :: ys, st) (y' :: ys, st')
  | tail {y ys ys' st st'} (h : Step workers work H (ys, st) (ys', st')) :
    Step workers work H (y :: ys, st) (y :: ys', st')

/-- A number of steps. -/
inductive Run (workers : ℕ) (work : α → Program C R ρ) (H : α → Handler C R ω) :
    ℕ → List (Crew α C R ρ) × ω → List (Crew α C R ρ) × ω → Prop where
  | refl (z) : Run workers work H 0 z z
  | tail {n x y z} (h : Run workers work H n x y) (hstep : Step workers work H y z) :
    Run workers work H (n + 1) x z

/-- The crews with all jobs in their queues. -/
def start (groups : List (List α)) : List (Crew α C R ρ) := groups.map fun l => { queue := l }

/-- All workers are idle, with nothing left to take. -/
def Idle (ys : List (Crew α C R ρ)) : Prop := ∀ y ∈ ys, y.queue = [] ∧ y.running = []

/-- All results. -/
def results (ys : List (Crew α C R ρ)) : List (α × ρ) := ys.flatMap finished

/-- The jobs run one after the other: their results, and the store they leave. -/
def inOrder (work : α → Program C R ρ) (H : α → Handler C R ω) : List α → ω → List (α × ρ) × ω
  | [], st => ([], st)
  | a :: l, st =>
    let r := (work a).run (H a) st
    let rest := inOrder work H l r.2
    ((a, r.1) :: rest.1, rest.2)

variable {workers : ℕ} {work : α → Program C R ρ} {H : α → Handler C R ω}

/-! ### A crew is a pool -/

/-- The crew without what is left of its jobs. -/
def pool (y : Crew α C R ρ) : Pool α ρ := ⟨y.queue, y.running.map Prod.fst, y.finished⟩

theorem WorkerStep.pool {y y' : Crew α C R ρ} {st st' : ω}
    (h : WorkerStep workers work H (y, st) (y', st')) :
    y'.pool = y.pool ∨ Pool.WorkerStep workers y.pool y'.pool := by
  cases h with
  | take h => exact Or.inr (.take (by simpa using h))
  | command => exact Or.inl (by simp [Crew.pool])
  | finish =>
    refine Or.inr ?_
    simp only [Crew.pool, List.map_append, List.map_cons]
    exact .finish _

theorem Step.pools {ys ys' : List (Crew α C R ρ)} {st st' : ω}
    (h : Step workers work H (ys, st) (ys', st')) :
    ys'.map Crew.pool = ys.map Crew.pool ∨
      Pool.Step workers (ys.map Crew.pool) (ys'.map Crew.pool) := by
  induction ys generalizing ys' with
  | nil => cases h
  | cons y ys ih =>
    cases h with
    | head h =>
      rcases h.pool with hp | hp
      · exact Or.inl (by rw [List.map_cons, List.map_cons, hp])
      · exact Or.inr (.head hp)
    | tail h =>
      rcases ih h with hp | hp
      · exact Or.inl (by rw [List.map_cons, List.map_cons, hp])
      · exact Or.inr (.tail hp)

/-- **Without the requests, a run of crews is a run of pools.** -/
theorem Run.pools {n : ℕ} {x z : List (Crew α C R ρ) × ω} (h : Run workers work H n x z) :
    Pool.Run workers (x.1.map Crew.pool) (z.1.map Crew.pool) := by
  induction h with
  | refl => exact .refl
  | tail _ hstep ih =>
    rcases Step.pools hstep with hp | hp
    · rw [hp]
      exact ih
    · exact ih.tail hp

theorem map_pool_start (groups : List (List α)) :
    (start groups : List (Crew α C R ρ)).map Crew.pool = Pool.start groups := by
  rw [start, Pool.start, List.map_map]
  rfl

theorem Idle.pools {ys : List (Crew α C R ρ)} (h : Idle ys) : Pool.Idle (ys.map Crew.pool) := by
  intro p hp
  obtain ⟨y, hy, rfl⟩ := List.mem_map.mp hp
  obtain ⟨hq, hr⟩ := h y hy
  exact ⟨hq, by rw [Crew.pool, hr]; rfl⟩

theorem results_pools (ys : List (Crew α C R ρ)) :
    Pool.results (ys.map Crew.pool) = results ys := by
  rw [Pool.results, List.flatMap_map]
  rfl

/-! ### One job goes on -/

/-- The stages of a job. -/
inductive Stage (C : Type) (R : C → Type) (ρ : Type) where
  | queued
  | running (p : Program C R ρ)
  | finished (x : ρ)

/-- The jobs of a crew, each with its stage. -/
def stages (y : Crew α C R ρ) : List (α × Stage C R ρ) :=
  y.queue.map (fun a => (a, .queued)) ++ y.running.map (fun x => (x.1, .running x.2)) ++
    y.finished.map fun x => (x.1, .finished x.2)

/-- A job goes on to its next stage. -/
inductive Advances (work : α → Program C R ρ) (H : α → Handler C R ω) (a : α) :
    Stage C R ρ × ω → Stage C R ρ × ω → Prop where
  | take {st} : Advances work H a (.queued, st) (.running (work a), st)
  | command {c next st} :
    Advances work H a (.running (.request c next), st)
      (.running (next (H a st c).1), (H a st c).2)
  | finish {x st} : Advances work H a (.running (.done x), st) (.finished x, st)

/-- A job goes on, and the others stay where they are. -/
def OneAdvances (work : α → Program C R ρ) (H : α → Handler C R ω) (l l' : List (α × Stage C R ρ))
    (st st' : ω) : Prop :=
  ∃ a g g' rest, Advances work H a (g, st) (g', st') ∧ l.Perm ((a, g) :: rest) ∧
    l'.Perm ((a, g') :: rest)

theorem OneAdvances.append_right {l l' : List (α × Stage C R ρ)} {st st' : ω}
    (h : OneAdvances work H l l' st st') (m : List (α × Stage C R ρ)) :
    OneAdvances work H (l ++ m) (l' ++ m) st st' := by
  obtain ⟨a, g, g', rest, hadv, hl, hl'⟩ := h
  exact ⟨a, g, g', rest ++ m, hadv, hl.append_right m, hl'.append_right m⟩

theorem OneAdvances.append_left {l l' : List (α × Stage C R ρ)} {st st' : ω}
    (h : OneAdvances work H l l' st st') (m : List (α × Stage C R ρ)) :
    OneAdvances work H (m ++ l) (m ++ l') st st' := by
  obtain ⟨a, g, g', rest, hadv, hl, hl'⟩ := h
  exact ⟨a, g, g', m ++ rest, hadv, (hl.append_left m).trans List.perm_middle,
    (hl'.append_left m).trans List.perm_middle⟩

/-- A job that a worker is at, put first. -/
theorem stages_running_perm (q : List α) (r₁ r₂ : List (α × Program C R ρ)) (a : α)
    (p : Program C R ρ) (d : List (α × ρ)) :
    (stages ⟨q, r₁ ++ (a, p) :: r₂, d⟩).Perm ((a, .running p) :: stages ⟨q, r₁ ++ r₂, d⟩) := by
  simp only [stages, List.map_append, List.map_cons, List.append_assoc, List.cons_append]
  exact (List.perm_middle.append_left _).trans List.perm_middle

theorem WorkerStep.advances {y y' : Crew α C R ρ} {st st' : ω}
    (h : WorkerStep workers work H (y, st) (y', st')) :
    OneAdvances work H y.stages y'.stages st st' := by
  cases h with
  | @take a q r d _ h =>
    refine ⟨a, _, _, stages ⟨q, r, d⟩, .take, List.Perm.refl _, ?_⟩
    exact stages_running_perm q [] r a (work a) d
  | @command q r₁ a c next r₂ d =>
    exact ⟨a, .running (.request c next), _, _, .command, stages_running_perm q r₁ r₂ a _ d,
      stages_running_perm q r₁ r₂ a _ d⟩
  | @finish q r₁ a x r₂ d =>
    refine ⟨a, _, _, _, .finish, stages_running_perm q r₁ r₂ a _ d, ?_⟩
    simp only [stages, List.map_append, List.map_cons, List.map_nil]
    rw [← List.append_assoc]
    exact List.perm_append_singleton _ _

/-- **A step takes one job to its next stage**, and moves nothing else. -/
theorem Step.advances {ys ys' : List (Crew α C R ρ)} {st st' : ω}
    (h : Step workers work H (ys, st) (ys', st')) :
    OneAdvances work H (ys.flatMap stages) (ys'.flatMap stages) st st' := by
  induction ys generalizing ys' with
  | nil => cases h
  | cons y ys ih =>
    cases h with
    | head h =>
      rw [List.flatMap_cons, List.flatMap_cons]
      exact h.advances.append_right _
    | tail h =>
      rw [List.flatMap_cons, List.flatMap_cons]
      exact (ih h).append_left _

theorem flatMap_stages_start (groups : List (List α)) :
    (start groups : List (Crew α C R ρ)).flatMap stages =
      groups.flatten.map fun a => (a, .queued) := by
  rw [start, List.flatMap_map, List.map_flatten, List.flatMap_def]
  simp [stages]

theorem Idle.flatMap_stages {ys : List (Crew α C R ρ)} (h : Idle ys) :
    ys.flatMap stages = (results ys).map fun x => (x.1, .finished x.2) := by
  induction ys with
  | nil => rfl
  | cons y ys ih =>
    obtain ⟨hq, hr⟩ := h y (by simp)
    rw [results, List.flatMap_cons, List.flatMap_cons, ← results, List.map_append,
      ih fun y' hy' => h y' (by simp [hy']), stages, hq, hr]
    rfl

/-- No job is lost on the way, and none turns up. -/
theorem Run.jobs_perm {n : ℕ} {x z : List (Crew α C R ρ) × ω} (hrun : Run workers work H n x z) :
    ((z.1.flatMap stages).map Prod.fst).Perm ((x.1.flatMap stages).map Prod.fst) := by
  induction hrun with
  | refl => exact List.Perm.refl _
  | tail _ hstep ih =>
    obtain ⟨a, g, g', rest, -, hperm, hperm'⟩ := Step.advances hstep
    exact ((hperm'.map _).trans (hperm.map Prod.fst).symm).trans ih

/-! ### Jobs with cells of their own -/

section Cells

variable {κ σ : Type} [DecidableEq κ] {cell : α → κ} {H : α → Handler C R (κ → σ)}
  {h : α → Handler C R σ} {st₀ st st' : κ → σ}

variable (work cell h st₀) in
/-- What the job comes to when it is alone: its result and its cell. -/
def alone (a : α) : ρ × σ := (work a).run (h a) (st₀ (cell a))

variable (work cell H h st₀ st) in
/-- The job is where it would be if it were alone. -/
def Undisturbed (a : α) : Stage C R ρ → Prop
  | .queued => st (cell a) = st₀ (cell a)
  | .running p => (p.ActsOn (H a) (h a) (cell a) fun _ => True) ∧
    p.run (h a) (st (cell a)) = alone work cell h st₀ a
  | .finished x => (x, st (cell a)) = alone work cell h st₀ a

variable (work cell h st) in
/-- How many steps the job still takes. -/
def togo (x : α × Stage C R ρ) : ℕ :=
  match x.2 with
  | .queued => ((work x.1).trace (h x.1) (st (cell x.1))).length + 2
  | .running p => (p.trace (h x.1) (st (cell x.1))).length + 1
  | .finished _ => 0

/-- A job sees its own cell only. -/
theorem Undisturbed.congr {a : α} {g : Stage C R ρ} (hu : Undisturbed work cell H h st₀ st a g)
    (hst : st' (cell a) = st (cell a)) : Undisturbed work cell H h st₀ st' a g := by
  cases g with
  | queued => exact hst.trans hu
  | running p =>
    rw [Undisturbed, hst]
    exact hu
  | finished x =>
    rw [Undisturbed, hst]
    exact hu

omit [DecidableEq κ] in
theorem togo_congr {x : α × Stage C R ρ} (hst : st' (cell x.1) = st (cell x.1)) :
    togo work cell h st' x = togo work cell h st x := by
  rw [togo, togo, hst]

/-- **What a job does by going on**: it stays undisturbed, it is one step nearer to its end, and
no cell but its own changes. -/
theorem Advances.undisturbed {a : α} {g g' : Stage C R ρ}
    (hadv : Advances work H a (g, st) (g', st'))
    (hwork : (work a).ActsOn (H a) (h a) (cell a) fun _ => True)
    (hu : Undisturbed work cell H h st₀ st a g) :
    Undisturbed work cell H h st₀ st' a g' ∧
      togo work cell h st' (a, g') + 1 = togo work cell h st (a, g) ∧
        ∀ k, k ≠ cell a → st' k = st k := by
  cases hadv with
  | take =>
    have hcell : st (cell a) = st₀ (cell a) := hu
    refine ⟨⟨hwork, ?_⟩, rfl, fun k _ => rfl⟩
    rw [hcell, alone]
  | @command c next =>
    obtain ⟨⟨hc, hnext⟩, hrun⟩ := hu
    rw [hc st]
    refine ⟨⟨hnext _, ?_⟩, ?_, fun k hk => Function.update_of_ne hk _ _⟩
    · simp only [Function.update_self]
      exact hrun
    · simp only [togo, Program.trace, Function.update_self, List.length_cons]
  | finish => exact ⟨hu.2, rfl, fun k _ => rfl⟩

variable (work cell H h st₀) in
/-- The jobs have different cells and keep to them, each is undisturbed, and the other cells
are as they were. -/
structure Apart (l : List (α × Stage C R ρ)) (st : κ → σ) : Prop where
  nodup : (l.map fun x => cell x.1).Nodup
  acts : ∀ x ∈ l, (work x.1).ActsOn (H x.1) (h x.1) (cell x.1) fun _ => True
  undisturbed : ∀ x ∈ l, Undisturbed work cell H h st₀ st x.1 x.2
  frame : ∀ k, (∀ x ∈ l, cell x.1 ≠ k) → st k = st₀ k

theorem Apart.perm {l l' : List (α × Stage C R ρ)} (hl : Apart work cell H h st₀ l st)
    (hperm : l.Perm l') : Apart work cell H h st₀ l' st where
  nodup := (hperm.map _).nodup_iff.mp hl.nodup
  acts x hx := hl.acts x (hperm.symm.subset hx)
  undisturbed x hx := hl.undisturbed x (hperm.symm.subset hx)
  frame k hk := hl.frame k fun x hx => hk x (hperm.subset hx)

/-- **One job going on disturbs no other**, and the end is one step nearer. -/
theorem Apart.advances {l l' : List (α × Stage C R ρ)} (hl : Apart work cell H h st₀ l st)
    (hadv : OneAdvances work H l l' st st') :
    Apart work cell H h st₀ l' st' ∧
      (l'.map (togo work cell h st')).sum + 1 = (l.map (togo work cell h st)).sum := by
  obtain ⟨a, g, g', rest, hadv, hperm, hperm'⟩ := hadv
  have hapart := hl.perm hperm
  obtain ⟨hu, htogo, hother⟩ := hadv.undisturbed (hapart.acts _ List.mem_cons_self)
    (hapart.undisturbed _ List.mem_cons_self)
  -- the cells of the others are not the one that has changed
  have hrest : ∀ x ∈ rest, st' (cell x.1) = st (cell x.1) := by
    intro x hx
    refine hother _ fun heq => ?_
    have hnot := (List.nodup_cons.mp hapart.nodup).1
    exact hnot (List.mem_map.mpr ⟨x, hx, heq⟩)
  constructor
  · refine Apart.perm ?_ hperm'.symm
    refine ⟨hapart.nodup, ?_, ?_, ?_⟩
    · intro x hx
      rcases List.mem_cons.mp hx with rfl | hx
      · exact hapart.acts (a, g) List.mem_cons_self
      · exact hapart.acts x (List.mem_cons_of_mem _ hx)
    · intro x hx
      rcases List.mem_cons.mp hx with rfl | hx
      · exact hu
      · exact (hapart.undisturbed x (List.mem_cons_of_mem _ hx)).congr (hrest x hx)
    · intro k hk
      rw [hother k (hk _ List.mem_cons_self).symm]
      refine hapart.frame k fun x hx => ?_
      rcases List.mem_cons.mp hx with rfl | hx
      · exact hk (a, g') List.mem_cons_self
      · exact hk x (List.mem_cons_of_mem _ hx)
  · have hsum : (rest.map (togo work cell h st')).sum = (rest.map (togo work cell h st)).sum :=
      congrArg List.sum (List.map_congr_left fun x hx => togo_congr (hrest x hx))
    rw [(hperm.map _).sum_eq, (hperm'.map _).sum_eq, List.map_cons, List.map_cons, List.sum_cons,
      List.sum_cons, hsum]
    omega

theorem Run.apart {n : ℕ} {x z : List (Crew α C R ρ) × (κ → σ)} (hrun : Run workers work H n x z)
    (hx : Apart work cell H h st₀ (x.1.flatMap stages) x.2) :
    Apart work cell H h st₀ (z.1.flatMap stages) z.2 ∧
      ((z.1.flatMap stages).map (togo work cell h z.2)).sum + n =
        ((x.1.flatMap stages).map (togo work cell h x.2)).sum := by
  induction hrun with
  | refl => exact ⟨hx, rfl⟩
  | tail _ hstep ih =>
    obtain ⟨hy, hsum⟩ := ih hx
    obtain ⟨hz, hsum'⟩ := hy.advances (Step.advances hstep)
    exact ⟨hz, by omega⟩

theorem apart_start {groups : List (List α)} (hnodup : (groups.flatten.map cell).Nodup)
    (hacts : ∀ a ∈ groups.flatten, (work a).ActsOn (H a) (h a) (cell a) fun _ => True) :
    Apart work cell H h st₀ ((start groups : List (Crew α C R ρ)).flatMap stages) st₀ := by
  rw [flatMap_stages_start]
  refine ⟨by simpa [Function.comp_def] using hnodup, ?_, ?_, fun k _ => rfl⟩
  · intro x hx
    obtain ⟨a, ha, rfl⟩ := List.mem_map.mp hx
    exact hacts a ha
  · intro x hx
    obtain ⟨a, ha, rfl⟩ := List.mem_map.mp hx
    rfl

/-! ### Any moment of a run -/

variable (work cell H h st₀ st) in
/-- The job is at a moment of its life alone: cutting what is left of it is cutting the whole of it
later. -/
def AtMoment (a : α) : Stage C R ρ → Prop
  | .queued => st (cell a) = st₀ (cell a)
  | .running p => ∃ n, ∀ j, p.runFor (h a) j (st (cell a)) =
    (work a).runFor (h a) (n + j) (st₀ (cell a))
  | .finished _ => ∃ n, st (cell a) = ((work a).runFor (h a) n (st₀ (cell a))).2

omit [DecidableEq κ] in
/-- Its cell is what the job alone has left of it at that moment. -/
theorem AtMoment.exists_cut {a : α} {g : Stage C R ρ} (hg : AtMoment work cell h st₀ st a g) :
    ∃ n, st (cell a) = ((work a).runFor (h a) n (st₀ (cell a))).2 := by
  cases g with
  | queued => exact ⟨0, hg.trans (Program.runFor_zero _).symm⟩
  | running p =>
    obtain ⟨n, hn⟩ := hg
    refine ⟨n, ?_⟩
    rw [← Nat.add_zero n, ← hn 0, Program.runFor_zero]
  | finished x => exact hg

omit [DecidableEq κ] in
theorem AtMoment.congr {a : α} {g : Stage C R ρ} (hg : AtMoment work cell h st₀ st a g)
    (hst : st' (cell a) = st (cell a)) : AtMoment work cell h st₀ st' a g := by
  cases g with
  | queued => exact hst.trans hg
  | running p =>
    rw [AtMoment, hst]
    exact hg
  | finished x =>
    rw [AtMoment, hst]
    exact hg

/-- A job that goes on is at its next moment. -/
theorem Advances.atMoment {a : α} {g g' : Stage C R ρ}
    (hadv : Advances work H a (g, st) (g', st')) (hu : Undisturbed work cell H h st₀ st a g)
    (hg : AtMoment work cell h st₀ st a g) : AtMoment work cell h st₀ st' a g' := by
  cases hadv with
  | take =>
    refine ⟨0, fun j => ?_⟩
    rw [show st (cell a) = st₀ (cell a) from hg, Nat.zero_add]
  | @command c next =>
    obtain ⟨n, hn⟩ := hg
    refine ⟨n + 1, fun j => ?_⟩
    rw [hu.1.1 st]
    dsimp only
    rw [Function.update_self, Nat.add_assoc, Nat.add_comm 1 j, ← hn (j + 1)]
    rfl
  | finish => exact AtMoment.exists_cut (g := .running _) hg

/-- At any moment of a run, each job is at a moment of its life alone. -/
theorem Run.atMoment {n : ℕ} {x z : List (Crew α C R ρ) × (κ → σ)} (hrun : Run workers work H n x z)
    (hx : Apart work cell H h st₀ (x.1.flatMap stages) x.2)
    (hmoment : ∀ y ∈ x.1.flatMap stages, AtMoment work cell h st₀ x.2 y.1 y.2) :
    ∀ y ∈ z.1.flatMap stages, AtMoment work cell h st₀ z.2 y.1 y.2 := by
  induction hrun with
  | refl => exact hmoment
  | tail hbefore hstep ih =>
    obtain ⟨a, g, g', rest, hadv, hperm, hperm'⟩ := Step.advances hstep
    have hapart := (hbefore.apart hx).1.perm hperm
    have hu := hapart.undisturbed _ List.mem_cons_self
    intro y hy
    rcases List.mem_cons.mp (hperm'.subset hy) with rfl | hy
    · exact hadv.atMoment hu (ih hx hmoment _ (hperm.symm.subset List.mem_cons_self))
    · refine (ih hx hmoment y (hperm.symm.subset (List.mem_cons_of_mem _ hy))).congr ?_
      obtain ⟨-, -, hother⟩ := hadv.undisturbed (hapart.acts _ List.mem_cons_self) hu
      exact hother _ fun heq =>
        (List.nodup_cons.mp hapart.nodup).1 (List.mem_map.mpr ⟨y, hy, heq⟩)

/-! ### The runs, and the jobs in order -/

theorem inOrder_results {l : List α} (hnodup : (l.map cell).Nodup)
    (hacts : ∀ a ∈ l, (work a).ActsOn (H a) (h a) (cell a) fun _ => True) (st : κ → σ) :
    (inOrder work H l st).1 = l.map fun a => (a, (alone work cell h st a).1) := by
  induction l generalizing st with
  | nil => rfl
  | cons a l ih =>
    obtain ⟨hnot, hnodup'⟩ := List.nodup_cons.mp hnodup
    rw [inOrder, List.map_cons, ih hnodup' fun b hb => hacts b (List.mem_cons_of_mem _ hb),
      (hacts a List.mem_cons_self).run]
    refine congrArg _ (List.map_congr_left fun b hb => ?_)
    have hne : cell b ≠ cell a := fun heq => hnot (List.mem_map.mpr ⟨b, hb, heq⟩)
    simp only [alone, Function.update_of_ne hne]

/-- In order, too, a cell is left by its own job. -/
theorem inOrder_store {l : List α} (hnodup : (l.map cell).Nodup)
    (hacts : ∀ a ∈ l, (work a).ActsOn (H a) (h a) (cell a) fun _ => True) (st : κ → σ) :
    (∀ a ∈ l, (inOrder work H l st).2 (cell a) = (alone work cell h st a).2) ∧
      ∀ k, (∀ a ∈ l, cell a ≠ k) → (inOrder work H l st).2 k = st k := by
  induction l generalizing st with
  | nil => exact ⟨nofun, fun k _ => rfl⟩
  | cons a l ih =>
    obtain ⟨hnot, hnodup'⟩ := List.nodup_cons.mp hnodup
    have hne : ∀ b ∈ l, cell b ≠ cell a := fun b hb heq => hnot (List.mem_map.mpr ⟨b, hb, heq⟩)
    rw [inOrder, (hacts a List.mem_cons_self).run]
    obtain ⟨hcells, hframe⟩ := ih hnodup' (fun b hb => hacts b (List.mem_cons_of_mem _ hb))
      (Function.update st (cell a) (alone work cell h st a).2)
    constructor
    · intro b hb
      rcases List.mem_cons.mp hb with rfl | hb
      · exact (hframe _ hne).trans (Function.update_self _ _ _)
      · refine (hcells b hb).trans ?_
        rw [alone, Function.update_of_ne (hne b hb), alone]
    · intro k hk
      refine (hframe k fun b hb => hk b (List.mem_cons_of_mem _ hb)).trans ?_
      exact Function.update_of_ne (hk a List.mem_cons_self).symm _ _

section Finished

variable {groups : List (List α)} {n : ℕ} {z : List (Crew α C R ρ) × (κ → σ)}
  (hnodup : (groups.flatten.map cell).Nodup)
  (hacts : ∀ a ∈ groups.flatten, (work a).ActsOn (H a) (h a) (cell a) fun _ => True)

include hnodup hacts

/-- **The number of steps is bounded.** -/
theorem Run.bounded (hrun : Run workers work H n (start groups, st₀) z) :
    n ≤ ((start groups).flatMap stages |>.map (togo work cell h st₀)).sum := by
  obtain ⟨-, hsum⟩ := hrun.apart (apart_start hnodup hacts)
  exact hsum ▸ Nat.le_add_left n _

/-- **A moment of a run is, cell by cell, a moment of the jobs alone.** -/
theorem Run.moment (hrun : Run workers work H n (start groups, st₀) z) :
    (∀ a ∈ groups.flatten, ∃ k, z.2 (cell a) = ((work a).runFor (h a) k (st₀ (cell a))).2) ∧
      ∀ k, (∀ a ∈ groups.flatten, cell a ≠ k) → z.2 k = st₀ k := by
  have hstart : Apart work cell H h st₀ ((start groups).flatMap stages) st₀ :=
    apart_start hnodup hacts
  have hjobs := hrun.jobs_perm
  rw [flatMap_stages_start, List.map_map] at hjobs
  have hmoments := hrun.atMoment hstart fun y hy => by
    rw [flatMap_stages_start] at hy
    obtain ⟨a, -, rfl⟩ := List.mem_map.mp hy
    rfl
  constructor
  · intro a ha
    obtain ⟨y, hy, rfl⟩ := List.mem_map.mp (hjobs.symm.subset (by simpa using ha))
    exact AtMoment.exists_cut (hmoments y hy)
  · intro k hk
    refine (hrun.apart hstart).1.frame k fun y hy => hk y.1 ?_
    simpa using hjobs.subset (List.mem_map_of_mem hy)

/-- **A finished run has left what the jobs leave in order**, in whatever order. -/
theorem Run.inOrder {tasks : List α} (hperm : groups.flatten.Perm tasks)
    (hrun : Run workers work H n (start groups, st₀) z) (hidle : Idle z.1) :
    (results z.1).Perm (inOrder work H tasks st₀).1 ∧ z.2 = (inOrder work H tasks st₀).2 := by
  obtain ⟨hapart, -⟩ := hrun.apart (apart_start hnodup hacts)
  rw [hidle.flatMap_stages] at hapart
  have hnodup' := (hperm.map cell).nodup_iff.mp hnodup
  have hacts' := fun a ha => hacts a (hperm.symm.subset ha)
  have hdone : ∀ x ∈ results z.1, (x.2, z.2 (cell x.1)) = alone work cell h st₀ x.1 := fun x hx =>
    hapart.undisturbed _ (List.mem_map_of_mem hx)
  have hjobs : ((results z.1).map Prod.fst).Perm tasks := by
    have hpool := hrun.pools
    rw [map_pool_start] at hpool
    rw [← results_pools]
    exact (Pool.results_perm hpool hidle.pools).trans hperm
  constructor
  · have hres : results z.1 =
        ((results z.1).map Prod.fst).map fun a => (a, (alone work cell h st₀ a).1) := by
      rw [List.map_map]
      refine (List.map_id _).symm.trans (List.map_congr_left fun x hx => ?_)
      exact Prod.ext rfl (congrArg Prod.fst (hdone x hx))
    rw [inOrder_results hnodup' hacts', hres]
    exact hjobs.map _
  · obtain ⟨hcells, hframe⟩ := inOrder_store hnodup' hacts' st₀
    funext k
    by_cases hk : ∃ a ∈ tasks, cell a = k
    · obtain ⟨a, ha, rfl⟩ := hk
      obtain ⟨x, hx, rfl⟩ := List.mem_map.mp (hjobs.symm.subset ha)
      exact (congrArg Prod.snd (hdone x hx)).trans (hcells x.1 ha).symm
    · have hno : ∀ a ∈ tasks, cell a ≠ k := fun a ha heq => hk ⟨a, ha, heq⟩
      rw [hframe k hno]
      refine hapart.frame k fun x hx => ?_
      obtain ⟨r, hr, rfl⟩ := List.mem_map.mp hx
      exact hno r.1 (hjobs.subset (List.mem_map_of_mem hr))

end Finished

end Cells

/-- A worker can go on, unless all are idle. -/
theorem WorkerStep.exists (hw : 0 < workers) {y : Crew α C R ρ}
    (hy : ¬ (y.queue = [] ∧ y.running = [])) (st : ω) :
    ∃ y' st', WorkerStep workers work H (y, st) (y', st') := by
  obtain ⟨queue, running, finished⟩ := y
  cases running with
  | cons x r =>
    obtain ⟨a, p⟩ := x
    cases p with
    | done x =>
      have hstep : WorkerStep workers work H (⟨queue, [] ++ (a, .done x) :: r, finished⟩, st)
          (⟨queue, [] ++ r, finished ++ [(a, x)]⟩, st) := .finish
      exact ⟨_, _, hstep⟩
    | request c next =>
      have hstep : WorkerStep workers work H
        (⟨queue, [] ++ (a, .request c next) :: r, finished⟩, st)
          (⟨queue, [] ++ (a, next (H a st c).1) :: r, finished⟩, (H a st c).2) := .command
      exact ⟨_, _, hstep⟩
  | nil =>
    cases queue with
    | nil => exact absurd ⟨rfl, rfl⟩ hy
    | cons a q => exact ⟨_, _, .take hw⟩

/-- **A run that is not finished goes on.** -/
theorem Step.exists (hw : 0 < workers) {ys : List (Crew α C R ρ)} (hys : ¬ Idle ys) (st : ω) :
    ∃ z, Step workers work H (ys, st) z := by
  induction ys with
  | nil => exact absurd nofun hys
  | cons y ys ih =>
    by_cases hy : y.queue = [] ∧ y.running = []
    · have hrest : ¬ Idle ys := by
        intro hidle
        refine hys fun y' hy' => ?_
        rcases List.mem_cons.mp hy' with rfl | hy'
        · exact hy
        · exact hidle y' hy'
      obtain ⟨⟨ys', st'⟩, hstep⟩ := ih hrest
      exact ⟨_, .tail hstep⟩
    · obtain ⟨y', st', hstep⟩ := WorkerStep.exists hw hy st
      exact ⟨_, .head hstep⟩

/-- **A run can be finished.** -/
theorem Run.exists_idle {κ σ : Type} [DecidableEq κ] {cell : α → κ} {H : α → Handler C R (κ → σ)}
    {h : α → Handler C R σ} {groups : List (List α)} (hw : 0 < workers)
    (hnodup : (groups.flatten.map cell).Nodup)
    (hacts : ∀ a ∈ groups.flatten, (work a).ActsOn (H a) (h a) (cell a) fun _ => True)
    (st : κ → σ) : ∃ n z, Run workers work H n (start groups, st) z ∧ Idle z.1 := by
  by_contra hnone
  push Not at hnone
  -- otherwise there are runs of any length
  have hlong : ∀ n, ∃ z, Run workers work H n (start groups, st) z := by
    intro n
    induction n with
    | zero => exact ⟨_, .refl _⟩
    | succ n ih =>
      obtain ⟨z, hrun⟩ := ih
      obtain ⟨z', hstep⟩ := Step.exists (H := H) hw (hnone n z hrun) z.2
      exact ⟨z', hrun.tail hstep⟩
  obtain ⟨z, hrun⟩ := hlong
    (((start groups).flatMap stages |>.map (togo work cell h st)).sum + 1)
  exact Nat.not_succ_le_self _ (hrun.bounded hnodup hacts)

end Crew

end ClusterManager
