import Mathlib.Data.List.Count
import Mathlib.Data.List.TakeWhile
import ClusterManager.Lib.Watch
import ClusterManager.Pipeline

/-!
# What a pipeline calls

A run of a pipeline calls the actions of its steps, some of them several times, and when a
step fails for good it calls what undoes the steps before it. This file says which calls
these are, and in which order.

The steps are watched (`Step.watched`): each call says that it begins, and how it has
ended. `Pipeline.erase_run` says that the watched pipeline is the pipeline, its remarks
apart. `Called` is the shape of what a run calls, read off the two loops and the loop
backwards, and `called_runFrom` that every run that returns has it. What is asked of a run
(`Disciplined`) is then a matter of lists.
-/

namespace ClusterManager

/-- A call of a pipeline, by the number of the step. -/
inductive Call where
  | act (i : ℕ)
  | undo (i : ℕ)
  deriving DecidableEq, Repr

/-- What is said of a pipeline. -/
inductive Remark where
  | begins (c : Call)
  | ends (c : Call) (ok : Bool)
  /-- The process dies. -/
  | dies
  deriving DecidableEq, Repr

/-- What is written down of a pipeline. -/
abbrev Log (C : Type) := List (Watched C Remark)

variable {C : Type} {R : C → Type} {μ σ : Type}

/-- The step, with remarks on each call of it. -/
def Step.watched (step : Step C R μ) (i : ℕ) : Step (Watched C Remark) (Watched.Reply R) μ where
  name := step.name
  action := step.action.watch (.begins (.act i)) (.ends (.act i))
  undo := step.undo.map fun undo => undo.watch (.begins (.undo i)) (.ends (.undo i))
  retry := step.retry

def Persister.watched (persist : Persister C R) :
    Persister (Watched C Remark) (Watched.Reply R) where
  savePipelineStep p n := (persist.savePipelineStep p n).watched
  startPipelineStep p n := (persist.startPipelineStep p n).watched
  failPipelineStep p n := (persist.failPipelineStep p n).watched
  loadPipelineSteps p := (persist.loadPipelineSteps p).watched
  deletePipeline p := (persist.deletePipeline p).watched

/-- Steps with their numbers, watched. -/
def watchAll (l : List (Step C R μ × ℕ)) : List (Step (Watched C Remark) (Watched.Reply R) μ) :=
  l.map fun x => x.1.watched x.2

theorem watchAll_cons (x : Step C R μ × ℕ) (l : List (Step C R μ × ℕ)) :
    watchAll (x :: l) = x.1.watched x.2 :: watchAll l := rfl

namespace Pipeline

variable (p : Pipeline C R μ)

/-- The pipeline, with remarks on each call of a step. -/
def watched : Pipeline (Watched C Remark) (Watched.Reply R) μ where
  name := p.name
  steps := watchAll p.steps.zipIdx
  completed := p.completed
  persist := p.persist.map Persister.watched

/-! ### Watching a pipeline changes nothing -/

theorem erase_tell {f : Persister (Watched C Remark) (Watched.Reply R) → String →
      Program (Watched C Remark) (Watched.Reply R) (Except String Unit)}
    {g : Persister C R → String → Program C R (Except String Unit)}
    (hfg : ∀ persist name, f persist.watched name = (g persist name).watched) :
    (p.watched.tell f).erase = p.tell g := by
  rw [tell, tell]
  cases hp : p.persist with
  | none => simp [watched, hp]
  | some persist =>
    simp only [watched, hp, Option.map_some, hfg]
    rw [Session.erase_bind, Session.erase_lift, Program.erase_watched]
    rfl

theorem erase_attempt (step : Step C R μ) (i n : ℕ) (err : String) :
    (attempt (step.watched i) n err).erase = attempt step n err := by
  induction n generalizing err with
  | zero => rfl
  | succ n ih =>
    rw [attempt, attempt, Session.erase_bind, Session.erase_reflect, Step.watched,
      Session.erase_watch]
    refine congrArg (step.action.reflect >>= ·) (funext fun r => ?_)
    rcases r with (err | err) | _
    · exact ih err
    · rfl
    · rfl

theorem erase_executeStep (step : Step C R μ) (i : ℕ) :
    (executeStep (step.watched i)).erase = executeStep step := by
  rw [executeStep, executeStep, Session.erase_bind]
  refine (congrArg (· >>= _) (erase_attempt step i _ "")).trans
    (congrArg (attempt step (step.retry + 1).toNat "" >>= ·) (funext fun r => ?_))
  cases r <;> rfl

theorem erase_rollback (passed : List (Step C R μ × ℕ)) (completed : String → Bool) :
    (p.watched.rollback (watchAll passed) completed).erase =
      p.rollback (passed.map Prod.fst) completed := by
  induction passed generalizing completed with
  | nil => rfl
  | cons x passed ih =>
    rw [List.map_cons, watchAll, List.map_cons, rollback, rollback, Step.watched]
    cases hundo : x.1.undo with
    | none => exact ih completed
    | some undo =>
      simp only [Option.map_some]
      rw [Session.erase_bind, Session.erase_reflect, Session.erase_watch]
      refine congrArg (undo.reflect >>= ·) (funext fun r => ?_)
      have hrest : (do
          p.watched.tell fun persist => persist.deletePipeline
          p.watched.rollback (watchAll passed)
            (Function.update completed x.1.name false)).erase = (do
          p.tell fun persist => persist.deletePipeline
          p.rollback (passed.map Prod.fst) (Function.update completed x.1.name false)) := by
        rw [Session.erase_bind, p.erase_tell fun _ _ => rfl]
        exact congrArg _ (funext fun _ => ih _)
      rcases r with (err | err) | _
      · exact hrest
      · rfl
      · exact hrest

theorem erase_runFrom (passed rest : List (Step C R μ × ℕ)) (completed : String → Bool) :
    (p.watched.runFrom (watchAll passed) (watchAll rest) completed).erase =
      p.runFrom (passed.map Prod.fst) (rest.map Prod.fst) completed := by
  induction rest generalizing passed completed with
  | nil => rfl
  | cons x rest ih =>
    rw [List.map_cons, watchAll, watchAll, List.map_cons, runFrom, runFrom]
    by_cases hdone : completed x.1.name
    · rw [if_pos hdone, if_pos (show completed (x.1.watched x.2).name from hdone)]
      exact ih (x :: passed) completed
    · rw [if_neg hdone, if_neg (show ¬ completed (x.1.watched x.2).name from hdone)]
      rw [Session.erase_bind, p.erase_tell fun _ _ => rfl]
      refine congrArg _ (funext fun _ => ?_)
      rw [Session.erase_bind, erase_executeStep]
      refine congrArg (executeStep x.1 >>= ·) (funext fun r => ?_)
      rcases r with err | _
      · show Session.erase (_ >>= _) = _
        rw [Session.erase_bind, p.erase_tell fun _ _ => rfl]
        refine congrArg _ (funext fun _ => ?_)
        rw [Session.erase_bind]
        exact congrArg (· >>= _) (p.erase_rollback passed completed)
      · show Session.erase (_ >>= _) = _
        rw [Session.erase_bind, p.erase_tell fun _ _ => rfl]
        exact congrArg _ (funext fun _ => ih (x :: passed) _)

/-- **The watched pipeline is the pipeline**, its remarks apart. -/
theorem erase_run : p.watched.run.erase = p.run := by
  have h := p.erase_runFrom [] p.steps.zipIdx p.completed
  rwa [List.map_nil, List.zipIdx_map_fst] at h

end Pipeline

/-! ### The calls of a run -/

/-- The calls that have ended, each with whether it has succeeded. -/
def calls : Log C → List (Call × Bool) :=
  List.filterMap fun
    | .mark (.ends c ok) => some (c, ok)
    | _ => none

@[simp] theorem calls_append (l l' : Log C) : calls (l ++ l') = calls l ++ calls l' :=
  List.filterMap_append

@[simp] theorem calls_cmds (cs : List C) : calls (cs.map Watched.cmd) = [] := by
  simp [calls]

/-- What one call adds. -/
theorem calls_call (log : Log C) (c : Call) (ok : Bool) (cs : List C) :
    calls (log ++ .mark (.begins c) :: (cs.map Watched.cmd ++ [.mark (.ends c ok)])) =
      calls log ++ [(c, ok)] := by
  rw [calls_append]
  refine congrArg (calls log ++ ·) ?_
  show calls (cs.map Watched.cmd ++ [.mark (.ends c ok)]) = _
  rw [calls_append, calls_cmds]
  rfl

/-- The calls that undo steps, for those of them that can be undone. -/
def undone (passed : List (Step C R μ × ℕ)) : List Call :=
  (passed.filter fun x => x.1.undo.isSome).map fun x => .undo x.2

/-- What is called when the steps `rest` are run, after the steps `passed`, and whether the
run succeeds. -/
inductive Called : List (Step C R μ × ℕ) → List (Step C R μ × ℕ) → (String → Bool) →
    List (Call × Bool) → Bool → Prop
  | nil {passed : List (Step C R μ × ℕ)} {completed : String → Bool} :
      Called passed [] completed [] true
  | skip {x : Step C R μ × ℕ} {passed rest : List (Step C R μ × ℕ)} {completed : String → Bool}
      {l : List (Call × Bool)} {ok : Bool} (hskip : completed x.1.name)
      (hrest : Called (x :: passed) rest completed l ok) :
      Called passed (x :: rest) completed l ok
  | step {x : Step C R μ × ℕ} {passed rest : List (Step C R μ × ℕ)} {completed : String → Bool}
      {l : List (Call × Bool)} {ok : Bool} {k : ℕ} (hnot : ¬ completed x.1.name)
      (hk : k < (x.1.retry + 1).toNat)
      (hrest : Called (x :: passed) rest (Function.update completed x.1.name true) l ok) :
      Called passed (x :: rest) completed
        (List.replicate k (.act x.2, false) ++ (.act x.2, true) :: l) ok
  | fail {x : Step C R μ × ℕ} {passed rest : List (Step C R μ × ℕ)} {completed : String → Bool}
      {undos : List (Call × Bool)} (hnot : ¬ completed x.1.name)
      (hundos : undos.map Prod.fst = undone passed) :
      Called passed (x :: rest) completed
        (List.replicate (x.1.retry + 1).toNat (.act x.2, false) ++ undos) false

namespace Pipeline

variable {H : Handler C R σ} {p : Pipeline C R μ} {m m' : μ} {w w' : σ × Log C}

section Told

variable {f : Persister (Watched C Remark) (Watched.Reply R) → String →
    Program (Watched C Remark) (Watched.Reply R) (Except String Unit)}
  (hf : ∀ (persist : Persister C R) name, ∃ q : Program C R (Except String Unit),
    f persist.watched name = q.watched)

include hf

/-- What is written down when the persister is told something: requests only. -/
theorem log_told : ∃ cs : List C, (p.watched.told H.watch f w).2 = w.2 ++ cs.map Watched.cmd := by
  rw [told]
  cases hp : p.persist with
  | none => exact ⟨[], by simp [watched, hp]⟩
  | some persist =>
    obtain ⟨q, hq⟩ := hf persist p.name
    obtain ⟨cs, hcs⟩ := Program.run_watched H q w.1 w.2
    refine ⟨cs, ?_⟩
    simp only [watched, hp, Option.map_some, hq]
    rw [show w = (w.1, w.2) from rfl, hcs]

/-- Being told of something is not a call. -/
theorem calls_told : calls (p.watched.told H.watch f w).2 = calls w.2 := by
  obtain ⟨cs, hcs⟩ := log_told (H := H) (p := p) (w := w) hf
  rw [hcs, calls_append, calls_cmds, List.append_nil]

end Told

theorem calls_attempt {step : Step C R μ} {i n : ℕ} {err : String} {r : Except String PUnit}
    (h : Session.exec H.watch (attempt (step.watched i) n err) m w =
      ((.ok r, m'), w')) :
    (∃ k < n, r = .ok ⟨⟩ ∧
      calls w'.2 = calls w.2 ++ (List.replicate k (.act i, false) ++ [(.act i, true)])) ∨
    (∃ e, r = .error e ∧ calls w'.2 = calls w.2 ++ List.replicate n (.act i, false)) := by
  induction n generalizing err m w with
  | zero =>
    cases h
    exact Or.inr ⟨err, rfl, by simp⟩
  | succ n ih =>
    obtain ⟨w, log⟩ := w
    obtain ⟨cs, hcs⟩ := Session.exec_watch H (.begins (.act i)) (.ends (.act i)) step.action m w log
    rw [attempt, Session.exec_bind, Session.exec_reflect] at h
    simp only [Step.watched] at h
    rcases hr : Session.exec H step.action m w with ⟨⟨(e | e) | _, m₁⟩, w₁⟩
    · rw [hr] at hcs
      rw [hcs] at h
      have hone := calls_call log (.act i) false cs
      -- one more failure before what the other tries do
      rcases ih h with ⟨k, hk, hok, hcalls⟩ | ⟨e', herr, hcalls⟩
      · refine Or.inl ⟨k + 1, by omega, hok, ?_⟩
        rw [hcalls, Except.isOk, Except.toBool, hone, List.replicate_succ]
        simp
      · refine Or.inr ⟨e', herr, ?_⟩
        rw [hcalls, Except.isOk, Except.toBool, hone, List.replicate_succ]
        simp
    · rw [hr] at hcs
      rw [hcs] at h
      cases h
    · rw [hr] at hcs
      rw [hcs] at h
      cases h
      exact Or.inl ⟨0, by omega, rfl, calls_call log (.act i) true cs⟩

theorem calls_executeStep {step : Step C R μ} {i : ℕ} {r : Except String PUnit}
    (h : Session.exec H.watch (executeStep (step.watched i)) m w =
      ((.ok r, m'), w')) :
    (∃ k < (step.retry + 1).toNat, r = .ok ⟨⟩ ∧
      calls w'.2 = calls w.2 ++ (List.replicate k (.act i, false) ++ [(.act i, true)])) ∨
    (∃ e, r = .error e ∧
      calls w'.2 = calls w.2 ++ List.replicate (step.retry + 1).toNat (.act i, false)) := by
  obtain ⟨r₁, m₁, w₁, hattempt, hrest⟩ := Session.exec_bind_ok h
  rcases calls_attempt hattempt with ⟨k, hk, rfl, hcalls⟩ | ⟨e, rfl, hcalls⟩
  · cases hrest
    exact Or.inl ⟨k, hk, rfl, hcalls⟩
  · cases hrest
    exact Or.inr ⟨_, rfl, hcalls⟩

theorem calls_rollback {passed : List (Step C R μ × ℕ)} {completed completed' : String → Bool}
    (h : Session.exec H.watch (p.watched.rollback (watchAll passed) completed) m w =
      ((.ok completed', m'), w')) :
    ∃ undos, calls w'.2 = calls w.2 ++ undos ∧ undos.map Prod.fst = undone passed := by
  induction passed generalizing completed m w with
  | nil =>
    cases h
    exact ⟨[], by simp, rfl⟩
  | cons x passed ih =>
    obtain ⟨w, log⟩ := w
    rw [watchAll, List.map_cons, rollback, Step.watched] at h
    cases hundo : x.1.undo with
    | none =>
      simp only [hundo, Option.map_none] at h
      obtain ⟨undos, hcalls, hundos⟩ := ih h
      exact ⟨undos, hcalls, by rw [hundos, undone, undone, List.filter_cons]; simp [hundo]⟩
    | some undo =>
      simp only [hundo, Option.map_some] at h
      obtain ⟨cs, hcs⟩ := Session.exec_watch H (.begins (.undo x.2))
        (.ends (.undo x.2)) undo m w log
      -- whether the undo has succeeded or not, the others follow
      have hrest : ∀ ok m₁ w₁, Session.exec H.watch (do
            p.watched.tell fun persist => persist.deletePipeline
            p.watched.rollback (watchAll passed) (Function.update completed x.1.name false)) m₁
          (w₁, log ++ .mark (.begins (.undo x.2)) ::
            (cs.map Watched.cmd ++ [.mark (.ends (.undo x.2) ok)])) =
              ((.ok completed', m'), w') →
          ∃ undos, calls w'.2 = calls log ++ undos ∧ undos.map Prod.fst = undone (x :: passed) := by
        intro ok m₁ w₁ hrest
        rw [Session.exec_bind, exec_tell] at hrest
        obtain ⟨undos, hcalls, hundos⟩ := ih hrest
        refine ⟨(.undo x.2, ok) :: undos, ?_, ?_⟩
        · rw [hcalls, calls_told fun persist name => ⟨persist.deletePipeline name, rfl⟩, calls_call]
          simp
        · rw [List.map_cons, hundos, undone, undone, List.filter_cons]
          simp [hundo]
      rw [Session.exec_bind, Session.exec_reflect, hcs] at h
      rcases hr : Session.exec H undo m w with ⟨⟨(e | e) | _, m₁⟩, w₁⟩
      · rw [hr] at h
        exact hrest _ _ _ h
      · rw [hr] at h
        cases h
      · rw [hr] at h
        exact hrest _ _ _ h

/-- **What a run calls.** -/
theorem called_runFrom {passed rest : List (Step C R μ × ℕ)} {completed completed' : String → Bool}
    {r : Except String PUnit}
    (h : Session.exec H.watch (p.watched.runFrom (watchAll passed) (watchAll rest) completed) m w =
      ((.ok (r, completed'), m'), w')) :
    ∃ l, calls w'.2 = calls w.2 ++ l ∧ Called passed rest completed l r.isOk := by
  induction rest generalizing passed completed m w with
  | nil =>
    cases h
    exact ⟨[], by simp, .nil⟩
  | cons x rest ih =>
    by_cases hdone : completed x.1.name
    · rw [watchAll_cons, runFrom, if_pos (show completed (x.1.watched x.2).name from hdone),
        ← watchAll_cons] at h
      obtain ⟨l, hcalls, hcalled⟩ := ih h
      exact ⟨l, hcalls, .skip hdone hcalled⟩
    · rw [watchAll_cons, exec_runFrom_step (show ¬ completed (x.1.watched x.2).name from hdone),
        ← watchAll_cons] at h
      have hstarted : calls (p.watched.started H.watch (x.1.watched x.2) w).2 = calls w.2 :=
        calls_told fun persist name => ⟨persist.startPipelineStep name x.1.name, rfl⟩
      rcases hexec : Session.exec H.watch (executeStep (x.1.watched x.2)) m
        (p.watched.started H.watch (x.1.watched x.2) w) with ⟨⟨e | r₁, m₁⟩, w₁⟩
      · rw [hexec] at h
        cases h
      rw [hexec] at h
      rcases calls_executeStep hexec with ⟨k, hk, rfl, hcalls⟩ | ⟨e, rfl, hcalls⟩
      · have hsaved : calls (p.watched.saved H.watch (x.1.watched x.2) w₁).2 = calls w₁.2 :=
          calls_told fun persist name => ⟨persist.savePipelineStep name x.1.name, rfl⟩
        obtain ⟨l, hl, hcalled⟩ := ih h
        refine ⟨_, ?_, .step hdone hk hcalled⟩
        rw [hl, hsaved, hcalls, hstarted]
        simp
      · obtain ⟨completed₂, m₂, w₂, hback, hret⟩ := Session.exec_bind_ok h
        obtain ⟨undos, hundo, hundos⟩ := calls_rollback hback
        have hfailed : calls (p.watched.failed H.watch (x.1.watched x.2) w₁).2 = calls w₁.2 :=
          calls_told fun persist name => ⟨persist.failPipelineStep name x.1.name, rfl⟩
        cases hret
        refine ⟨_, ?_, .fail hdone hundos⟩
        rw [hundo, hfailed, hcalls, hstarted]
        simp

end Pipeline

/-! ### What follows for a run -/

/-- The steps that are tried, one entry for each try. -/
def tried : List (Call × Bool) → List ℕ :=
  List.filterMap fun
    | (.act i, _) => some i
    | (.undo _, _) => none

@[simp] theorem tried_append (l l' : List (Call × Bool)) : tried (l ++ l') = tried l ++ tried l' :=
  List.filterMap_append

@[simp] theorem tried_replicate (n i : ℕ) (ok : Bool) :
    tried (List.replicate n (.act i, ok)) = List.replicate n i := by
  simp [tried]

@[simp] theorem tried_act (i : ℕ) (ok : Bool) (l : List (Call × Bool)) :
    tried ((.act i, ok) :: l) = i :: tried l := rfl

theorem mem_tried {l : List (Call × Bool)} {i : ℕ} : i ∈ tried l ↔ ∃ ok, (.act i, ok) ∈ l := by
  rw [tried, List.mem_filterMap]
  constructor
  · rintro ⟨⟨_ | _, ok⟩, hmem, hi⟩
    · cases hi
      exact ⟨ok, hmem⟩
    · cases hi
  · rintro ⟨ok, hmem⟩
    exact ⟨_, hmem, rfl⟩

/-- Undoing steps tries none. -/
theorem notMem_of_undone {undos : List (Call × Bool)} {passed : List (Step C R μ × ℕ)}
    (h : undos.map Prod.fst = undone passed) (i : ℕ) (ok : Bool) : (.act i, ok) ∉ undos := by
  intro hmem
  have hact : Call.act i ∈ undone passed := h ▸ List.mem_map.mpr ⟨_, hmem, rfl⟩
  obtain ⟨x, -, hx⟩ := List.mem_map.mp hact
  cases hx

theorem tried_of_undone {undos : List (Call × Bool)} {passed : List (Step C R μ × ℕ)}
    (h : undos.map Prod.fst = undone passed) : tried undos = [] := by
  refine List.eq_nil_iff_forall_not_mem.mpr fun i hi => ?_
  obtain ⟨ok, hmem⟩ := mem_tried.mp hi
  exact notMem_of_undone h i ok hmem

/-- The numbers of the steps before `i` that can be undone. -/
def Pipeline.undoable (p : Pipeline C R μ) (i : ℕ) : List ℕ :=
  (List.range i).filter fun j => (p.steps[j]?.bind Step.undo).isSome

/-- What is asked of the calls of a run that returns `r`. -/
structure Disciplined (p : Pipeline C R μ) (l : List (Call × Bool))
    (r : Except String PUnit.{1}) : Prop where
  /-- The actions are tried in the order of the steps. -/
  ordered : (tried l).Pairwise (· ≤ ·)
  /-- A step that was completed is skipped. -/
  skipped : ∀ i ∈ tried l, ∃ step, p.steps[i]? = some step ∧ ¬ p.completed step.name
  /-- No other step is. -/
  notSkipped : ∀ i ∈ tried l, ∀ j ≤ i, ∀ step, p.steps[j]? = some step →
    ¬ p.completed step.name → j ∈ tried l
  retries : ∀ i step, p.steps[i]? = some step → (tried l).count i ≤ (step.retry + 1).toNat
  /-- A step is not tried again after its first success. -/
  once : l.Pairwise fun a b => ∀ i, a = (.act i, true) → b.1 ≠ .act i
  succeeds_iff : r = .ok ⟨⟩ ↔ ∀ i step, p.steps[i]? = some step → ¬ p.completed step.name →
    (.act i, true) ∈ l
  /-- When a step has failed for good, the steps before it that can be undone are undone, the
  last one first, and nothing else is called. -/
  undoes : ∀ i step, p.steps[i]? = some step → (.act i, false) ∈ l →
    l.count (.act i, false) = (step.retry + 1).toNat →
    ∃ acts undos, l = acts ++ undos ∧ (∀ c ∈ acts, ∃ j ok, c = (.act j, ok)) ∧
      undos.map Prod.fst = (p.undoable i).reverse.map .undo

namespace Called

variable {passed rest : List (Step C R μ × ℕ)} {completed : String → Bool}
  {l : List (Call × Bool)} {ok : Bool}

theorem mem_rest (h : Called passed rest completed l ok) {i : ℕ} (hi : i ∈ tried l) :
    ∃ x ∈ rest, x.2 = i ∧ ¬ completed x.1.name := by
  induction h with
  | nil => cases hi
  | skip _ _ ih =>
    obtain ⟨y, hy, hyi, hnot⟩ := ih hi
    exact ⟨y, List.mem_cons_of_mem _ hy, hyi, hnot⟩
  | @step x passed rest completed l ok k hnot _ _ ih =>
    rw [tried_append, tried_replicate, tried_act, List.mem_append, List.mem_cons] at hi
    rcases hi with hi | rfl | hi
    · exact ⟨x, List.mem_cons_self, (List.eq_of_mem_replicate hi).symm, hnot⟩
    · exact ⟨x, List.mem_cons_self, rfl, hnot⟩
    · obtain ⟨y, hy, hyi, hynot⟩ := ih hi
      refine ⟨y, List.mem_cons_of_mem _ hy, hyi, fun hdone => hynot ?_⟩
      by_cases hname : y.1.name = x.1.name
      · rw [hname, Function.update_self]
      · rwa [Function.update_of_ne hname]
  | @fail x _ _ _ undos hnot hundos =>
    rw [tried_append, tried_replicate, tried_of_undone hundos, List.append_nil] at hi
    exact ⟨x, List.mem_cons_self, (List.eq_of_mem_replicate hi).symm, hnot⟩

/-- The tries of the later steps have larger numbers. -/
theorem lt_of_mem_tried {x : Step C R μ × ℕ} (h : Called passed rest completed l ok)
    (hlt : ∀ y ∈ rest, x.2 < y.2) {i : ℕ} (hi : i ∈ tried l) : x.2 < i := by
  obtain ⟨y, hy, rfl, -⟩ := h.mem_rest hi
  exact hlt y hy

theorem ordered (h : Called passed rest completed l ok)
    (hlt : rest.Pairwise fun x y => x.2 < y.2) : (tried l).Pairwise (· ≤ ·) := by
  induction h with
  | nil => exact List.Pairwise.nil
  | skip _ _ ih => exact ih (List.pairwise_cons.mp hlt).2
  | @step x _ _ _ l _ k _ _ hrest ih =>
    obtain ⟨hx, hlt⟩ := List.pairwise_cons.mp hlt
    rw [tried_append, tried_replicate, tried_act, List.pairwise_append, List.pairwise_cons]
    refine ⟨List.pairwise_replicate.mpr (Or.inr (Nat.le_refl _)),
      ⟨fun i hi => Nat.le_of_lt (hrest.lt_of_mem_tried hx hi), ih hlt⟩, fun a ha b hb => ?_⟩
    obtain rfl := List.eq_of_mem_replicate ha
    rcases List.mem_cons.mp hb with rfl | hb
    · exact Nat.le_refl _
    · exact Nat.le_of_lt (hrest.lt_of_mem_tried hx hb)
  | fail _ hundos =>
    rw [tried_append, tried_replicate, tried_of_undone hundos, List.append_nil]
    exact List.pairwise_replicate.mpr (Or.inr (Nat.le_refl _))

theorem once (h : Called passed rest completed l ok)
    (hlt : rest.Pairwise fun x y => x.2 < y.2) :
    l.Pairwise fun a b => ∀ i, a = (.act i, true) → b.1 ≠ .act i := by
  induction h with
  | nil => exact List.Pairwise.nil
  | skip _ _ ih => exact ih (List.pairwise_cons.mp hlt).2
  | @step x _ _ _ l _ k _ _ hrest ih =>
    obtain ⟨hx, hlt⟩ := List.pairwise_cons.mp hlt
    rw [List.pairwise_append, List.pairwise_cons]
    refine ⟨List.pairwise_replicate.mpr (Or.inr fun i hi => by cases hi), ⟨?_, ih hlt⟩, ?_⟩
    · intro b hb i hi hact
      cases hi
      have hmem : x.2 ∈ tried l := mem_tried.mpr ⟨b.2, hact ▸ hb⟩
      exact Nat.lt_irrefl _ (hrest.lt_of_mem_tried hx hmem)
    · intro a ha b _ i hi
      rw [List.eq_of_mem_replicate ha] at hi
      cases hi
  | @fail x _ _ _ undos _ hundos =>
    refine List.pairwise_of_forall_mem_list fun a ha b _ i hi => ?_
    subst hi
    rcases List.mem_append.mp ha with ha | ha
    · cases List.eq_of_mem_replicate ha
    · exact absurd ha (notMem_of_undone hundos i true)

theorem retries (h : Called passed rest completed l ok)
    (hlt : rest.Pairwise fun x y => x.2 < y.2) {x : Step C R μ × ℕ} (hx : x ∈ rest) :
    (tried l).count x.2 ≤ (x.1.retry + 1).toNat := by
  induction h with
  | nil => cases hx
  | @skip y _ _ _ l _ _ hrest ih =>
    obtain ⟨hy, hlt⟩ := List.pairwise_cons.mp hlt
    rcases List.mem_cons.mp hx with rfl | hx
    · rw [List.count_eq_zero_of_not_mem fun hmem =>
        Nat.lt_irrefl _ (hrest.lt_of_mem_tried hy hmem)]
      exact Nat.zero_le _
    · exact ih hlt hx
  | @step y _ _ _ l _ k _ hk hrest ih =>
    obtain ⟨hy, hlt⟩ := List.pairwise_cons.mp hlt
    rw [tried_append, tried_replicate, tried_act, List.count_append, List.count_cons,
      List.count_replicate]
    rcases List.mem_cons.mp hx with rfl | hx
    · rw [List.count_eq_zero_of_not_mem fun hmem =>
        Nat.lt_irrefl _ (hrest.lt_of_mem_tried hy hmem)]
      simp only [BEq.rfl, if_true, Nat.zero_add]
      exact hk
    · have hne : y.2 ≠ x.2 := Nat.ne_of_lt (hy x hx)
      simpa [hne] using ih hlt hx
  | @fail y _ rest _ undos _ hundos =>
    obtain ⟨hy, -⟩ := List.pairwise_cons.mp hlt
    rw [tried_append, tried_replicate, tried_of_undone hundos, List.append_nil,
      List.count_replicate]
    rcases List.mem_cons.mp hx with rfl | hx
    · simp
    · have hne : y.2 ≠ x.2 := Nat.ne_of_lt (hy x hx)
      simp [hne]

theorem name_ne {x y : Step C R μ × ℕ} (h : ((y :: rest).map fun x => x.1.name).Nodup)
    (hx : x ∈ rest) : x.1.name ≠ y.1.name := by
  intro heq
  exact (List.nodup_cons.mp h).1 (List.mem_map.mpr ⟨x, hx, heq⟩)

/-- A step that is not completed is tried with success in a run that succeeds. -/
theorem succeeds (h : Called passed rest completed l ok) (hok : ok = true)
    (hnames : (rest.map fun x => x.1.name).Nodup) {x : Step C R μ × ℕ} (hx : x ∈ rest)
    (hnot : ¬ completed x.1.name) : (.act x.2, true) ∈ l := by
  induction h with
  | nil => cases hx
  | skip hskip _ ih =>
    rcases List.mem_cons.mp hx with rfl | hx
    · exact absurd hskip hnot
    · exact ih hok (List.nodup_cons.mp hnames).2 hx hnot
  | @step y _ rest completed _ _ _ _ _ _ ih =>
    rcases List.mem_cons.mp hx with rfl | hx
    · exact List.mem_append_right _ List.mem_cons_self
    · refine List.mem_append_right _ (List.mem_cons_of_mem _
        (ih hok (List.nodup_cons.mp hnames).2 hx ?_))
      rwa [Function.update_of_ne (name_ne hnames hx)]
  | fail => cases hok

/-- A run that fails has not succeeded with some step that was not completed. -/
theorem fails (h : Called passed rest completed l ok) (hok : ok = false)
    (hlt : rest.Pairwise fun x y => x.2 < y.2) :
    ∃ x ∈ rest, ¬ completed x.1.name ∧ (.act x.2, true) ∉ l := by
  induction h with
  | nil => cases hok
  | skip _ _ ih =>
    obtain ⟨x, hx, hnot, hl⟩ := ih hok (List.pairwise_cons.mp hlt).2
    exact ⟨x, List.mem_cons_of_mem _ hx, hnot, hl⟩
  | @step y _ rest completed l _ k _ _ _ ih =>
    obtain ⟨hy, hlt⟩ := List.pairwise_cons.mp hlt
    obtain ⟨x, hx, hnot, hl⟩ := ih hok hlt
    have hne : x.2 ≠ y.2 := Nat.ne_of_gt (hy x hx)
    refine ⟨x, List.mem_cons_of_mem _ hx, fun hdone => hnot ?_, fun hmem => ?_⟩
    · by_cases hname : x.1.name = y.1.name
      · rw [hname, Function.update_self]
      · rwa [Function.update_of_ne hname]
    · rcases List.mem_append.mp hmem with hmem | hmem
      · exact absurd (Prod.mk.inj (List.eq_of_mem_replicate hmem)).2 (by decide)
      · rcases List.mem_cons.mp hmem with heq | hmem
        · exact hne (Call.act.inj (Prod.mk.inj heq).1)
        · exact hl hmem
  | @fail y _ _ _ undos hnot hundos =>
    refine ⟨y, List.mem_cons_self, hnot, fun hmem => ?_⟩
    rcases List.mem_append.mp hmem with hmem | hmem
    · exact absurd (Prod.mk.inj (List.eq_of_mem_replicate hmem)).2 (by decide)
    · exact notMem_of_undone hundos _ _ hmem

/-- Steps that are not completed are tried before later ones. -/
theorem notSkipped (h : Called passed rest completed l ok)
    (hlt : rest.Pairwise fun x y => x.2 < y.2) (hnames : (rest.map fun x => x.1.name).Nodup)
    {i : ℕ} (hi : i ∈ tried l) {x : Step C R μ × ℕ} (hx : x ∈ rest) (hle : x.2 ≤ i)
    (hnot : ¬ completed x.1.name) : x.2 ∈ tried l := by
  induction h with
  | nil => cases hx
  | skip hskip _ ih =>
    rcases List.mem_cons.mp hx with rfl | hx
    · exact absurd hskip hnot
    · exact ih (List.pairwise_cons.mp hlt).2 (List.nodup_cons.mp hnames).2 hi hx hnot
  | @step y _ rest completed l _ k _ _ _ ih =>
    obtain ⟨hy, hlt⟩ := List.pairwise_cons.mp hlt
    rw [tried_append, tried_replicate, tried_act, List.mem_append, List.mem_cons] at hi ⊢
    rcases List.mem_cons.mp hx with rfl | hx
    · exact Or.inr (Or.inl rfl)
    · have hyx := hy x hx
      rcases hi with hi | rfl | hi
      · have heq := List.eq_of_mem_replicate hi
        omega
      · omega
      · refine Or.inr (Or.inr (ih hlt (List.nodup_cons.mp hnames).2 hi hx ?_))
        rwa [Function.update_of_ne (name_ne hnames hx)]
  | @fail y _ rest _ undos _ hundos =>
    rw [tried_append, tried_replicate, tried_of_undone hundos, List.append_nil] at hi ⊢
    obtain rfl := List.eq_of_mem_replicate hi
    rcases List.mem_cons.mp hx with rfl | hx
    · exact hi
    · exact absurd ((List.pairwise_cons.mp hlt).1 x hx) (Nat.not_lt.mpr hle)

/-- What is undone when a step has failed for good. -/
theorem undoes (h : Called passed rest completed l ok)
    (hlt : rest.Pairwise fun x y => x.2 < y.2) {pre post : List (Step C R μ × ℕ)}
    {x : Step C R μ × ℕ} (hrest : rest = pre ++ x :: post) (hmem : (.act x.2, false) ∈ l)
    (hcount : l.count (.act x.2, false) = (x.1.retry + 1).toNat) :
    ∃ acts undos, l = acts ++ undos ∧ (∀ c ∈ acts, ∃ j ok, c = (.act j, ok)) ∧
      undos.map Prod.fst = undone (pre.reverse ++ passed) := by
  induction h generalizing pre with
  | nil => cases hmem
  | @skip y passed rest _ l _ _ hcalled ih =>
    obtain ⟨hy, hlt⟩ := List.pairwise_cons.mp hlt
    cases pre with
    | nil =>
      obtain ⟨rfl, rfl⟩ := List.cons.inj hrest
      exact absurd (hcalled.lt_of_mem_tried hy (mem_tried.mpr ⟨_, hmem⟩)) (Nat.lt_irrefl _)
    | cons z pre =>
      obtain ⟨rfl, htail⟩ := List.cons.inj hrest
      obtain ⟨acts, undos, hl, hacts, hundos⟩ := ih hlt htail hmem hcount
      exact ⟨acts, undos, hl, hacts, by rw [hundos]; simp⟩
  | @step y passed rest _ l _ k _ hk hcalled ih =>
    obtain ⟨hy, hlt⟩ := List.pairwise_cons.mp hlt
    cases pre with
    | nil =>
      -- the step has been tried with success, so not all its tries have failed
      obtain ⟨rfl, rfl⟩ := List.cons.inj hrest
      have hnone : (Call.act y.2, false) ∉ l := fun hmem =>
        Nat.lt_irrefl _ (hcalled.lt_of_mem_tried hy (mem_tried.mpr ⟨_, hmem⟩))
      rw [List.count_append, List.count_replicate_self, List.count_cons,
        List.count_eq_zero_of_not_mem hnone] at hcount
      simp at hcount
      omega
    | cons z pre =>
      obtain ⟨rfl, htail⟩ := List.cons.inj hrest
      have hne : y.2 ≠ x.2 := Nat.ne_of_lt (hy x (by rw [htail]; simp))
      have hmem' : (Call.act x.2, false) ∈ l := by
        rcases List.mem_append.mp hmem with hmem | hmem
        · have heq := List.eq_of_mem_replicate hmem
          exact absurd (Call.act.inj (Prod.mk.inj heq).1).symm hne
        · rcases List.mem_cons.mp hmem with heq | hmem
          · exact absurd (Prod.mk.inj heq).2 (by decide)
          · exact hmem
      have hcount' : l.count (.act x.2, false) = (x.1.retry + 1).toNat := by
        rw [← hcount, List.count_append, List.count_cons, List.count_replicate]
        simp [hne]
      obtain ⟨acts, undos, rfl, hacts, hundos⟩ := ih hlt htail hmem' hcount'
      refine ⟨List.replicate k (.act y.2, false) ++ (.act y.2, true) :: acts, undos, by simp,
        ?_, ?_⟩
      · intro c hc
        rcases List.mem_append.mp hc with hc | hc
        · exact ⟨y.2, false, List.eq_of_mem_replicate hc⟩
        · rcases List.mem_cons.mp hc with rfl | hc
          · exact ⟨y.2, true, rfl⟩
          · exact hacts c hc
      · rw [hundos]
        simp
  | @fail y passed rest _ undos _ hundos =>
    obtain ⟨hy, -⟩ := List.pairwise_cons.mp hlt
    cases pre with
    | nil =>
      exact ⟨_, undos, rfl, fun c hc => ⟨y.2, false, List.eq_of_mem_replicate hc⟩, hundos⟩
    | cons z pre =>
      obtain ⟨rfl, htail⟩ := List.cons.inj hrest
      have hne : y.2 ≠ x.2 := Nat.ne_of_lt (hy x (by rw [htail]; simp))
      rcases List.mem_append.mp hmem with hmem | hmem
      · have heq := List.eq_of_mem_replicate hmem
        exact absurd (Call.act.inj (Prod.mk.inj heq).1).symm hne
      · exact absurd hmem (notMem_of_undone hundos _ _)

end Called

theorem pairwise_zipIdx {α : Type} (l : List α) (n : ℕ) :
    (l.zipIdx n).Pairwise fun x y => x.2 < y.2 := by
  induction l generalizing n with
  | nil => exact List.Pairwise.nil
  | cons a l ih =>
    rw [List.zipIdx_cons, List.pairwise_cons]
    refine ⟨fun x hx => ?_, ih (n + 1)⟩
    exact List.le_snd_of_mem_zipIdx hx

/-- The steps before `i`, by number, the last one first. -/
theorem undone_take (p : Pipeline C R μ) {i : ℕ} (hi : i ≤ p.steps.length) :
    undone (p.steps.zipIdx.take i).reverse = (p.undoable i).reverse.map .undo := by
  have key : undone (p.steps.zipIdx.take i) = (p.undoable i).map .undo := by
    induction i with
    | zero => rfl
    | succ i ih =>
      have hget : p.steps.zipIdx[i]? = some (p.steps[i], i) := by
        simp [List.getElem?_zipIdx, List.getElem?_eq_getElem hi]
      rw [List.take_add_one, hget, undone, List.filter_append, List.map_append, ← undone,
        ih (by omega), Pipeline.undoable, Pipeline.undoable, List.range_succ, List.filter_append,
        List.map_append]
      refine congrArg (_ ++ ·) ?_
      rw [Option.toList_some, List.filter_singleton, List.filter_singleton,
        List.getElem?_eq_getElem hi, Option.bind_some]
      cases p.steps[i].undo <;> rfl
  rw [undone, List.filter_reverse, List.map_reverse, ← undone, key, List.map_reverse]

/-- **The discipline of a run.** Whatever the actions and the undos of a pipeline do, a run
of it that returns has called them as it should; and watching it has not changed it. -/
theorem Pipeline.run_disciplined (H : Handler C R σ) (p : Pipeline C R μ)
    (hnames : (p.steps.map Step.name).Nodup) {m m' : μ} {w w' : σ} {r : Except String PUnit}
    {completed' : String → Bool}
    (hrun : Session.exec H p.run m w = ((.ok (r, completed'), m'), w')) :
    ∃ log, Session.exec H.watch p.watched.run m (w, []) = ((.ok (r, completed'), m'), (w', log)) ∧
      Disciplined p (calls log) r := by
  obtain ⟨log, hlog⟩ := Session.exec_watched H p.watched.run m w []
  rw [p.erase_run, hrun] at hlog
  have hfrom : Session.exec H.watch (p.watched.runFrom (watchAll []) (watchAll p.steps.zipIdx)
      p.completed) m (w, []) = ((.ok (r, completed'), m'), (w', log)) := hlog
  obtain ⟨l, hl, hcalled⟩ := called_runFrom hfrom
  rw [show calls (w, ([] : Log C)).2 = [] from rfl, List.nil_append] at hl
  have hlt := pairwise_zipIdx p.steps 0
  have hnodup : (p.steps.zipIdx.map fun x => x.1.name).Nodup := by
    rwa [← List.zipIdx_map_fst 0 p.steps, List.map_map] at hnames
  have hmem : ∀ i step, p.steps[i]? = some step → (step, i) ∈ p.steps.zipIdx :=
    fun i step h => List.mk_mem_zipIdx_iff_getElem?.mpr h
  refine ⟨log, hlog, ?_⟩
  rw [show calls log = l from hl]
  refine ⟨hcalled.ordered hlt, fun i hi => ?_, fun i hi j hj step hstep hnot => ?_,
    fun i step hstep => hcalled.retries hlt (hmem i step hstep), hcalled.once hlt,
    ⟨fun hr i step hstep hnot => ?_, fun hall => ?_⟩, fun i step hstep hfalse hcount => ?_⟩
  · obtain ⟨⟨step, j⟩, hx, rfl, hnot⟩ := hcalled.mem_rest hi
    exact ⟨step, List.mk_mem_zipIdx_iff_getElem?.mp hx, hnot⟩
  · exact hcalled.notSkipped hlt hnodup hi (hmem j step hstep) hj hnot
  · exact hcalled.succeeds (by rw [hr]; rfl) hnodup (hmem i step hstep) hnot
  · rcases r with err | _
    · obtain ⟨⟨step, j⟩, hx, hnot, hl⟩ := hcalled.fails rfl hlt
      exact absurd (hall j step (List.mk_mem_zipIdx_iff_getElem?.mp hx) hnot) hl
    · rfl
  · obtain ⟨hi, -⟩ := List.getElem?_eq_some_iff.mp hstep
    have hget : p.steps.zipIdx[i]? = some (step, i) := by simp [List.getElem?_zipIdx, hstep]
    have hsplit : p.steps.zipIdx =
        p.steps.zipIdx.take i ++ (step, i) :: p.steps.zipIdx.drop (i + 1) := by
      obtain ⟨hlen, hx⟩ := List.getElem?_eq_some_iff.mp hget
      rw [← hx, List.getElem_cons_drop, List.take_append_drop]
    obtain ⟨acts, undos, heq, hacts, hundos⟩ := hcalled.undoes hlt hsplit hfalse hcount
    refine ⟨acts, undos, heq, hacts, ?_⟩
    rw [hundos, List.append_nil, undone_take p hi.le]

/-- A step that succeeds when it is tried again, one that is undone, and one that fails. -/
def flaky : Pipeline Empty Empty.elim ℕ where
  name := "flaky"
  steps := [
    { name := "a"
      action := do
        let n ← get
        set (n + 1)
        if n = 0 then Session.fail "not yet"
      undo := some (Session.fail "gone")
      retry := 1 },
    { name := "b", action := return ⟨⟩ },
    { name := "c", action := Session.fail "never" }]

/-- The second step cannot be undone, and the undo of the first one fails. -/
theorem flaky_disciplined : ∃ r log,
    (Session.exec (Handler.watch fun _ c => c.elim) flaky.watched.run 0 ((), [])).2.2 = log ∧
      calls log = [(.act 0, false), (.act 0, true), (.act 1, true), (.act 2, false),
        (.undo 0, false)] ∧ Disciplined flaky (calls log) r := by
  obtain ⟨log, hlog, h⟩ := Pipeline.run_disciplined (fun (_ : Unit) c => c.elim) flaky (by decide)
    (m := 0) (w := ()) rfl
  exact ⟨_, log, by rw [hlog], by cases hlog; rfl, h⟩

end ClusterManager
