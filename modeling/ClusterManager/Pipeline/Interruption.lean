import ClusterManager.Pipeline.Calls
import ClusterManager.Pipeline.Records

/-!
# A process that dies in a step

A process can die while the action of a step is running. The step should then not be
taken for completed by the next process.

It is not, as long as the pipeline takes everything for completed that is recorded
(`Covers`): then the action of a recorded step is never called. A run keeps this. What can
break it is `retryFrom`, which makes the pipeline forget steps and leaves their records as
they are; noting a step as running does not change a record it has. So the condition under
which `interrupted_notRecorded` holds is that `retryFrom` is called only for steps that
have no record, and neither have the later ones.
-/

namespace ClusterManager

variable {C : Type} {R : C → Type} {μ σ : Type}

/-- What has been said, in order. -/
def remarks : Log C → List Remark :=
  List.filterMap fun
    | .mark e => some e
    | .cmd _ => none

@[simp] theorem remarks_append (l l' : Log C) : remarks (l ++ l') = remarks l ++ remarks l' :=
  List.filterMap_append

@[simp] theorem remarks_cmds (cs : List C) : remarks (cs.map Watched.cmd) = [] := by
  simp [remarks]

@[simp] theorem remarks_mark (e : Remark) (l : Log C) :
    remarks (.mark e :: l) = e :: remarks l := rfl

/-- The action of the step with the number `i` is running. -/
def Executing (log : Log C) (i : ℕ) : Prop :=
  (remarks log).getLast? = some (.begins (.act i))

/-- No action is running. -/
def Idle (log : Log C) : Prop := ∀ i, ¬ Executing log i

theorem Idle.append_cmds {log : Log C} (h : Idle log) (cs : List C) :
    Idle (log ++ cs.map Watched.cmd) := by
  intro i hi
  refine h i ?_
  rwa [Executing, remarks_append, remarks_cmds, List.append_nil] at hi

/-- A call that has begun, and has sent some requests. -/
theorem executing_begins {log : Log C} {c : Call} {cs : List C} {i : ℕ} :
    Executing (log ++ .mark (.begins c) :: cs.map Watched.cmd) i ↔ c = .act i := by
  simp [Executing]

/-- A call that has ended. -/
theorem idle_ends (log : Log C) (b c : Call) (ok : Bool) (cs : List C) :
    Idle (log ++ .mark (.begins b) :: (cs.map Watched.cmd ++ [.mark (.ends c ok)])) := by
  have hremarks : remarks (log ++ .mark (.begins b) ::
      (cs.map Watched.cmd ++ [.mark (.ends c ok)])) =
        remarks log ++ [.begins b] ++ [.ends c ok] := by
    simp [remarks]
  intro i hi
  rw [Executing, hremarks, List.getLast?_concat] at hi
  cases hi

namespace StoreIn

variable {H : Handler C R σ} (s : StoreIn H)

/-- A request that writes no record of a completed step. -/
def AddsNone (name : String) (c : C) : Prop :=
  ∀ w n, n ∈ s.recorded name (H w c).2 → n ∈ s.recorded name w

/-- The store is still there for a pipeline that is watched. -/
def watch : StoreIn (H.watch (E := Remark)) where
  send c := .cmd (s.send c)
  answer c r := s.answer c r
  get w := s.get w.1
  reply w c := s.reply w.1 c
  effect w c := s.effect w.1 c

end StoreIn

namespace Pipeline

/-- A call of a pipeline. -/
inductive Request where
  | run
  | retryFrom (stepName : String)

/-- What a call does. -/
def serve (p : Pipeline C R μ) :
    Request → Session C R μ Failure (Except String PUnit × (String → Bool))
  | .run => p.run
  | .retryFrom stepName => p.retryFrom stepName

/-- Serve a request, as the pipeline has come to be. -/
def served (H : Handler C R σ) (p : Pipeline C R μ) (t : Progress μ σ) (c : Request) :
    Option (Progress μ σ) :=
  after H ((p.resumed t).serve c) t

section Interrupted

variable {H : Handler C R σ} (s : StoreIn H) (p : Pipeline C R μ)

/-- Everything that is recorded is taken for completed. -/
def Covers (completed : String → Bool) (w : σ) : Prop :=
  ∀ step ∈ p.steps, step.name ∈ s.recorded p.name w → completed step.name

/-- The step whose action is running is not recorded as completed. -/
def Unrecorded (w : σ × Log C) : Prop :=
  ∀ i step, p.steps[i]? = some step → Executing w.2 i → step.name ∉ s.recorded p.name w.1

/-- The steps a request makes the pipeline forget have no records. -/
def ForgetsUnrecorded (t : Progress μ (σ × Log C)) : Request → Prop
  | .run => True
  | .retryFrom stepName =>
    ∀ step ∈ p.steps.dropWhile (·.name ≠ stepName), step.name ∉ s.recorded p.name t.world.1

variable {s p}

theorem unrecorded_of_idle {w : σ × Log C} (h : Idle w.2) : p.Unrecorded s w :=
  fun i _ _ hi => absurd hi (h i)

variable (hpersist : p.persist = some s.persister)

include hpersist in
theorem watched_persist : p.watched.persist = some s.watch.persister := by
  rw [watched, hpersist]
  rfl

section Tell

variable {w : σ × Log C} {m : μ} {f : Persister (Watched C Remark) (Watched.Reply R) → String →
    Program (Watched C Remark) (Watched.Reply R) (Except String Unit)}
  {g : Persister C R → String → Program C R (Except String Unit)}
  (hfg : ∀ persist name, f persist.watched name = (g persist name).watched)

include hfg

/-- What holds whenever the persister is being told something. -/
theorem throughout_tell {I : σ × Log C → Prop} (hw : I w)
    (hI : ∀ persist, p.persist = some persist → ∀ n (cs : List C),
      I (((g persist p.name).runFor H n w.1).2, w.2 ++ cs.map Watched.cmd)) :
    Session.Throughout H.watch I (p.watched.tell f) m w := by
  rw [tell]
  cases hp : p.persist with
  | none =>
    simp only [watched, hp, Option.map_none]
    exact Session.throughout_pure hw
  | some persist =>
    have hcut : (g persist p.name).watched.Throughout H.watch I w := by
      intro n
      obtain ⟨cs, hcs⟩ := Program.runFor_watched H (g persist p.name) n w.1 w.2
      rw [show w = (w.1, w.2) from rfl, hcs]
      exact hI persist hp n cs
    simp only [watched, hp, Option.map_some, hfg]
    refine Session.Throughout.bind (Session.throughout_lift hcut) fun a m' w' hrun => ?_
    refine Session.throughout_pure ?_
    have hlast := hcut.last
    rw [Session.exec_lift] at hrun
    obtain ⟨-, rfl⟩ := Prod.mk.inj hrun
    exact hlast

/-- Whenever the persister is being told something, no action is running. -/
theorem throughout_tell_idle (hw : Idle w.2) :
    Session.Throughout H.watch (p.Unrecorded s) (p.watched.tell f) m w :=
  throughout_tell hfg (unrecorded_of_idle hw)
    fun _ _ _ cs => unrecorded_of_idle (hw.append_cmds cs)

end Tell

/-- No action is running afterwards, and no record has been added. -/
structure Settles (s : StoreIn H) (name : String) (w w' : σ × Log C) : Prop where
  idle : Idle w'.2
  recorded : ∀ n, n ∈ s.recorded name w'.1 → n ∈ s.recorded name w.1

theorem Settles.trans {name : String} {w₁ w₂ w₃ : σ × Log C} (h : Settles s name w₁ w₂)
    (h' : Settles s name w₂ w₃) : Settles s name w₁ w₃ :=
  ⟨h'.idle, fun n hn => h.recorded n (h'.recorded n hn)⟩

/-- A call that adds no record. -/
theorem settles_watch {x : Session C R μ Failure PUnit} {name : String}
    (hadds : Session.Sends (s.AddsNone name) x) (c : Call) (m : μ) (w : σ × Log C) :
    Settles s name w (Session.exec H.watch (x.watch (.begins c) (.ends c)) m w).2 := by
  obtain ⟨cs, hcs⟩ := Session.exec_watch H (.begins c) (.ends c) x m w.1 w.2
  rw [show w = (w.1, w.2) from rfl, hcs]
  refine ⟨idle_ends _ _ _ _ _, ?_⟩
  refine Session.Sends.exec_inv (J := fun w' => ∀ n, n ∈ s.recorded name w' →
    n ∈ s.recorded name w.1) hadds ?_ fun _ hn => hn
  exact fun w₁ c hc hw₁ n hn => hw₁ n (hc w₁ n hn)

/-- While a call is running, the step it is of has no record. -/
theorem throughout_watch {x : Session C R μ Failure PUnit}
    (hadds : Session.Sends (s.AddsNone p.name) x) {c : Call} {w : σ × Log C} (hw : Idle w.2)
    (hc : ∀ i step, p.steps[i]? = some step → c = .act i → step.name ∉ s.recorded p.name w.1)
    (m : μ) :
    Session.Throughout H.watch (p.Unrecorded s) (x.watch (.begins c) (.ends c)) m w := by
  refine Session.throughout_watch (unrecorded_of_idle hw) (fun n cs i step hget hi => ?_)
    fun cs => unrecorded_of_idle (idle_ends _ _ _ _ _)
  have hnot := hc i step hget (executing_begins.mp hi)
  refine Program.Sends.runFor_inv (I := fun w => step.name ∉ s.recorded p.name w) (hadds m) ?_ hnot
  exact fun w₁ c' hc' hw₁ hmem => hw₁ (hc' w₁ _ hmem)

theorem settles_attempt {step : Step C R μ} (hadds : Session.Sends (s.AddsNone p.name) step.action)
    (i n : ℕ) (err : String) (m : μ) {w : σ × Log C} (hw : Idle w.2) :
    Settles s p.name w (Session.exec H.watch (attempt (step.watched i) n err) m w).2 := by
  induction n generalizing err m w with
  | zero => exact ⟨hw, fun _ hn => hn⟩
  | succ n ih =>
    have hcall : Settles s p.name w (Session.exec H.watch (step.watched i).action m w).2 :=
      settles_watch hadds (.act i) m w
    rw [attempt, Session.exec_bind, Session.exec_reflect]
    rcases hr : Session.exec H.watch (step.watched i).action m w with ⟨⟨(e | e) | _, m₁⟩, w₁⟩
    · rw [hr] at hcall
      exact hcall.trans (ih e m₁ hcall.idle)
    · rw [hr] at hcall
      exact hcall
    · rw [hr] at hcall
      exact hcall

theorem throughout_attempt {step : Step C R μ}
    (hadds : Session.Sends (s.AddsNone p.name) step.action) {i n : ℕ}
    (hget : p.steps[i]? = some step) {err : String} {m : μ} {w : σ × Log C} (hw : Idle w.2)
    (hnot : step.name ∉ s.recorded p.name w.1) :
    Session.Throughout H.watch (p.Unrecorded s) (attempt (step.watched i) n err) m w := by
  induction n generalizing err m w with
  | zero => exact Session.throughout_pure (unrecorded_of_idle hw)
  | succ n ih =>
    have hcall : Settles s p.name w (Session.exec H.watch (step.watched i).action m w).2 :=
      settles_watch hadds (.act i) m w
    have hrunning : Session.Throughout H.watch (p.Unrecorded s) (step.watched i).action m w := by
      refine throughout_watch hadds hw (fun j step' hget' hj => ?_) m
      obtain rfl := Call.act.inj hj
      obtain rfl := Option.some_inj.mp (hget.symm.trans hget')
      exact hnot
    rw [attempt]
    refine hrunning.reflect.bind fun r m₁ w₁ hr => ?_
    rw [Session.exec_reflect] at hr
    obtain ⟨hr₁, rfl⟩ := Prod.mk.inj hr
    rcases r with (e | e) | _
    · exact ih hcall.idle fun hmem => hnot (hcall.recorded _ hmem)
    · exact Session.throughout_throw (unrecorded_of_idle hcall.idle)
    · exact Session.throughout_pure (unrecorded_of_idle hcall.idle)

theorem settles_executeStep {step : Step C R μ}
    (hadds : Session.Sends (s.AddsNone p.name) step.action) (i : ℕ) (m : μ) {w : σ × Log C}
    (hw : Idle w.2) :
    Settles s p.name w (Session.exec H.watch (executeStep (step.watched i)) m w).2 := by
  have h := settles_attempt hadds i ((step.watched i).retry + 1).toNat "" m hw
  rw [executeStep, Session.exec_bind]
  rcases hr : Session.exec H.watch
    (attempt (step.watched i) ((step.watched i).retry + 1).toNat "") m w with
      ⟨⟨e | err | _, m₁⟩, w₁⟩
  all_goals
    rw [hr] at h
    exact h

theorem throughout_executeStep {step : Step C R μ}
    (hadds : Session.Sends (s.AddsNone p.name) step.action) {i : ℕ}
    (hget : p.steps[i]? = some step) {m : μ} {w : σ × Log C} (hw : Idle w.2)
    (hnot : step.name ∉ s.recorded p.name w.1) :
    Session.Throughout H.watch (p.Unrecorded s) (executeStep (step.watched i)) m w := by
  rw [executeStep]
  refine (throughout_attempt hadds hget hw hnot).bind fun r m₁ w₁ hr => ?_
  have h := settles_attempt hadds i ((step.watched i).retry + 1).toNat "" m hw
  rw [hr] at h
  cases r <;> exact Session.throughout_pure (unrecorded_of_idle h.idle)

/-! ### Undoing steps, and whole runs -/

/-- Neither the action of a step nor what undoes it writes a record of a completed step. -/
def StepAddsNone (s : StoreIn H) (name : String) (step : Step C R μ) : Prop :=
  Session.Sends (s.AddsNone name) step.action ∧
    ∀ undo, step.undo = some undo → Session.Sends (s.AddsNone name) undo

/-- No action is running when the persister has been told something. -/
theorem idle_told {w : σ × Log C} (hw : Idle w.2)
    {f : Persister (Watched C Remark) (Watched.Reply R) → String →
      Program (Watched C Remark) (Watched.Reply R) (Except String Unit)}
    (hf : ∀ (persist : Persister C R) name, ∃ q : Program C R (Except String Unit),
      f persist.watched name = q.watched) : Idle (p.watched.told H.watch f w).2 := by
  obtain ⟨cs, hcs⟩ := log_told (H := H) (p := p) (w := w) hf
  rw [hcs]
  exact hw.append_cmds cs

include hpersist

/-- Undoing steps: no action is running, and what is recorded stays covered. -/
theorem rollback_interrupted {passed : List (Step C R μ × ℕ)}
    (hadds : ∀ x ∈ passed, StepAddsNone s p.name x.1) {completed : String → Bool} {m : μ}
    {w : σ × Log C} (hw : Idle w.2) (hcovers : p.Covers s completed w.1) :
    Session.Throughout H.watch (p.Unrecorded s)
        (p.watched.rollback (watchAll passed) completed) m w ∧
      ∀ completed' m' w', Session.exec H.watch
        (p.watched.rollback (watchAll passed) completed) m w =
        ((.ok completed', m'), w') → Idle w'.2 ∧ p.Covers s completed' w'.1 := by
  induction passed generalizing completed m w with
  | nil =>
    refine ⟨Session.throughout_pure (unrecorded_of_idle hw), fun completed' m' w' h => ?_⟩
    cases h
    exact ⟨hw, hcovers⟩
  | cons x passed ih =>
    have hrest := fun y hy => hadds y (List.mem_cons_of_mem _ hy)
    rw [watchAll_cons, rollback]
    cases hundo : x.1.undo with
    | none =>
      simp only [Step.watched, hundo, Option.map_none]
      exact ih hrest hw hcovers
    | some undo =>
      have hundoes := (hadds x List.mem_cons_self).2 undo hundo
      have hcall := fun m => settles_watch hundoes (.undo x.2) m w
      -- the records are deleted when the step has been undone, and none are left to cover
      have hcont : ∀ m₁ (w₁ : σ × Log C), Idle w₁.2 →
          Session.Throughout H.watch (p.Unrecorded s) (do
            p.watched.tell fun persist => persist.deletePipeline
            p.watched.rollback (watchAll passed) (Function.update completed x.1.name false)) m₁ w₁ ∧
          ∀ completed' m' w', Session.exec H.watch (do
            p.watched.tell fun persist => persist.deletePipeline
            p.watched.rollback (watchAll passed) (Function.update completed x.1.name false)) m₁ w₁ =
              ((.ok completed', m'), w') → Idle w'.2 ∧ p.Covers s completed' w'.1 := by
        intro m₁ w₁ hw₁
        have hidle := idle_told (H := H) (p := p) (f := fun persist => persist.deletePipeline) hw₁
          fun persist name => ⟨persist.deletePipeline name, rfl⟩
        have hnone : p.Covers s (Function.update completed x.1.name false)
            (p.watched.told H.watch (fun persist => persist.deletePipeline) w₁).1 :=
          fun step _ hmem => absurd hmem
            (StoreIn.notMem_recorded_deleted (p := p.watched) (watched_persist hpersist))
        obtain ⟨hthrough, hpost⟩ := ih (m := m₁) hrest hidle hnone
        constructor
        · refine (throughout_tell_idle (fun _ _ => rfl) hw₁).bind fun a m₂ w₂ h => ?_
          rw [exec_tell] at h
          obtain ⟨h₁, rfl⟩ := Prod.mk.inj h
          obtain ⟨-, rfl⟩ := Prod.mk.inj h₁
          exact hthrough
        · intro completed' m' w' h
          rw [Session.exec_bind, exec_tell] at h
          exact hpost completed' m' w' h
      simp only [Step.watched, hundo, Option.map_some]
      constructor
      · refine (throughout_watch hundoes hw (fun i step _ h => by cases h) m).reflect.bind
          fun r m₁ w₁ h => ?_
        rw [Session.exec_reflect] at h
        obtain ⟨-, rfl⟩ := Prod.mk.inj h
        rcases r with (e | e) | _
        · exact (hcont _ _ (hcall m).idle).1
        · exact Session.throughout_throw (unrecorded_of_idle (hcall m).idle)
        · exact (hcont _ _ (hcall m).idle).1
      · intro completed' m' w' h
        obtain ⟨r, m₁, w₁, hundone, h⟩ := Session.exec_bind_ok h
        rw [Session.exec_reflect] at hundone
        obtain ⟨-, rfl⟩ := Prod.mk.inj hundone
        rcases r with (e | e) | _
        · exact (hcont _ _ (hcall m).idle).2 _ _ _ h
        · cases h
        · exact (hcont _ _ (hcall m).idle).2 _ _ _ h

/-- A step is noted as failed: -/
theorem covers_failed {completed : String → Bool} {w : σ × Log C}
    (hcovers : p.Covers s completed w.1) (x : Step C R μ × ℕ) :
    p.Covers s completed (p.watched.failed H.watch (x.1.watched x.2) w).1 := by
  intro step hstep hmem
  refine hcovers step hstep ?_
  exact ((StoreIn.mem_recorded_failed (p := p.watched) (watched_persist hpersist) _).mp hmem).1

/-- and as completed, by both sides. -/
theorem covers_saved {completed : String → Bool} {w : σ × Log C}
    (hcovers : p.Covers s completed w.1) (x : Step C R μ × ℕ) :
    p.Covers s (Function.update completed x.1.name true)
      (p.watched.saved H.watch (x.1.watched x.2) w).1 := by
  intro step hstep hmem
  by_cases hname : step.name = x.1.name
  · rw [hname, Function.update_self]
  · rw [Function.update_of_ne hname]
    rcases (StoreIn.mem_recorded_saved (p := p.watched) (watched_persist hpersist) _).mp hmem with
      h | h
    · exact hcovers step hstep h
    · exact absurd h hname

/-- **A run keeps what is recorded covered**, and never calls the action of a recorded
step. -/
theorem runFrom_interrupted (hadds : ∀ step ∈ p.steps, StepAddsNone s p.name step)
    (passed rest : List (Step C R μ × ℕ)) (hpassed : ∀ x ∈ passed, x.1 ∈ p.steps)
    (hrest : ∀ x ∈ rest, p.steps[x.2]? = some x.1) {completed : String → Bool} {m : μ}
    {w : σ × Log C} (hw : Idle w.2) (hcovers : p.Covers s completed w.1) :
    Session.Throughout H.watch (p.Unrecorded s)
        (p.watched.runFrom (watchAll passed) (watchAll rest) completed) m w ∧
      ∀ r m' w', Session.exec H.watch
        (p.watched.runFrom (watchAll passed) (watchAll rest) completed) m w = ((.ok r, m'), w') →
          Idle w'.2 ∧ p.Covers s r.2 w'.1 := by
  induction rest generalizing passed completed m w with
  | nil =>
    refine ⟨Session.throughout_pure (unrecorded_of_idle hw), fun r m' w' h => ?_⟩
    cases h
    exact ⟨hw, hcovers⟩
  | cons x rest ih =>
    have hget := hrest x List.mem_cons_self
    have hmem : x.1 ∈ p.steps := List.mem_of_getElem? hget
    have hpassed' : ∀ y ∈ x :: passed, y.1 ∈ p.steps := by
      intro y hy
      rcases List.mem_cons.mp hy with rfl | hy
      · exact hmem
      · exact hpassed y hy
    have hrest' := fun y hy => hrest y (List.mem_cons_of_mem _ hy)
    rw [watchAll_cons]
    by_cases hdone : completed x.1.name
    · rw [runFrom, if_pos (show completed (x.1.watched x.2).name from hdone), ← watchAll_cons]
      exact ih (x :: passed) hpassed' hrest' hw hcovers
    have hnot : x.1.name ∉ s.recorded p.name w.1 := fun h => hdone (hcovers x.1 hmem h)
    have hwatched := watched_persist hpersist
    -- the step is noted as running, and tried
    have hstarted : Idle (p.watched.started H.watch (x.1.watched x.2) w).2 :=
      idle_told hw fun persist name => ⟨persist.startPipelineStep name x.1.name, rfl⟩
    have hrunning : ∀ n, n ∈ s.recorded p.name (p.watched.started H.watch (x.1.watched x.2) w).1 ↔
        n ∈ s.recorded p.name w.1 :=
          fun n => StoreIn.mem_recorded_started (p := p.watched) hwatched _
    have htried : Session.Throughout H.watch (p.Unrecorded s) (executeStep (x.1.watched x.2)) m
        (p.watched.started H.watch (x.1.watched x.2) w) :=
      throughout_executeStep (hadds x.1 hmem).1 hget hstarted fun h => hnot ((hrunning _).mp h)
    have hsettles := settles_executeStep (hadds x.1 hmem).1 x.2 m hstarted
    have hcovers₂ : ∀ w₂ : σ × Log C, Settles s p.name
        (p.watched.started H.watch (x.1.watched x.2) w) w₂ → p.Covers s completed w₂.1 :=
      fun w₂ h step hstep hmem => hcovers step hstep ((hrunning _).mp (h.recorded _ hmem))
    have hundo := fun x hx => hadds x.1 (hpassed x hx)
    have hfailidle : ∀ w₂ : σ × Log C, Idle w₂.2 →
        Idle (p.watched.failed H.watch (x.1.watched x.2) w₂).2 := fun w₂ h =>
      idle_told h fun persist name => ⟨persist.failPipelineStep name x.1.name, rfl⟩
    have hsaveidle : ∀ w₂ : σ × Log C, Idle w₂.2 →
        Idle (p.watched.saved H.watch (x.1.watched x.2) w₂).2 := fun w₂ h =>
      idle_told h fun persist name => ⟨persist.savePipelineStep name x.1.name, rfl⟩
    constructor
    · rw [runFrom, if_neg (show ¬ completed (x.1.watched x.2).name from hdone)]
      refine (throughout_tell_idle (fun _ _ => rfl) hw).bind fun a m₁ w₁ h => ?_
      rw [exec_tell] at h
      obtain ⟨h₁, rfl⟩ := Prod.mk.inj h
      obtain ⟨-, rfl⟩ := Prod.mk.inj h₁
      refine Session.Throughout.bind htried fun r m₂ w₂ hexec => ?_
      rw [show p.watched.told H.watch _ w = p.watched.started H.watch (x.1.watched x.2) w from rfl]
        at hexec
      rw [hexec] at hsettles
      have hcov := hcovers₂ w₂ hsettles
      rcases r with err | _
      · refine (throughout_tell_idle (fun _ _ => rfl) hsettles.idle).bind fun a m₃ w₃ h => ?_
        rw [exec_tell] at h
        obtain ⟨-, rfl⟩ := Prod.mk.inj h
        obtain ⟨hback, hpost⟩ := rollback_interrupted (m := m₃) hpersist hundo
          (hfailidle w₂ hsettles.idle) (covers_failed hpersist hcov x)
        refine hback.bind fun completed' m₄ w₄ h => ?_
        exact Session.throughout_pure (unrecorded_of_idle (hpost _ _ _ h).1)
      · refine (throughout_tell_idle (fun _ _ => rfl) hsettles.idle).bind fun a m₃ w₃ h => ?_
        rw [exec_tell] at h
        obtain ⟨-, rfl⟩ := Prod.mk.inj h
        exact (ih (x :: passed) hpassed' hrest' (hsaveidle w₂ hsettles.idle)
          (covers_saved hpersist hcov x)).1
    · intro r m' w' h
      rw [exec_runFrom_step (show ¬ completed (x.1.watched x.2).name from hdone)] at h
      rcases hexec : Session.exec H.watch (executeStep (x.1.watched x.2)) m
        (p.watched.started H.watch (x.1.watched x.2) w) with ⟨⟨e | err | _, m₂⟩, w₂⟩
      · rw [hexec] at h
        cases h
      · rw [hexec] at h hsettles
        obtain ⟨completed', m₃, w₃, hback, hret⟩ := Session.exec_bind_ok h
        cases hret
        exact (rollback_interrupted hpersist hundo (hfailidle w₂ hsettles.idle)
          (covers_failed hpersist (hcovers₂ w₂ hsettles) x)).2 _ _ _ hback
      · rw [hexec] at h hsettles
        exact (ih (x :: passed) hpassed' hrest' (hsaveidle w₂ hsettles.idle)
          (covers_saved hpersist (hcovers₂ w₂ hsettles) x)).2 _ _ _ h

/-- Making the pipeline is no action of it. -/
theorem idle_start (m : μ) {w : σ × Log C} (hw : Idle w.2) :
    Idle (p.watched.start H.watch m w).world.2 := by
  rw [start, StoreIn.run_new (watched_persist hpersist) w]
  exact hw.append_cmds [s.send (.loadPipelineSteps p.name)]

/-- A run, from what the pipeline has come to take for completed. -/
theorem run_interrupted (hadds : ∀ step ∈ p.steps, StepAddsNone s p.name step)
    {completed : String → Bool} {m : μ} {w : σ × Log C} (hw : Idle w.2)
    (hcovers : p.Covers s completed w.1) :
    Session.Throughout H.watch (p.Unrecorded s) { p.watched with completed := completed }.run m w ∧
      ∀ r m' w', Session.exec H.watch { p.watched with completed := completed }.run m w =
        ((.ok r, m'), w') → Idle w'.2 ∧ p.Covers s r.2 w'.1 := by
  refine runFrom_interrupted (p := { p with completed := completed }) hpersist hadds []
    p.steps.zipIdx (fun x hx => absurd hx List.not_mem_nil) ?_ hw hcovers
  exact fun x hx => List.mk_mem_zipIdx_iff_getElem?.mp hx

omit hpersist in
theorem map_name_dropWhile (stepName : String) (l : List (Step C R μ × ℕ)) :
    ((watchAll l).dropWhile (·.name ≠ stepName)).map Step.name =
      ((l.map Prod.fst).dropWhile (·.name ≠ stepName)).map Step.name := by
  induction l with
  | nil => rfl
  | cons x l ih =>
    rw [watchAll_cons, List.map_cons, List.dropWhile_cons, List.dropWhile_cons]
    by_cases h : x.1.name = stepName
    · simp [h, Step.watched, watchAll]
    · simpa [h, Step.watched] using ih

/-- **What a request keeps**, if it makes the pipeline forget only steps without records. -/
theorem serve_interrupted (hadds : ∀ step ∈ p.steps, StepAddsNone s p.name step)
    {t : Progress μ (σ × Log C)} (hw : Idle t.world.2) (hcovers : p.Covers s t.completed t.world.1)
    {c : Request} (hc : p.ForgetsUnrecorded s t c) :
    Session.Throughout H.watch (p.Unrecorded s) ((p.watched.resumed t).serve c) t.memory t.world ∧
      ∀ r m' w', Session.exec H.watch ((p.watched.resumed t).serve c) t.memory t.world =
        ((.ok r, m'), w') → Idle w'.2 ∧ p.Covers s r.2 w'.1 := by
  cases c with
  | run => exact run_interrupted hpersist hadds hw hcovers
  | retryFrom stepName =>
    have hnames : (p.watched.steps.dropWhile (·.name ≠ stepName)).map Step.name =
        (p.steps.dropWhile (·.name ≠ stepName)).map Step.name := by
      rw [watched, map_name_dropWhile, List.zipIdx_map_fst]
    rw [serve, retryFrom]
    rw [show (p.watched.resumed t).steps = p.watched.steps from rfl]
    cases hsteps : p.watched.steps.dropWhile (·.name ≠ stepName) with
    | nil =>
      refine ⟨Session.throughout_pure (unrecorded_of_idle hw), fun r m' w' h => ?_⟩
      cases h
      exact ⟨hw, hcovers⟩
    | cons first rest =>
      refine run_interrupted hpersist hadds hw fun step hstep hmem => ?_
      rw [hsteps] at hnames
      have hkept : step.name ∉ (first :: rest).map Step.name := by
        rw [hnames]
        intro hname
        obtain ⟨step', hstep', heq⟩ := List.mem_map.mp hname
        exact hc step' hstep' (heq ▸ hmem)
      have hcompleted := hcovers step hstep hmem
      simpa [resumed, hcompleted] using hkept

end Interrupted

end Pipeline

open Pipeline in
/-- **A step that has been interrupted is not taken for completed.** A process makes a
pipeline, makes requests of it, and dies at any moment of the last one. If the action of a
step is running then, the step is not recorded as completed, provided that each `retryFrom`
is for steps without records, and that the steps write no such records themselves. -/
theorem interrupted_notRecorded {H : Handler C R σ} (s : StoreIn H) (p : Pipeline C R μ)
    (hpersist : p.persist = some s.persister)
    (hadds : ∀ step ∈ p.steps, StepAddsNone s p.name step) (m : μ) (w : σ)
    (requests : List Request) (c : Request)
    (hforgets : Runs.EachStep (p.watched.served H.watch) (p.ForgetsUnrecorded s)
      (p.watched.start H.watch m (w, [])) (requests ++ [c]))
    (t : Progress μ (σ × Log C))
    (ht : Runs.exec (p.watched.served H.watch) (p.watched.start H.watch m (w, [])) requests =
      some t) (n i : ℕ) (step : Step C R μ) (hstep : p.steps[i]? = some step)
    (hexecuting : Executing ((((p.watched.resumed t).serve c).program t.memory).runFor H.watch n
      t.world).2.2 i) :
    step.name ∉ s.recorded p.name
      ((((p.watched.resumed t).serve c).program t.memory).runFor H.watch n t.world).2.1 := by
  have hwatched := watched_persist hpersist
  have hinv : Runs.Always (p.watched.served H.watch)
      (fun t => Idle t.world.2 ∧ p.Covers s t.completed t.world.1)
      (p.watched.start H.watch m (w, [])) requests := by
    refine Runs.Always.of_eachStep ⟨?_, ?_⟩ hforgets.of_append ?_
    · exact idle_start hpersist m fun i hi => by cases hi
    · intro step hstep hmem
      refine (StoreIn.completed_new hwatched).mpr ?_
      rw [← StoreIn.recorded_new (p := p.watched) hwatched]
      exact hmem
    · rintro t c t' ⟨hidle, hcovers⟩ hc hstep
      rw [served, after] at hstep
      rcases hr : Session.exec H.watch ((p.watched.resumed t).serve c) t.memory t.world with
        ⟨⟨e | r, m'⟩, w'⟩
      · rw [hr] at hstep
        cases hstep
      · rw [hr] at hstep
        cases hstep
        exact (serve_interrupted hpersist hadds hidle hcovers hc).2 r m' w' hr
  obtain ⟨hidle, hcovers⟩ := hinv.last ht
  have hc := hforgets requests c (List.prefix_refl _) t ht
  exact (serve_interrupted hpersist hadds hidle hcovers hc).1 n i step hstep hexecuting

/-! ### A step that is run again -/

/-- One step, whose action does nothing. -/
def oneStep : Pipeline StoreCmd StoreCmd.Reply Unit where
  name := "one"
  persist := some Store.asIs.persister
  steps := [{ name := "a", action := return ⟨⟩ }]

/-- The pipeline when it has just been made on an empty store. -/
def oneStepStart : Progress Unit (Store × Log StoreCmd) :=
  oneStep.watched.start (Handler.watch Store.handler) () ({}, [])

/-- The store and the log when the process dies in a request, after `n` of its own. -/
def oneStepCut (t : Progress Unit (Store × Log StoreCmd)) (c : Pipeline.Request) (n : ℕ) :
    Store × Log StoreCmd :=
  ((((oneStep.watched.resumed t).serve c).program t.memory).runFor (Handler.watch Store.handler) n
    t.world).2

/-- In the first run, the step has no record while its action is running. -/
theorem oneStep_interrupted :
    Executing (oneStepCut oneStepStart .run 2).2 0 ∧
      "a" ∉ Store.asIs.recorded "one" (oneStepCut oneStepStart .run 2).1 := by
  have hadds : ∀ step ∈ oneStep.steps, Pipeline.StepAddsNone Store.asIs "one" step := by
    intro step hstep
    obtain rfl := List.mem_singleton.mp hstep
    refine ⟨Session.Sends.pure _, fun undo h => ?_⟩
    cases h
  refine ⟨rfl, interrupted_notRecorded Store.asIs oneStep rfl hadds () {} [] .run ?_ oneStepStart
    rfl 2 0 _ rfl rfl⟩
  exact Runs.eachStep_cons.mpr ⟨trivial, fun _ _ => Runs.eachStep_nil⟩

/-- When the step is run again, its record is that of the first run. -/
theorem oneStep_interrupted_again : ∃ t,
    Runs.exec (oneStep.watched.served (Handler.watch Store.handler)) oneStepStart [.run] = some t ∧
      Executing (oneStepCut t (.retryFrom "a") 2).2 0 ∧
      "a" ∈ Store.asIs.recorded "one" (oneStepCut t (.retryFrom "a") 2).1 :=
  ⟨_, rfl, rfl, by decide⟩

end ClusterManager
