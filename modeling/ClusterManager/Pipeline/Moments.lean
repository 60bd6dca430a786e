import ClusterManager.Pipeline.Records

/-!
# Where a run stands

A process can die after any of its requests. What it has sent by then is a beginning of what it
would have sent, so to know where a run of a pipeline stands is to know the beginnings of its
requests. There are three kinds (`Pipeline.Stands`): the run has come through some of the steps,
all of them recorded on the way, and is busy with the next one; it has come through all of them;
or one has failed, and that has been recorded.
-/

namespace ClusterManager

namespace Pipeline

variable {C : Type} {R : C → Type} {μ σ : Type} {H : Handler C R σ}

/-- **Where a run stands** when it has sent `l`. -/
inductive Stands (s : StoreIn H) (p : Pipeline C R μ) (steps : List (Step C R μ))
    (completed : String → Bool) (m : μ) (w : σ) (l : List (C × σ)) : Prop
  /-- It is busy with `step`. -/
  | busy (pre post : List (Step C R μ)) (step : Step C R μ) (completed₁ : String → Bool) (m₁ : μ)
      (w₁ : σ) (l₀ : List (C × σ)) (k : ℕ) (hsteps : steps = pre ++ step :: post)
      (hpre : p.Completes H pre completed m w completed₁ m₁ w₁) (hnot : ¬ completed₁ step.name)
      (hl : l = l₀ ++ ((s.send (.startPipelineStep p.name step.name), w₁) ::
        Session.sent H (executeStep step) m₁ (p.started H step w₁)).take k)
      (hafter : H.after (l₀.map Prod.fst) w = w₁)
      (hsaved : ∀ step' ∈ pre, ¬ completed step'.name →
        s.send (.savePipelineStep p.name step'.name) ∈ l₀.map Prod.fst)
  /-- It has come through. -/
  | through (completed' : String → Bool) (m' : μ) (w' : σ)
      (hall : p.Completes H steps completed m w completed' m' w')
      (hafter : H.after (l.map Prod.fst) w = w')
      (hsaved : ∀ step' ∈ steps, ¬ completed step'.name →
        s.send (.savePipelineStep p.name step'.name) ∈ l.map Prod.fst)
  /-- A step has failed. -/
  | failed (step : Step C R μ)
      (hfailed : s.send (.failPipelineStep p.name step.name) ∈ l.map Prod.fst)

/-- The first try of a step is a part of it. -/
theorem sent_executeStep_of_action {step : Step C R μ} (hretry : 0 ≤ step.retry) {m : μ} {w : σ}
    {x : C × σ} (hx : x ∈ Session.sent H step.action m w) :
    x ∈ Session.sent H (executeStep step) m w := by
  obtain ⟨n, hn⟩ : ∃ n, (step.retry + 1).toNat = n + 1 := ⟨step.retry.toNat, by omega⟩
  rw [executeStep, Session.sent_bind, hn, attempt, Session.sent_bind, Session.sent_reflect]
  exact List.mem_append_left _ (List.mem_append_left _ hx)

/-- What holds of the requests of each try holds of those of a step. -/
theorem sent_executeStep_forall {step : Step C R μ} {I : μ → σ → Prop} (hkeeps : step.Keeps H I)
    {P : C × σ → Prop} (hsent : ∀ m w, I m w → ∀ x ∈ Session.sent H step.action m w, P x) {m : μ}
    {w : σ} (hI : I m w) : ∀ x ∈ Session.sent H (executeStep step) m w, P x := by
  have hattempt : ∀ n lastErr m w, I m w →
      ∀ x ∈ Session.sent H (attempt step n lastErr) m w, P x := by
    intro n
    induction n with
    | zero => exact fun _ _ _ _ => nofun
    | succ n ih =>
      intro lastErr m w hI x hx
      rw [attempt, Session.sent_bind, Session.sent_reflect, Session.exec_reflect,
        List.mem_append] at hx
      rcases hx with hx | hx
      · exact hsent m w hI x hx
      have hI' := hkeeps m w hI
      rcases hr : Session.exec H step.action m w with ⟨⟨(err | err) | _, m'⟩, w'⟩
      · rw [hr] at hx hI'
        exact ih err m' w' hI' x hx
      · rw [hr] at hx
        cases hx
      · rw [hr] at hx
        cases hx
  intro x hx
  rw [executeStep, Session.sent_bind, List.mem_append] at hx
  rcases hx with hx | hx
  · exact hattempt _ _ m w hI x hx
  rcases hr : Session.exec H (attempt step (step.retry + 1).toNat "") m w with
    ⟨⟨e | err | _, m'⟩, w'⟩ <;>
  · rw [hr] at hx
    cases hx

/-- A step sends what its action sends. -/
theorem sent_executeStep_of_sends {ok : C → Prop} {step : Step C R μ}
    (hstep : Session.Sends ok step.action) (m : μ) (w : σ) :
    ∀ x ∈ Session.sent H (executeStep step) m w, ok x.1 :=
  sent_executeStep_forall (I := fun _ _ => True) (fun _ _ _ => trivial)
    (fun m _ _ => (hstep m).trace) trivial

/-- Steps that are all recorded are passed over. -/
theorem Completes.eq_of_completed {p : Pipeline C R μ} {pre : List (Step C R μ)}
    {completed completed' : String → Bool} {m m' : μ} {w w' : σ}
    (h : p.Completes H pre completed m w completed' m' w')
    (hall : ∀ step ∈ pre, completed step.name) : completed' = completed ∧ m' = m ∧ w' = w := by
  induction h with
  | nil => exact ⟨rfl, rfl, rfl⟩
  | skip _ _ ih => exact ih fun step hstep => hall step (List.mem_cons_of_mem _ hstep)
  | step hnot _ _ _ => exact absurd (hall _ List.mem_cons_self) hnot

section Sent

variable {s : StoreIn H} {p : Pipeline C R μ} (hpersist : p.persist = some s.persister)

include hpersist

theorem sent_tell {f : Persister C R → String → Program C R (Except String Unit)} {c : StoreCmd}
    {w : σ} (hf : (f s.persister p.name).trace H w = [(s.send c, w)]) (m : μ) :
    Session.sent H (p.tell f) m w = [(s.send c, w)] := by
  rw [tell, hpersist]
  dsimp only
  rw [Session.sent_bind, Session.sent_lift, hf, Session.exec_lift]
  rfl

theorem started_eq_send (step : Step C R μ) (w : σ) :
    p.started H step w = (H w (s.send (.startPipelineStep p.name step.name))).2 := by
  rw [started, told, hpersist]
  rfl

theorem saved_eq_send (step : Step C R μ) (w : σ) :
    p.saved H step w = (H w (s.send (.savePipelineStep p.name step.name))).2 := by
  rw [saved, told, hpersist]
  rfl

section Step

variable {step : Step C R μ} {completed : String → Bool} {m m' : μ} {w w' : σ}
  (hnot : ¬ completed step.name)

include hnot

/-- What a run sends for a step, and from then on. -/
theorem sent_runFrom_step (passed rest : List (Step C R μ)) :
    ∃ l, Session.sent H (p.runFrom passed (step :: rest) completed) m w =
        (s.send (.startPipelineStep p.name step.name), w) ::
          Session.sent H (executeStep step) m (p.started H step w) ++ l ∧
      match Session.exec H (executeStep step) m (p.started H step w) with
      | ((.ok (.ok _), m'), w') => l = (s.send (.savePipelineStep p.name step.name), w') ::
        Session.sent H (p.runFrom (step :: passed) rest (Function.update completed step.name true))
          m' (p.saved H step w')
      | ((.ok (.error _), _), w') =>
        ∃ l', l = (s.send (.failPipelineStep p.name step.name), w') :: l'
      | ((.error _, _), _) => l = [] := by
  rw [runFrom, if_neg hnot, Session.sent_bind, exec_tell, sent_tell hpersist (by rfl)]
  show ∃ l, _ ++ Session.sent H (executeStep step >>= _) m (p.started H step w) = _ ∧ _
  rw [Session.sent_bind]
  rcases Session.exec H (executeStep step) m (p.started H step w) with ⟨⟨e | err | _, m'⟩, w'⟩
  · exact ⟨[], rfl, rfl⟩
  · refine ⟨_, rfl, ?_⟩
    dsimp only
    rw [Session.sent_bind, exec_tell, sent_tell hpersist (by rfl)]
    exact ⟨_, rfl⟩
  · refine ⟨_, rfl, ?_⟩
    dsimp only
    rw [Session.sent_bind, exec_tell, sent_tell hpersist (by rfl)]
    rfl

end Step

/-- A run sends on after the steps it has come through. -/
theorem Completes.sent_runFrom {pre : List (Step C R μ)} {completed completed' : String → Bool}
    {m m' : μ} {w w' : σ} (h : p.Completes H pre completed m w completed' m' w')
    (passed post : List (Step C R μ)) :
    ∃ l, Session.sent H (p.runFrom passed (pre ++ post) completed) m w =
      l ++ Session.sent H (p.runFrom (pre.reverse ++ passed) post completed') m' w' := by
  induction h generalizing passed with
  | nil => exact ⟨[], rfl⟩
  | @skip step rest completed completed' m m' w w' hskip _ ih =>
    obtain ⟨l, hl⟩ := ih (step :: passed)
    refine ⟨l, ?_⟩
    rw [List.cons_append, runFrom, if_pos hskip, hl, List.reverse_cons, List.append_assoc]
    rfl
  | @step step rest completed completed' m m₁ m' w w₁ w' hnot hexec _ ih =>
    obtain ⟨l₁, hsent, hl₁⟩ :=
      sent_runFrom_step hpersist hnot (m := m) (w := w) passed (rest ++ post)
    obtain ⟨l, hl⟩ := ih (step :: passed)
    rw [hexec] at hl₁
    obtain rfl : l₁ = _ := hl₁
    refine ⟨(s.send (.startPipelineStep p.name step.name), w) ::
      Session.sent H (executeStep step) m (p.started H step w) ++
        (s.send (.savePipelineStep p.name step.name), w₁) :: l, ?_⟩
    rw [List.cons_append, hsent, hl, List.reverse_cons, List.append_assoc, List.append_assoc]
    rfl

/-- What a run sends for a step it comes to. -/
theorem Completes.sent_executeStep {pre : List (Step C R μ)} {step : Step C R μ}
    {completed completed' : String → Bool} {m m' : μ} {w w' : σ}
    (h : p.Completes H pre completed m w completed' m' w') (hnot : ¬ completed' step.name)
    (passed post : List (Step C R μ)) {x : C × σ}
    (hx : x ∈ Session.sent H (executeStep step) m' (p.started H step w')) :
    x ∈ Session.sent H (p.runFrom passed (pre ++ step :: post) completed) m w := by
  obtain ⟨l, hl⟩ := h.sent_runFrom hpersist passed (step :: post)
  obtain ⟨l', hl', -⟩ := sent_runFrom_step hpersist hnot (m := m') (w := w') (pre.reverse ++ passed)
    post
  rw [hl, hl']
  exact List.mem_append_right _ (List.mem_append_left _ (List.mem_cons_of_mem _ hx))

/-- A run that begins without records has recorded the steps it has come through. -/
theorem Completes.mem_recorded_iff {steps : List (Step C R μ)}
    {completed completed' : String → Bool}
    {m m' : μ} {w w' : σ} (h : p.Completes H steps completed m w completed' m' w')
    (hleaves : ∀ step ∈ steps, Session.Sends (s.Leaves p.name) step.action)
    (hnone : ∀ n, ¬ completed n) (hfresh : ∀ n, n ∉ s.recorded p.name w) (n : String) :
    n ∈ s.recorded p.name w' ↔ n ∈ steps.map Step.name := by
  rw [h.mem_recorded hpersist hleaves]
  constructor
  · rintro (hold | ⟨hdone, -⟩)
    · exact absurd hold (hfresh n)
    · by_contra hn
      exact hnone n (h.completed_of_notMem hn ▸ hdone)
  · intro hn
    obtain ⟨step, hstep, rfl⟩ := List.mem_map.mp hn
    exact Or.inr ⟨h.completed_of_mem hstep, hnone _⟩

/-- What none of the requests changes holds at each moment, as long as no step has failed. -/
theorem Stands.inv {steps : List (Step C R μ)} {completed : String → Bool} {m : μ} {w : σ}
    {l : List (C × σ)} (h : Stands s p steps completed m w l)
    (hrunning : ∀ n, s.send (.failPipelineStep p.name n) ∉ l.map Prod.fst) {P : C → Prop}
    (hP : ∀ c, P (s.send c)) (hsteps : ∀ step ∈ steps, Session.Sends P step.action)
    {J : σ → Prop} (hJ : ∀ w c, P c → J w → J (H w c).2) (hw : J w) :
    J (H.after (l.map Prod.fst) w) := by
  have htell : p.TellKeeps H fun _ w => J w := by
    refine ⟨fun step _ w hw => ?_, fun step _ w hw => ?_, fun step _ w hw => ?_⟩
    · rw [started_eq_send hpersist]
      exact hJ w _ (hP _) hw
    · rw [saved_eq_send hpersist]
      exact hJ w _ (hP _) hw
    · rw [Pipeline.failed, told, hpersist]
      exact hJ w _ (hP _) hw
  have hkeeps : ∀ step ∈ steps, step.Keeps H fun _ w => J w :=
    fun step hstep m w hw => (hsteps step hstep).exec_inv hJ hw
  cases h with
  | busy pre post step completed₁ m₁ w₁ l₀ k hpost hpre hnot hl hafter hsaved =>
    subst hpost
    have hw₁ : J w₁ := hpre.inv htell (fun step hstep =>
      hkeeps step (List.mem_append_left _ hstep)) hw
    rw [hl, List.map_append, Handler.after_append, hafter]
    refine Handler.after_inv (fun w c hc => hJ w c ?_) hw₁
    obtain ⟨x, hx, rfl⟩ := List.mem_map.mp hc
    rcases List.mem_cons.mp (List.mem_of_mem_take hx) with rfl | hx
    · exact hP _
    · exact sent_executeStep_of_sends (hsteps step (by simp)) _ _ x hx
  | through completed' m' w' hall hafter hsaved =>
    rw [hafter]
    exact hall.inv htell hkeeps hw
  | failed step hfailed => exact absurd hfailed (hrunning _)

/-- **At each moment a run stands somewhere.** -/
theorem stands_runFrom (passed steps : List (Step C R μ)) (completed : String → Bool)
    (m : μ) (w : σ)
    (k : ℕ) :
    Stands s p steps completed m w
      ((Session.sent H (p.runFrom passed steps completed) m w).take k) := by
  induction steps generalizing passed completed m w k with
  | nil => exact .through _ _ _ .nil (by simp [runFrom, Handler.after]) (fun _ h => by cases h)
  | cons step rest ih =>
    by_cases hskip : completed step.name
    · -- the step is skipped
      rw [runFrom, if_pos hskip]
      cases ih (step :: passed) completed m w k with
      | busy pre post step' completed₁ m₁ w₁ l₀ k' hsteps hpre hnot hl hafter hsaved =>
        refine .busy (step :: pre) post step' completed₁ m₁ w₁ l₀ k' (by rw [hsteps]; rfl)
          (.skip hskip hpre) hnot hl hafter fun step'' h hnot' => ?_
        rcases List.mem_cons.mp h with rfl | h
        · exact absurd hskip hnot'
        · exact hsaved step'' h hnot'
      | through completed' m' w' hall hafter hsaved =>
        refine .through completed' m' w' (.skip hskip hall) hafter fun step'' h hnot' => ?_
        rcases List.mem_cons.mp h with rfl | h
        · exact absurd hskip hnot'
        · exact hsaved step'' h hnot'
      | failed step' hfailed => exact .failed step' hfailed
    obtain ⟨l, hsent, hl⟩ := sent_runFrom_step hpersist hskip (m := m) (w := w) passed rest
    rw [hsent, List.take_append]
    generalize hfirst : (s.send (.startPipelineStep p.name step.name), w) ::
      Session.sent H (executeStep step) m (p.started H step w) = first
    rcases Nat.lt_or_ge first.length k with hk | hk
    · -- the run is past the step
      rw [List.take_of_length_le hk.le]
      obtain ⟨j, hj⟩ : ∃ j, k - first.length = j + 1 := ⟨k - first.length - 1, by omega⟩
      rw [hj]
      rcases hexec : Session.exec H (executeStep step) m (p.started H step w) with
        ⟨⟨e | err | _, m'⟩, w'⟩
      · rw [hexec] at hl
        obtain rfl : l = [] := hl
        refine .busy [] rest step completed m w [] first.length rfl .nil hskip ?_ rfl fun _ h =>
          (by cases h)
        rw [hfirst, List.take_length, List.take_nil, List.append_nil]
        rfl
      · rw [hexec] at hl
        obtain ⟨l', rfl⟩ := hl
        refine .failed step ?_
        rw [List.take_succ_cons]
        simp
      · rw [hexec] at hl
        obtain rfl : l = _ := hl
        have hafter : H.after (first.map Prod.fst) w = w' := by
          have hstep := Session.after_sent H m (p.started H step w) (executeStep step)
          rw [hexec, started_eq_send hpersist] at hstep
          rw [← hfirst, List.map_cons, started_eq_send hpersist]
          exact hstep
        have hdone : H.after ((first ++ [(s.send (.savePipelineStep p.name step.name), w')]).map
            Prod.fst) w = p.saved H step w' := by
          rw [List.map_append, Handler.after_append, hafter, saved_eq_send hpersist]
          rfl
        have hsave : s.send (.savePipelineStep p.name step.name) ∈
            (first ++ [(s.send (.savePipelineStep p.name step.name), w')]).map Prod.fst := by
          simp
        rw [List.take_succ_cons, List.append_cons]
        generalize first ++ [(s.send (.savePipelineStep p.name step.name), w')] = done
          at hdone hsave
        -- a step with this name counts as completed from now on
        have hsaves : ∀ (steps' : List (Step C R μ)) (l' : List (C × σ)),
            (∀ step' ∈ steps', ¬ Function.update completed step.name true step'.name →
              s.send (.savePipelineStep p.name step'.name) ∈ l'.map Prod.fst) →
            ∀ step' ∈ step :: steps', ¬ completed step'.name →
              s.send (.savePipelineStep p.name step'.name) ∈ (done ++ l').map Prod.fst := by
          intro steps' l' hl' step' h hnot
          rw [List.map_append]
          by_cases hname : step'.name = step.name
          · exact List.mem_append_left _ (hname ▸ hsave)
          · refine List.mem_append_right _ (hl' step' ?_ ?_)
            · exact (List.mem_cons.mp h).resolve_left fun heq => hname (heq ▸ rfl)
            · rwa [Function.update_of_ne hname]
        cases ih (step :: passed) (Function.update completed step.name true) m'
          (p.saved H step w') j
          with
        | busy pre post step' completed₁ m₁ w₁ l₀ k' hsteps hpre hnot hl hafter hsaved =>
          refine .busy (step :: pre) post step' completed₁ m₁ w₁ (done ++ l₀) k'
            (by rw [hsteps]; rfl)
            (.step hskip hexec hpre) hnot (by rw [hl, List.append_assoc]) ?_ (hsaves _ _ hsaved)
          rw [List.map_append, Handler.after_append, hdone, hafter]
        | through completed' m'' w'' hall hafter hsaved =>
          refine .through completed' m'' w'' (.step hskip hexec hall) ?_ (hsaves _ _ hsaved)
          rw [List.map_append, Handler.after_append, hdone, hafter]
        | failed step' hfailed =>
          refine .failed step' ?_
          rw [List.map_append]
          exact List.mem_append_right _ hfailed
    · -- the run is busy with the step
      refine .busy [] rest step completed m w [] k rfl .nil hskip ?_ rfl fun _ h => (by cases h)
      rw [hfirst, Nat.sub_eq_zero_of_le hk, List.take_zero, List.append_nil]
      rfl

end Sent

end Pipeline

end ClusterManager
