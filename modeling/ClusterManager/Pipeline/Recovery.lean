import ClusterManager.Pipeline.Interruption

/-!
# Recovery after crashes

A pipeline over a store survives the process it runs in. If the process dies, the next one
makes the pipeline anew under the same name, takes what is recorded for completed, and
runs it.

`Works` is what is written down of a process whose actions all succeed: the steps that are
left are completed and recorded one after the other, with things in between that are
neither. `Cut` is the same for a process that has been stopped, which may have completed a
step and not recorded it. A list of such processes, the last of which has come to the end,
writes down what `Lives` describes; the rest is about lists of that shape.
-/

namespace ClusterManager

variable {C : Type} {R : C → Type} {μ σ : Type}

/-- The action of a step has completed. -/
abbrev completes (i : ℕ) : Watched C Remark := .mark (.ends (.act i) true)

/-- Neither the end of an action nor the end of a process. -/
def Quiet (c : Watched C Remark) : Prop :=
  (∀ i ok, c ≠ .mark (.ends (.act i) ok)) ∧ c ≠ .mark .dies

theorem quiet_cmd (c : C) : Quiet (.cmd c) := ⟨nofun, nofun⟩

theorem quiet_begins (c : Call) : Quiet (.mark (.begins c) : Watched C Remark) := ⟨nofun, nofun⟩

/-! ### What processes write down -/

section Shapes

variable (saves : ℕ → Watched C Remark)

/-- What is written down of a process, from the steps that are left before it to those that
are left after it. -/
inductive Works : List ℕ → Log C → List ℕ → Prop
  | nil {todo : List ℕ} : Works todo [] todo
  | other {c : Watched C Remark} {todo todo' : List ℕ} {l : Log C} (hc : Quiet c)
      (hrest : Works todo l todo') : Works todo (c :: l) todo'
  | step {i : ℕ} {todo todo' : List ℕ} {l : Log C} (hrest : Works todo l todo') :
      Works (i :: todo) (completes i :: saves i :: l) todo'

/-- What is written down of a process that is stopped. -/
def Cut (todo : List ℕ) (l : Log C) (todo' : List ℕ) : Prop :=
  Works saves todo l todo' ∨
    ∃ i rest l₀, todo' = i :: rest ∧ l = l₀ ++ [completes i] ∧ Works saves todo l₀ todo'

/-- What is written down of processes that die, and of one that comes to the end. -/
inductive Lives : List ℕ → Log C → Prop
  | done : Lives [] []
  | other {c : Watched C Remark} {todo : List ℕ} {l : Log C} (hc : Quiet c)
      (hrest : Lives todo l) : Lives todo (c :: l)
  | step {i : ℕ} {todo : List ℕ} {l : Log C} (hrest : Lives todo l) :
      Lives (i :: todo) (completes i :: saves i :: l)
  | dies {todo : List ℕ} {l : Log C} (hrest : Lives todo l) : Lives todo (.mark .dies :: l)
  /-- The process has died between the end of the action and its record. -/
  | again {i : ℕ} {todo : List ℕ} {l : Log C} (hrest : Lives (i :: todo) l) :
      Lives (i :: todo) (completes i :: .mark .dies :: l)

variable {saves} {todo todo' todo'' : List ℕ} {l l' : Log C}

theorem Works.trans (h : Works saves todo l todo') (h' : Works saves todo' l' todo'') :
    Works saves todo (l ++ l') todo'' := by
  induction h with
  | nil => exact h'
  | other hc _ ih => exact .other hc (ih h')
  | step _ ih => exact .step (ih h')

theorem works_cmds (todo : List ℕ) (cs : List C) : Works saves todo (cs.map Watched.cmd) todo := by
  induction cs with
  | nil => exact .nil
  | cons c cs ih => exact .other (quiet_cmd c) ih

theorem Works.cut (h : Works saves todo l todo') (h' : Cut saves todo' l' todo'') :
    Cut saves todo (l ++ l') todo'' := by
  rcases h' with h' | ⟨i, rest, l₀, rfl, rfl, h'⟩
  · exact Or.inl (h.trans h')
  · exact Or.inr ⟨i, rest, l ++ l₀, rfl, by simp, h.trans h'⟩

theorem Works.lives (h : Works saves todo l todo') (h' : Lives saves todo' l') :
    Lives saves todo (l ++ l') := by
  induction h with
  | nil => exact h'
  | other hc _ ih => exact .other hc (ih h')
  | step _ ih => exact .step (ih h')

/-- A process that is stopped is followed by others. -/
theorem Cut.lives (h : Cut saves todo l todo') (h' : Lives saves todo' l') :
    Lives saves todo (l ++ .mark .dies :: l') := by
  rcases h with h | ⟨i, rest, l₀, rfl, rfl, h⟩
  · exact h.lives (.dies h')
  · rw [List.append_assoc]
    exact h.lives (.again h')

/-! ### What follows -/

/-- A process has died at the end of `l`, after the action of the step and before the
record. -/
def Unsaved (saves : ℕ → Watched C Remark) (l : Log C) (i : ℕ) : Prop :=
  ∃ l₁ l₂, l = l₁ ++ completes i :: l₂ ∧ saves i ∉ l₂ ∧ .mark .dies ∉ l₂

def isCompletion : Watched C Remark → Bool
  | .mark (.ends (.act _) true) => true
  | _ => false

def isDeath : Watched C Remark → Bool
  | .mark .dies => true
  | _ => false

/-- What is asked of a recovery, `todo` being the steps that had no record before it. -/
structure Recovered (saves : ℕ → Watched C Remark) (todo : List ℕ) (log : Log C) : Prop where
  /-- The action of each step has completed. -/
  completed : ∀ i ∈ todo, completes i ∈ log
  /-- The first completions are in the order of the steps. -/
  ordered : ∀ i ∈ todo, ∀ j ∈ todo, i < j → ∀ l, l <+: log → completes j ∈ l → completes i ∈ l
  /-- A step completes again only if a process has died before it was recorded. -/
  repeated : ∀ i l₁ l₂ l₃, log = l₁ ++ completes i :: (l₂ ++ completes i :: l₃) →
    ∃ a b, l₂ = a ++ .mark .dies :: b ∧ saves i ∉ a
  /-- The death of a process comes between the completion and the record of one step only. -/
  oneStep : ∀ a b i j, log = a ++ .mark .dies :: b → Unsaved saves a i → Unsaved saves a j → i = j
  /-- There are no more repetitions than processes that have died. -/
  bounded : log.countP isCompletion ≤ todo.length + log.countP isDeath

@[simp] theorem isCompletion_completes (i : ℕ) :
    isCompletion (completes i : Watched C Remark) = true := rfl

@[simp] theorem isDeath_completes (i : ℕ) :
    isDeath (completes i : Watched C Remark) = false := rfl

@[simp] theorem isCompletion_dies : isCompletion (.mark .dies : Watched C Remark) = false := rfl

@[simp] theorem isDeath_dies : isDeath (.mark .dies : Watched C Remark) = true := rfl

theorem Quiet.isCompletion {c : Watched C Remark} (h : Quiet c) : isCompletion c = false := by
  unfold ClusterManager.isCompletion
  split
  · exact absurd rfl (h.1 _ _)
  · rfl

theorem Quiet.isDeath {c : Watched C Remark} (h : Quiet c) : isDeath c = false := by
  unfold ClusterManager.isDeath
  split
  · exact absurd rfl h.2
  · rfl

/-- What begins a list and holds something else than its first entry. -/
theorem prefix_cons_of_mem {α : Type} {c d : α} {l pre : List α} (hpre : pre <+: c :: l)
    (hd : d ∈ pre) (hne : d ≠ c) : ∃ pre', pre = c :: pre' ∧ pre' <+: l ∧ d ∈ pre' := by
  cases pre with
  | nil => cases hd
  | cons b pre =>
    obtain ⟨rfl, hpre'⟩ := List.cons_prefix_cons.mp hpre
    exact ⟨pre, rfl, hpre', (List.mem_cons.mp hd).resolve_left hne⟩

theorem unsaved_cons {c : Watched C Remark} {i : ℕ} :
    Unsaved saves (c :: l) i ↔
      (c = completes i ∧ saves i ∉ l ∧ .mark .dies ∉ l) ∨ Unsaved saves l i := by
  constructor
  · rintro ⟨l₁, l₂, heq, hsaves, hdies⟩
    cases l₁ with
    | nil =>
      obtain ⟨rfl, rfl⟩ := List.cons.inj heq
      exact Or.inl ⟨rfl, hsaves, hdies⟩
    | cons d l₁ =>
      obtain ⟨rfl, htail⟩ := List.cons.inj heq
      exact Or.inr ⟨l₁, l₂, htail, hsaves, hdies⟩
  · rintro (⟨rfl, hsaves, hdies⟩ | ⟨l₁, l₂, rfl, hsaves, hdies⟩)
    · exact ⟨[], l, rfl, hsaves, hdies⟩
    · exact ⟨c :: l₁, l₂, rfl, hsaves, hdies⟩

namespace Lives

theorem mem_todo (h : Lives saves todo l) (hsaves : ∀ i, Quiet (saves i)) {i : ℕ}
    (hi : completes i ∈ l) : i ∈ todo := by
  induction h with
  | done => cases hi
  | other hc _ ih =>
    rcases List.mem_cons.mp hi with heq | hi
    · exact absurd heq.symm (hc.1 i true)
    · exact ih hi
  | @step j _ _ _ ih =>
    rcases List.mem_cons.mp hi with heq | hi
    · cases heq
      exact List.mem_cons_self
    · rcases List.mem_cons.mp hi with heq | hi
      · exact absurd heq.symm ((hsaves j).1 i true)
      · exact List.mem_cons_of_mem _ (ih hi)
  | dies _ ih =>
    rcases List.mem_cons.mp hi with heq | hi
    · cases heq
    · exact ih hi
  | again _ ih =>
    rcases List.mem_cons.mp hi with heq | hi
    · cases heq
      exact List.mem_cons_self
    · rcases List.mem_cons.mp hi with heq | hi
      · cases heq
      · exact ih hi

theorem completed (h : Lives saves todo l) {i : ℕ} (hi : i ∈ todo) : completes i ∈ l := by
  induction h with
  | done => cases hi
  | other _ _ ih => exact List.mem_cons_of_mem _ (ih hi)
  | step _ ih =>
    rcases List.mem_cons.mp hi with rfl | hi
    · exact List.mem_cons_self
    · exact List.mem_cons_of_mem _ (List.mem_cons_of_mem _ (ih hi))
  | dies _ ih => exact List.mem_cons_of_mem _ (ih hi)
  | again _ ih => exact List.mem_cons_of_mem _ (List.mem_cons_of_mem _ (ih hi))

theorem ordered (h : Lives saves todo l) (hsaves : ∀ i, Quiet (saves i))
    (hsorted : todo.Pairwise (· < ·)) {i j : ℕ} (hi : i ∈ todo) (hij : i < j) {pre : Log C}
    (hpre : pre <+: l) (hj : completes j ∈ pre) : completes i ∈ pre := by
  induction h generalizing pre with
  | done => cases hi
  | other hc _ ih =>
    obtain ⟨pre, rfl, hpre, hj⟩ := prefix_cons_of_mem hpre hj (hc.1 j true).symm
    exact List.mem_cons_of_mem _ (ih hsorted hi hpre hj)
  | @step k todo l _ ih =>
    obtain ⟨hk, hsorted⟩ := List.pairwise_cons.mp hsorted
    rcases List.mem_cons.mp hi with rfl | hi
    · obtain ⟨pre, rfl, -, -⟩ := prefix_cons_of_mem hpre hj fun heq => by cases heq; omega
      exact List.mem_cons_self
    · have hkj : k < j := Nat.lt_trans (hk i hi) hij
      obtain ⟨pre, rfl, hpre, hj⟩ := prefix_cons_of_mem hpre hj fun heq => by cases heq; omega
      obtain ⟨pre, rfl, hpre, hj⟩ := prefix_cons_of_mem hpre hj ((hsaves k).1 j true).symm
      exact List.mem_cons_of_mem _ (List.mem_cons_of_mem _ (ih hsorted hi hpre hj))
  | dies _ ih =>
    obtain ⟨pre, rfl, hpre, hj⟩ := prefix_cons_of_mem hpre hj nofun
    exact List.mem_cons_of_mem _ (ih hsorted hi hpre hj)
  | @again k todo l _ ih =>
    obtain ⟨hk, -⟩ := List.pairwise_cons.mp hsorted
    by_cases hik : i = k
    · subst hik
      obtain ⟨pre, rfl, -, -⟩ := prefix_cons_of_mem hpre hj fun heq => by cases heq; omega
      exact List.mem_cons_self
    · have hkj : k < j := Nat.lt_trans (hk i ((List.mem_cons.mp hi).resolve_left hik)) hij
      obtain ⟨pre, rfl, hpre, hj⟩ := prefix_cons_of_mem hpre hj fun heq => by cases heq; omega
      obtain ⟨pre, rfl, hpre, hj⟩ := prefix_cons_of_mem hpre hj nofun
      exact List.mem_cons_of_mem _ (List.mem_cons_of_mem _ (ih hsorted hi hpre hj))

theorem repeated (h : Lives saves todo l) (hsaves : ∀ i, Quiet (saves i)) (hnodup : todo.Nodup)
    {i : ℕ} {l₁ l₂ l₃ : Log C} (hl : l = l₁ ++ completes i :: (l₂ ++ completes i :: l₃)) :
    ∃ a b, l₂ = a ++ .mark .dies :: b ∧ saves i ∉ a := by
  induction h generalizing l₁ with
  | done => simp at hl
  | other hc _ ih =>
    cases l₁ with
    | nil => exact absurd (List.cons.inj hl).1 (hc.1 i true)
    | cons _ l₁ => exact ih hnodup (List.cons.inj hl).2
  | @step k todo l hrest ih =>
    obtain ⟨hk, hnodup⟩ := List.nodup_cons.mp hnodup
    cases l₁ with
    | nil =>
      -- the step has been recorded, and is not among those that are left
      obtain ⟨heq, hl⟩ := List.cons.inj hl
      cases heq
      cases l₂ with
      | nil => exact absurd (List.cons.inj hl).1 ((hsaves i).1 i true)
      | cons _ l₂ =>
        have hmem : completes i ∈ l := by rw [(List.cons.inj hl).2]; simp
        exact absurd (hrest.mem_todo hsaves hmem) hk
    | cons _ l₁ =>
      cases l₁ with
      | nil => exact absurd (List.cons.inj (List.cons.inj hl).2).1 ((hsaves k).1 i true)
      | cons _ l₁ => exact ih hnodup (List.cons.inj (List.cons.inj hl).2).2
  | dies _ ih =>
    cases l₁ with
    | nil => exact absurd (List.cons.inj hl).1 nofun
    | cons _ l₁ => exact ih hnodup (List.cons.inj hl).2
  | @again k todo l _ ih =>
    cases l₁ with
    | nil =>
      obtain ⟨-, hl⟩ := List.cons.inj hl
      cases l₂ with
      | nil => exact absurd (List.cons.inj hl).1 nofun
      | cons _ l₂ =>
        obtain ⟨rfl, -⟩ := List.cons.inj hl
        exact ⟨[], l₂, rfl, List.not_mem_nil⟩
    | cons _ l₁ =>
      cases l₁ with
      | nil => exact absurd (List.cons.inj (List.cons.inj hl).2).1 nofun
      | cons _ l₁ => exact ih hnodup (List.cons.inj (List.cons.inj hl).2).2

/-- A process that has died before a step was recorded has died right after it completed. -/
theorem unsaved (h : Lives saves todo l) (hsaves : ∀ i, Quiet (saves i)) {a b : Log C}
    (hl : l = a ++ .mark .dies :: b) {i : ℕ} (hi : Unsaved saves a i) :
    ∃ a', a = a' ++ [completes i] := by
  induction h generalizing a with
  | done => simp at hl
  | @other c _ _ hc _ ih =>
    cases a with
    | nil => exact absurd (List.cons.inj hl).1 hc.2
    | cons _ a =>
      obtain ⟨rfl, hl₁⟩ := List.cons.inj hl
      rcases unsaved_cons.mp hi with ⟨heq, -⟩ | hi
      · exact absurd heq (hc.1 i true)
      · obtain ⟨a', rfl⟩ := ih hl₁ hi
        exact ⟨c :: a', rfl⟩
  | @step k todo l _ ih =>
    cases a with
    | nil => exact absurd (List.cons.inj hl).1 nofun
    | cons _ a =>
      obtain ⟨rfl, hl₁⟩ := List.cons.inj hl
      cases a with
      | nil => exact absurd (List.cons.inj hl₁).1 (hsaves k).2
      | cons _ a =>
        obtain ⟨rfl, hl₂⟩ := List.cons.inj hl₁
        rcases unsaved_cons.mp hi with ⟨heq, hnot, -⟩ | hi
        · cases heq
          exact absurd List.mem_cons_self hnot
        · rcases unsaved_cons.mp hi with ⟨heq, -⟩ | hi
          · exact absurd heq ((hsaves k).1 i true)
          · obtain ⟨a', rfl⟩ := ih hl₂ hi
            exact ⟨completes k :: saves k :: a', rfl⟩
  | dies _ ih =>
    cases a with
    | nil =>
      obtain ⟨l₁, l₂, heq, -⟩ := hi
      simp at heq
    | cons _ a =>
      obtain ⟨rfl, hl₁⟩ := List.cons.inj hl
      rcases unsaved_cons.mp hi with ⟨heq, -⟩ | hi
      · cases heq
      · obtain ⟨a', rfl⟩ := ih hl₁ hi
        exact ⟨.mark .dies :: a', rfl⟩
  | @again k todo l _ ih =>
    cases a with
    | nil => exact absurd (List.cons.inj hl).1 nofun
    | cons _ a =>
      obtain ⟨rfl, hl₁⟩ := List.cons.inj hl
      rcases unsaved_cons.mp hi with ⟨heq, -, hnot⟩ | hi
      · cases heq
        cases a with
        | nil => exact ⟨[], rfl⟩
        | cons _ a =>
          obtain ⟨rfl, -⟩ := List.cons.inj hl₁
          exact absurd List.mem_cons_self hnot
      · cases a with
        | nil =>
          obtain ⟨l₁, l₂, heq, -⟩ := hi
          simp at heq
        | cons _ a =>
          obtain ⟨rfl, hl₂⟩ := List.cons.inj hl₁
          rcases unsaved_cons.mp hi with ⟨heq, -⟩ | hi
          · cases heq
          · obtain ⟨a', rfl⟩ := ih hl₂ hi
            exact ⟨completes k :: .mark .dies :: a', rfl⟩

theorem bounded (h : Lives saves todo l) (hsaves : ∀ i, Quiet (saves i)) :
    l.countP isCompletion ≤ todo.length + l.countP isDeath := by
  induction h with
  | done => exact Nat.zero_le _
  | other hc _ ih => simpa [List.countP_cons, hc.isCompletion, hc.isDeath] using ih
  | @step j _ _ _ ih =>
    simp [List.countP_cons, (hsaves j).isCompletion, (hsaves j).isDeath]
    omega
  | dies _ ih =>
    simp [List.countP_cons]
    omega
  | again _ ih =>
    simp [List.countP_cons] at ih ⊢
    omega

/-- **A list of processes recovers.** -/
theorem recovered (h : Lives saves todo l) (hsaves : ∀ i, Quiet (saves i))
    (hsorted : todo.Pairwise (· < ·)) : Recovered saves todo l where
  completed _ hi := h.completed hi
  ordered _ hi _ _ hij _ hpre hj := h.ordered hsaves hsorted hi hij hpre hj
  repeated _ _ _ _ hl := h.repeated hsaves (hsorted.imp Nat.ne_of_lt) hl
  oneStep a b i j hl hi hj := by
    obtain ⟨a', rfl⟩ := h.unsaved hsaves hl hi
    obtain ⟨a'', heq⟩ := h.unsaved hsaves hl hj
    have hlast := List.append_inj_right' heq rfl
    cases hlast
    rfl
  bounded := h.bounded hsaves

end Lives

end Shapes

/-! ### What one process does -/

namespace Pipeline

variable {H : Handler C R σ}

/-- The numbers of the steps that are not recorded. -/
def leftOf (s : StoreIn H) (name : String) (l : List (Step C R μ × ℕ)) (w : σ) : List ℕ :=
  (l.filter fun x => x.1.name ∉ s.recorded name w).map Prod.snd

/-- The steps that a new process finds left. -/
def left (s : StoreIn H) (p : Pipeline C R μ) (w : σ) : List ℕ := leftOf s p.name p.steps.zipIdx w

/-- The request that records a step. -/
def saves (s : StoreIn H) (p : Pipeline C R μ) (i : ℕ) : Watched C Remark :=
  .cmd (s.send (.savePipelineStep p.name ((p.steps[i]?.map Step.name).getD "")))

variable {s : StoreIn H} {p : Pipeline C R μ}

theorem leftOf_append (name : String) (l l' : List (Step C R μ × ℕ)) (w : σ) :
    leftOf s name (l ++ l') w = leftOf s name l w ++ leftOf s name l' w := by
  rw [leftOf, List.filter_append, List.map_append, ← leftOf, ← leftOf]

theorem leftOf_congr {name : String} {l : List (Step C R μ × ℕ)} {w w' : σ}
    (h : ∀ x ∈ l, x.1.name ∈ s.recorded name w ↔ x.1.name ∈ s.recorded name w') :
    leftOf s name l w = leftOf s name l w' := by
  refine congrArg (List.map Prod.snd) (List.filter_congr fun x hx => ?_)
  simp [h x hx]

theorem left_congr {w w' : σ}
    (h : ∀ n, n ∈ s.recorded p.name w' ↔ n ∈ s.recorded p.name w) : p.left s w' = p.left s w :=
  leftOf_congr fun x _ => h x.1.name

theorem leftOf_eq_nil {name : String} {l : List (Step C R μ × ℕ)} {w : σ}
    (h : ∀ x ∈ l, x.1.name ∈ s.recorded name w) : leftOf s name l w = [] := by
  rw [leftOf, List.filter_eq_nil_iff.mpr fun x hx => by simp [h x hx], List.map_nil]

theorem leftOf_cons {name : String} {x : Step C R μ × ℕ} {l : List (Step C R μ × ℕ)} {w : σ}
    (h : x.1.name ∉ s.recorded name w) :
    leftOf s name (x :: l) w = x.2 :: leftOf s name l w := by
  simp [leftOf, h]

theorem leftOf_cons_of_mem {name : String} {x : Step C R μ × ℕ} {l : List (Step C R μ × ℕ)} {w : σ}
    (h : x.1.name ∈ s.recorded name w) : leftOf s name (x :: l) w = leftOf s name l w := by
  simp [leftOf, h]

theorem left_sorted (w : σ) : (p.left s w).Pairwise (· < ·) := by
  rw [left, leftOf, List.pairwise_map]
  exact (pairwise_zipIdx p.steps 0).filter _

/-- An action has failed. -/
def Fails (l : Log C) : Prop := ∃ i, .mark (.ends (.act i) false) ∈ l

/-- From the first moment to the second, a process has worked on, or an action has failed. -/
def Passes (s : StoreIn H) (p : Pipeline C R μ) (w w' : σ × Log C) : Prop :=
  ∃ l, w'.2 = w.2 ++ l ∧ (Fails l ∨ Works (p.saves s) (p.left s w.1) l (p.left s w'.1))

/-- The same, where the second moment may be between an action and its record. -/
def Reaches (s : StoreIn H) (p : Pipeline C R μ) (w w' : σ × Log C) : Prop :=
  ∃ l, w'.2 = w.2 ++ l ∧ (Fails l ∨ Cut (p.saves s) (p.left s w.1) l (p.left s w'.1))

/-- From the first moment to the second, an action has failed. -/
def Failed (w w' : σ × Log C) : Prop := ∃ l, w'.2 = w.2 ++ l ∧ Fails l

theorem Fails.append_left {l : Log C} (h : Fails l) (l' : Log C) : Fails (l ++ l') := by
  obtain ⟨i, hi⟩ := h
  exact ⟨i, List.mem_append_left _ hi⟩

theorem Fails.append_right {l' : Log C} (h : Fails l') (l : Log C) : Fails (l ++ l') := by
  obtain ⟨i, hi⟩ := h
  exact ⟨i, List.mem_append_right _ hi⟩

theorem fails_append {l l' : Log C} {P P' Q : Prop} (h : Fails l ∨ P) (h' : Fails l' ∨ P')
    (hboth : P → P' → Q) : Fails (l ++ l') ∨ Q := by
  rcases h with hfails | h
  · exact Or.inl (hfails.append_left l')
  · exact h'.imp (·.append_right l) (hboth h)

theorem Passes.refl (w : σ × Log C) : Passes s p w w := ⟨[], by simp, Or.inr .nil⟩

theorem Passes.trans {w w' w'' : σ × Log C} (h : Passes s p w w') (h' : Passes s p w' w'') :
    Passes s p w w'' := by
  obtain ⟨l, hl, hworks⟩ := h
  obtain ⟨l', hl', hworks'⟩ := h'
  exact ⟨l ++ l', by rw [hl', hl, List.append_assoc], fails_append hworks hworks' Works.trans⟩

theorem Passes.reaches {w w' : σ × Log C} (h : Passes s p w w') : Reaches s p w w' := by
  obtain ⟨l, hl, hworks⟩ := h
  exact ⟨l, hl, hworks.imp_right Or.inl⟩

theorem Passes.trans_reaches {w w' w'' : σ × Log C} (h : Passes s p w w')
    (h' : Reaches s p w' w'') : Reaches s p w w'' := by
  obtain ⟨l, hl, hworks⟩ := h
  obtain ⟨l', hl', hworks'⟩ := h'
  exact ⟨l ++ l', by rw [hl', hl, List.append_assoc], fails_append hworks hworks' Works.cut⟩

theorem Passes.trans_failed {w w' w'' : σ × Log C} (h : Passes s p w w') (h' : Failed w' w'') :
    Failed w w'' := by
  obtain ⟨l, hl, -⟩ := h
  obtain ⟨l', hl', hfails⟩ := h'
  exact ⟨l ++ l', by rw [hl', hl, List.append_assoc], hfails.append_right l⟩

/-- Once an action has failed, nothing more is asked. -/
theorem Failed.throughout {α : Type} {w w' : σ × Log C} (h : Failed w w')
    (q : Program (Watched C Remark) (Watched.Reply R) α) :
    q.Throughout H.watch (Failed w) w' := by
  obtain ⟨l, hl, hfails⟩ := h
  intro n
  obtain ⟨l', hl'⟩ := Program.runFor_watch_log H q n w'.1 w'.2
  exact ⟨l ++ l', by rw [hl', hl, List.append_assoc], hfails.append_left l'⟩

theorem Failed.reaches {w w' : σ × Log C} (h : Failed w w') : Reaches s p w w' := by
  obtain ⟨l, hl, hfails⟩ := h
  exact ⟨l, hl, Or.inl hfails⟩

theorem Failed.within {α : Type} {w w' : σ × Log C} (h : Failed w w') (m : μ)
    (x : Session (Watched C Remark) (Watched.Reply R) μ Failure α) :
    Session.Within H.watch (Reaches s p w) x m w' fun _ w'' => Failed w w'' := by
  have hx : Session.Throughout H.watch (Failed w) x m w' := h.throughout (x.program m)
  refine ⟨Program.Throughout.mono hx fun _ => Failed.reaches, fun a m' w'' hexec => ?_⟩
  have hlast := hx.last
  rwa [hexec] at hlast

/-- A failure in the first part is one in the whole, -/
theorem Failed.bind {α β : Type} {w w' : σ × Log C} {m : μ}
    {x : Session (Watched C Remark) (Watched.Reply R) μ Failure α}
    {f : α → Session (Watched C Remark) (Watched.Reply R) μ Failure β}
    (h : Failed w (Session.exec H.watch x m w').2) :
    Failed w (Session.exec H.watch (x >>= f) m w').2 := by
  rw [Session.exec_bind]
  rcases hr : Session.exec H.watch x m w' with ⟨⟨e | a, m₁⟩, w₁⟩
  · rw [hr] at h
    exact h
  · rw [hr] at h
    exact (h.throughout ((f a).program m₁)).last

/-- and nothing more is asked of what follows. -/
theorem Failed.throughout_bind {α β : Type} {w w' : σ × Log C} {m : μ}
    {x : Session (Watched C Remark) (Watched.Reply R) μ Failure α}
    {f : α → Session (Watched C Remark) (Watched.Reply R) μ Failure β}
    (hx : Session.Throughout H.watch (Reaches s p w) x m w')
    (h : Failed w (Session.exec H.watch x m w').2) :
    Session.Throughout H.watch (Reaches s p w) (x >>= f) m w' := by
  refine hx.bind fun a m₁ w₁ hr => ?_
  rw [hr] at h
  exact (h.throughout ((f a).program m₁)).mono fun _ => Failed.reaches

/-- Requests that leave the records alone. -/
theorem passes_cmds {w w' : σ × Log C} (cs : List C) (hlog : w'.2 = w.2 ++ cs.map Watched.cmd)
    (hrec : ∀ n, n ∈ s.recorded p.name w'.1 ↔ n ∈ s.recorded p.name w.1) : Passes s p w w' := by
  refine ⟨_, hlog, Or.inr ?_⟩
  rw [left_congr hrec]
  exact works_cmds _ cs

/-- The action of the step at the head of those that are left has completed, and is not
recorded yet. -/
def Completed (s : StoreIn H) (p : Pipeline C R μ) (i : ℕ) (w w' : σ × Log C) : Prop :=
  ∃ l, w'.2 = w.2 ++ (l ++ [completes i]) ∧
    (∀ n, n ∈ s.recorded p.name w'.1 ↔ n ∈ s.recorded p.name w.1) ∧
    Works (p.saves s) (p.left s w.1) l (p.left s w.1)

theorem Completed.reaches {i : ℕ} {rest : List ℕ} {w w' : σ × Log C} (h : Completed s p i w w')
    (hleft : p.left s w.1 = i :: rest) : Reaches s p w w' := by
  obtain ⟨l, hl, hrec, hworks⟩ := h
  have hsame := left_congr hrec
  refine ⟨_, hl, Or.inr (Or.inr ⟨i, rest, l, hsame.trans hleft, rfl, ?_⟩)⟩
  rwa [hsame]

/-- A call of an action that has ended. -/
theorem ended_outcome {i : ℕ} {w : σ × Log C} {w' : σ}
    (hrec : ∀ n, n ∈ s.recorded p.name w' ↔ n ∈ s.recorded p.name w.1) (cs : List C) :
    Completed s p i w (w', w.2 ++ .mark (.begins (.act i)) ::
        (cs.map Watched.cmd ++ [.mark (.ends (.act i) true)])) ∧
      Failed w (w', w.2 ++ .mark (.begins (.act i)) ::
        (cs.map Watched.cmd ++ [.mark (.ends (.act i) false)])) := by
  constructor
  · exact ⟨.mark (.begins (.act i)) :: cs.map Watched.cmd, by simp, hrec,
      .other (quiet_begins _) (works_cmds _ cs)⟩
  · exact ⟨_, rfl, i, by simp⟩

section Execute

variable {step : Step C R μ} (hleaves : Session.Sends (s.Leaves p.name) step.action) {i : ℕ}
  {w : σ × Log C}

include hleaves

/-- What one call of the action comes to. -/
theorem action_outcome (m : μ) :
    (∃ m', (Session.exec H.watch (step.watched i).action m w).1 = (.ok ⟨⟩, m') ∧
      Completed s p i w (Session.exec H.watch (step.watched i).action m w).2) ∨
    Failed w (Session.exec H.watch (step.watched i).action m w).2 := by
  obtain ⟨cs, hcs⟩ := Session.exec_watch H (.begins (.act i)) (.ends (.act i)) step.action m w.1 w.2
  have hexec : Session.exec H.watch (step.watched i).action m w = _ := hcs
  obtain ⟨hok, hfailed⟩ := ended_outcome (i := i) (StoreIn.recorded_run (hleaves m) w.1) cs
  rw [hexec]
  rcases hr : (Session.exec H step.action m w.1).1 with ⟨e | _, m'⟩
  · exact Or.inr hfailed
  · exact Or.inl ⟨m', rfl, hok⟩

theorem throughout_action {rest : List ℕ} (hleft : p.left s w.1 = i :: rest) (m : μ) :
    Session.Throughout H.watch (Reaches s p w) (step.watched i).action m w := by
  refine Session.throughout_watch (Passes.refl w).reaches (fun n cs => ?_) fun cs => ?_
  · refine Passes.reaches ⟨_, rfl, Or.inr ?_⟩
    rw [show p.left s _ = p.left s w.1 from left_congr (StoreIn.recorded_runFor (hleaves m) n w.1)]
    exact .other (quiet_begins _) (works_cmds _ cs)
  · obtain ⟨hok, hfailed⟩ := ended_outcome (i := i) (StoreIn.recorded_run (hleaves m) w.1) cs
    rcases (Session.exec H step.action m w.1).1.1 with e | _
    · exact hfailed.reaches
    · exact hok.reaches hleft

/-- A step that is tried at least once: its action completes at once, or fails. -/
theorem executeStep_outcome (hretry : 0 ≤ step.retry) {rest : List ℕ}
    (hleft : p.left s w.1 = i :: rest) (m : μ) :
    Session.Within H.watch (Reaches s p w) (executeStep (step.watched i)) m w
      fun r w' => (r = .ok ⟨⟩ ∧ Completed s p i w w') ∨ Failed w w' := by
  obtain ⟨n, hn⟩ : ∃ n, ((step.watched i).retry + 1).toNat = n + 1 :=
    ⟨step.retry.toNat, by rw [show (step.watched i).retry = step.retry from rfl]; omega⟩
  have hreflect := (throughout_action hleaves hleft m).reflect
  rcases action_outcome (i := i) hleaves (w := w) m with ⟨m₁, hok, hcompleted⟩ | hfailed
  · have hexec : Session.exec H.watch (step.watched i).action m w = ((.ok ⟨⟩, m₁), _) :=
      Prod.ext hok rfl
    have hdone := executeStep_of_ok (show 0 ≤ (step.watched i).retry from hretry) hexec
    constructor
    · rw [executeStep, hn, attempt]
      refine Session.Throughout.bind (hreflect.bind fun r m₂ w₂ hr => ?_) fun r m₂ w₂ hr => ?_
      · rw [Session.exec_reflect, hok] at hr
        cases hr
        exact Session.throughout_pure (hcompleted.reaches hleft)
      · rw [Session.exec_bind, Session.exec_reflect, hok] at hr
        cases hr
        exact Session.throughout_pure (hcompleted.reaches hleft)
    · intro r m' w' h
      rw [hdone] at h
      cases h
      exact Or.inl ⟨rfl, hcompleted⟩
  · -- whatever follows, an action has failed
    have hfailed' : Failed w (Session.exec H.watch (step.watched i).action.reflect m w).2 := by
      rwa [Session.exec_reflect]
    rw [executeStep, hn, attempt]
    refine ⟨(Failed.bind hfailed').throughout_bind (hfailed'.throughout_bind hreflect), ?_⟩
    intro r m' w' h
    rw [← show _ = w' from congrArg Prod.snd h]
    exact Or.inr (Failed.bind (Failed.bind hfailed'))

end Execute

section Process

variable (hpersist : p.persist = some s.persister)

include hpersist

/-- A step is noted as running. -/
theorem passes_started (x : Step C R μ × ℕ) (w : σ × Log C) :
    Passes s p w (p.watched.started H.watch (x.1.watched x.2) w) := by
  obtain ⟨cs, hcs⟩ := log_told (H := H) (p := p) (w := w)
    (f := fun persist name => persist.startPipelineStep name x.1.name)
    fun persist name => ⟨persist.startPipelineStep name x.1.name, rfl⟩
  exact passes_cmds cs hcs fun n =>
    StoreIn.mem_recorded_started (p := p.watched) (watched_persist hpersist) _

theorem start_outcome (x : Step C R μ × ℕ) (m : μ) (w : σ × Log C) :
    Session.Within H.watch (Reaches s p w)
      (p.watched.tell fun persist name => persist.startPipelineStep name (x.1.watched x.2).name)
      m w fun _ w' => w' = p.watched.started H.watch (x.1.watched x.2) w := by
  refine ⟨?_, fun a m' w' hexec =>
    (congrArg Prod.snd ((exec_tell _ _ _ m w).symm.trans hexec)).symm⟩
  refine throughout_tell (g := fun persist name => persist.startPipelineStep name x.1.name)
    (fun _ _ => rfl) (Passes.refl w).reaches fun persist hp n cs => ?_
  obtain rfl := Option.some_inj.mp (hpersist.symm.trans hp)
  have hsends : Program.Sends (s.Leaves p.name)
      (s.persister.startPipelineStep p.name x.1.name) :=
    ⟨StoreIn.leaves_start _ _, fun _ => trivial⟩
  exact (passes_cmds cs rfl (StoreIn.recorded_runFor hsends n w.1)).reaches

section Names

variable (hnames : (p.steps.zipIdx.map fun x => x.1.name).Nodup)
  {pre post : List (Step C R μ × ℕ)} {x : Step C R μ × ℕ}
  (hsplit : p.steps.zipIdx = pre ++ x :: post)

include hnames hsplit

omit hpersist

theorem name_ne_of_split {y : Step C R μ × ℕ} (hy : y ∈ post) : y.1.name ≠ x.1.name := by
  rw [hsplit, List.map_append] at hnames
  exact Called.name_ne hnames.of_append_right hy

/-- What is left when a step is recorded. -/
theorem left_saved {w w' : σ} (hpre : ∀ y ∈ pre, y.1.name ∈ s.recorded p.name w)
    (hrec : ∀ n, n ∈ s.recorded p.name w' ↔ n ∈ s.recorded p.name w ∨ n = x.1.name) :
    p.left s w' = leftOf s p.name post w := by
  have hbefore : leftOf s p.name pre w' = [] :=
    leftOf_eq_nil fun y hy => (hrec _).mpr (Or.inl (hpre y hy))
  have hx : x.1.name ∈ s.recorded p.name w' := (hrec _).mpr (Or.inr rfl)
  rw [left, hsplit, leftOf_append, hbefore, List.nil_append, leftOf_cons_of_mem hx]
  refine leftOf_congr fun y hy => ?_
  rw [hrec]
  exact or_iff_left (name_ne_of_split hnames hsplit hy)

end Names

/-- A step that has completed is recorded. -/
theorem Completed.saved (hnames : (p.steps.zipIdx.map fun x => x.1.name).Nodup)
    {pre post : List (Step C R μ × ℕ)} {x : Step C R μ × ℕ}
    (hsplit : p.steps.zipIdx = pre ++ x :: post) {w w' : σ × Log C}
    (hpre : ∀ y ∈ pre, y.1.name ∈ s.recorded p.name w.1)
    (hnot : x.1.name ∉ s.recorded p.name w.1) (h : Completed s p x.2 w w') :
    Passes s p w (p.watched.saved H.watch (x.1.watched x.2) w') := by
  obtain ⟨l, hl, hrec, hworks⟩ := h
  have hsaves : (p.watched.saved H.watch (x.1.watched x.2) w').2 = w'.2 ++ [p.saves s x.2] := by
    have hget : p.steps[x.2]? = some x.1 :=
      List.mk_mem_zipIdx_iff_getElem?.mp (by rw [hsplit]; simp)
    rw [Pipeline.saved, told, watched_persist hpersist, saves, hget]
    rfl
  have hleft : p.left s w.1 = x.2 :: leftOf s p.name post w.1 := by
    rw [left, hsplit, leftOf_append, leftOf_eq_nil hpre, List.nil_append, leftOf_cons hnot]
  have hafter : p.left s (p.watched.saved H.watch (x.1.watched x.2) w').1 =
      leftOf s p.name post w.1 := by
    refine left_saved hnames hsplit hpre fun n => ?_
    exact (StoreIn.mem_recorded_saved (p := p.watched) (watched_persist hpersist) _).trans
      (or_congr_left (hrec n))
  refine ⟨l ++ [completes x.2, p.saves s x.2], ?_, Or.inr ?_⟩
  · rw [hsaves, hl]
    simp
  · rw [hafter]
    refine hworks.trans ?_
    rw [hleft]
    exact .step .nil

theorem save_outcome {i : ℕ} {rest : List ℕ} {w w' : σ × Log C} (h : Completed s p i w w')
    (hleft : p.left s w.1 = i :: rest) (x : Step C R μ × ℕ)
    (hpasses : Passes s p w (p.watched.saved H.watch (x.1.watched x.2) w')) (m : μ) :
    Session.Within H.watch (Reaches s p w)
      (p.watched.tell fun persist name => persist.savePipelineStep name (x.1.watched x.2).name)
      m w' fun _ w'' => w'' = p.watched.saved H.watch (x.1.watched x.2) w' := by
  refine ⟨?_, fun a m' w'' hexec =>
    (congrArg Prod.snd ((exec_tell _ _ _ m w').symm.trans hexec)).symm⟩
  rw [Pipeline.saved, told, watched_persist hpersist] at hpasses
  rw [tell, watched_persist hpersist]
  have hsaving : Program.Throughout H.watch (Reaches s p w)
      (s.watch.persister.savePipelineStep p.name x.1.name) w' :=
    Program.throughout_request (h.reaches hleft) hpasses.reaches
  refine Session.Throughout.bind (Session.throughout_lift hsaving) fun a m₁ w₁ hr => ?_
  rw [Session.exec_lift] at hr
  obtain ⟨-, rfl⟩ := Prod.mk.inj hr
  exact Session.throughout_pure hpasses.reaches

/-- **What a run does**: it works through the steps that are left, or an action fails. -/
theorem runFrom_outcome (hnames : (p.steps.zipIdx.map fun x => x.1.name).Nodup)
    (hretry : ∀ step ∈ p.steps, 0 ≤ step.retry)
    (hleaves : ∀ step ∈ p.steps, Session.Sends (s.Leaves p.name) step.action)
    (pre rest : List (Step C R μ × ℕ)) (hsplit : p.steps.zipIdx = pre ++ rest)
    {completed : String → Bool} {m : μ} {w : σ × Log C}
    (hpre : ∀ x ∈ pre, x.1.name ∈ s.recorded p.name w.1)
    (hrest : ∀ x ∈ rest, completed x.1.name ↔ x.1.name ∈ s.recorded p.name w.1) :
    Session.Within H.watch (Reaches s p w)
      (p.watched.runFrom (watchAll pre.reverse) (watchAll rest) completed) m w
      fun _ w' => Failed w w' ∨ (Passes s p w w' ∧ p.left s w'.1 = []) := by
  induction rest generalizing pre completed m w with
  | nil =>
    refine Session.within_pure (Passes.refl w).reaches (Or.inr ⟨Passes.refl w, ?_⟩)
    rw [left, hsplit, List.append_nil]
    exact leftOf_eq_nil hpre
  | cons x rest ih =>
    have hget : p.steps[x.2]? = some x.1 :=
      List.mk_mem_zipIdx_iff_getElem?.mp (by rw [hsplit]; simp)
    have hmem : x.1 ∈ p.steps := List.mem_of_getElem? hget
    have hsplit' : p.steps.zipIdx = (pre ++ [x]) ++ rest := by rw [hsplit]; simp
    have hpassed : watchAll (pre ++ [x]).reverse = x.1.watched x.2 :: watchAll pre.reverse := by
      rw [List.reverse_append]
      rfl
    rw [watchAll_cons]
    by_cases hdone : completed x.1.name
    · rw [runFrom, if_pos (show completed (x.1.watched x.2).name from hdone), ← hpassed]
      refine ih (pre ++ [x]) hsplit' (fun y hy => ?_) fun y hy =>
        hrest y (List.mem_cons_of_mem _ hy)
      rcases List.mem_append.mp hy with hy | hy
      · exact hpre y hy
      · obtain rfl := List.mem_singleton.mp hy
        exact (hrest y List.mem_cons_self).mp hdone
    have hnot : x.1.name ∉ s.recorded p.name w.1 := fun h =>
      hdone ((hrest x List.mem_cons_self).mpr h)
    -- the step is noted as running
    set w₁ := p.watched.started H.watch (x.1.watched x.2) w with hw₁
    have hstarted : Passes s p w w₁ := passes_started hpersist x w
    have hrec : ∀ n, n ∈ s.recorded p.name w₁.1 ↔ n ∈ s.recorded p.name w.1 := fun n =>
      StoreIn.mem_recorded_started (p := p.watched) (watched_persist hpersist) _
    have hpre₁ : ∀ y ∈ pre, y.1.name ∈ s.recorded p.name w₁.1 := fun y hy =>
      (hrec _).mpr (hpre y hy)
    have hnot₁ : x.1.name ∉ s.recorded p.name w₁.1 := fun h => hnot ((hrec _).mp h)
    have hleft : p.left s w₁.1 = x.2 :: leftOf s p.name rest w₁.1 := by
      rw [left, hsplit, leftOf_append, leftOf_eq_nil hpre₁, List.nil_append, leftOf_cons hnot₁]
    rw [runFrom, if_neg (show ¬ completed (x.1.watched x.2).name from hdone)]
    refine (start_outcome hpersist x m w).bind fun _ m₁ w' hw' => ?_
    obtain rfl : w' = w₁ := hw'
    -- its action fails, or completes
    have htried := executeStep_outcome (hleaves x.1 hmem) (hretry x.1 hmem) hleft m₁
    refine (htried.mono (fun _ => hstarted.trans_reaches) fun _ _ => id).bind fun r m₂ w₂ hr => ?_
    rcases hr with ⟨rfl, hcompleted⟩ | hfailed
    · -- and is recorded
      have hsaved := hcompleted.saved hpersist hnames hsplit hpre₁ hnot₁
      have hsave := save_outcome hpersist hcompleted hleft x hsaved m₂
      refine (hsave.mono (fun _ => hstarted.trans_reaches) fun _ _ => id).bind fun _ m₃ w₃ hw₃ => ?_
      obtain ⟨l, -, hsame, -⟩ := id hcompleted
      have hrec₃ : ∀ n, n ∈ s.recorded p.name w₃.1 ↔
          n ∈ s.recorded p.name w.1 ∨ n = x.1.name := fun n => by
        rw [hw₃, ← hrec n, ← hsame n]
        exact StoreIn.mem_recorded_saved (p := p.watched) (watched_persist hpersist) _
      rw [← hw₃] at hsaved
      have hpasses := hstarted.trans hsaved
      rw [← hpassed]
      refine (ih (pre ++ [x]) hsplit' (fun y hy => (hrec₃ _).mpr ?_) fun y hy => ?_).mono
        (fun _ => hpasses.trans_reaches) fun _ w' => ?_
      · rcases List.mem_append.mp hy with hy | hy
        · exact Or.inl (hpre y hy)
        · exact Or.inr (by rw [List.mem_singleton.mp hy])
      · have hne := name_ne_of_split hnames hsplit hy
        rw [show (x.1.watched x.2).name = x.1.name from rfl, Function.update_of_ne hne, hrec₃,
          or_iff_left hne]
        exact hrest y (List.mem_cons_of_mem _ hy)
      · rintro (hfailed | ⟨hrun, hnil⟩)
        · exact Or.inl (hpasses.trans_failed hfailed)
        · exact Or.inr ⟨hpasses.trans hrun, hnil⟩
    · exact ((hstarted.trans_failed hfailed).within m₂ _).mono (fun _ => id) fun _ _ => Or.inl

end Process

/-! ### Processes that die -/

end Pipeline

/-- A step as a pipeline keeps it. -/
def Step.kept (step : Step C R μ) : Step C R μ :=
  if step.retry < 0 then { step with retry := 0 } else step

namespace Pipeline

/-- What a process does: it makes the pipeline, adds the steps and runs it. -/
def process (name : String) (persist : Persister C R) (steps : List (Step C R μ)) :
    Session C R μ Failure (Except String PUnit × (String → Bool)) := do
  let p ← liftM (Pipeline.new name (some persist))
  (steps.foldl Pipeline.add p).run

/-- The same, with remarks on each call of a step. -/
def processWatched (name : String) (persist : Persister C R) (steps : List (Step C R μ)) :
    Session (Watched C Remark) (Watched.Reply R) μ Failure
      (Except String PUnit × (String → Bool)) :=
  process name persist.watched (watchAll steps.zipIdx)

/-- The pipeline that a process makes. -/
def made (name : String) (persist : Persister C R) (steps : List (Step C R μ)) :
    Pipeline C R μ where
  name := name
  steps := steps.map Step.kept
  persist := some persist

/-- The environment that processes leave which die one after the other. Each has a memory of
its own, and dies when it has made so many requests. -/
def crashes (H : Handler C R σ) (x : Session (Watched C Remark) (Watched.Reply R) μ Failure
      (Except String PUnit × (String → Bool))) : List (μ × ℕ) → σ × Log C → σ × Log C
  | [], w => w
  | (m, n) :: rest, w =>
    let w' := ((x.program m).runFor H.watch n w).2
    crashes H x rest (w'.1, w'.2 ++ [.mark .dies])

theorem foldl_add (steps : List (Step C R μ)) (p : Pipeline C R μ) :
    steps.foldl add p = { p with steps := p.steps ++ steps.map Step.kept } := by
  induction steps generalizing p with
  | nil => simp
  | cons step steps ih =>
    rw [List.foldl_cons, ih]
    simp [add, Step.kept]

theorem kept_watched (step : Step C R μ) (i : ℕ) :
    (step.watched i).kept = step.kept.watched i := by
  rw [Step.kept, Step.kept]
  by_cases h : step.retry < 0
  · rw [if_pos h, if_pos (show (step.watched i).retry < 0 from h)]
    rfl
  · rw [if_neg h, if_neg (show ¬ (step.watched i).retry < 0 from h)]

/-- The steps are watched before they are added, or after. -/
theorem kept_watchAll (steps : List (Step C R μ)) :
    (watchAll steps.zipIdx).map Step.kept = watchAll (steps.map Step.kept).zipIdx := by
  rw [List.zipIdx_map, watchAll, watchAll, List.map_map, List.map_map]
  exact List.map_congr_left fun x _ => kept_watched x.1 x.2

/-- What a new pipeline takes for completed. -/
def loaded : Except String (List String) → String → Bool
  | .error _ => fun _ => false
  | .ok steps => fun n => n ∈ steps

theorem process_eq (name : String) (persist : Persister C R) (steps : List (Step C R μ)) :
    process name persist steps = (do
      let r ← liftM (persist.loadPipelineSteps name)
      { made name persist steps with completed := loaded r }.run) := by
  refine Session.program_ext fun m => ?_
  rw [process, Pipeline.new, Session.program_bind, Session.program_bind, Session.program_lift,
    Session.program_lift]
  simp only [bind_assoc]
  refine congrArg _ (funext fun r => ?_)
  rcases r with e | steps' <;> simp [foldl_add, made, loaded]

theorem processWatched_eq (name : String) (persist : Persister C R) (steps : List (Step C R μ)) :
    processWatched name persist steps = (do
      let r ← liftM (persist.watched.loadPipelineSteps name)
      { made name persist steps with completed := loaded r }.watched.run) := by
  rw [processWatched, process_eq, made, kept_watchAll]
  rfl

/-- The remarks apart, a process that is watched is the process. -/
theorem erase_process (name : String) (persist : Persister C R) (steps : List (Step C R μ)) :
    (processWatched name persist steps).erase = process name persist steps := by
  rw [processWatched_eq, process_eq, Session.erase_bind, Session.erase_lift]
  rw [show (persist.watched.loadPipelineSteps name).erase = persist.loadPipelineSteps name from
    Program.erase_watched _]
  exact congrArg _ (funext fun r => erase_run _)

section Crashes

variable {H : Handler C R σ} (s : StoreIn H) (name : String) (steps : List (Step C R μ))
  (hnames : (steps.map Step.name).Nodup)
  (hleaves : ∀ step ∈ steps, Session.Sends (s.Leaves name) step.action)

theorem kept_name (step : Step C R μ) : step.kept.name = step.name := by
  rw [Step.kept]
  split <;> rfl

theorem kept_action (step : Step C R μ) : step.kept.action = step.action := by
  rw [Step.kept]
  split <;> rfl

theorem kept_retry (step : Step C R μ) : 0 ≤ step.kept.retry := by
  rw [Step.kept]
  split
  · exact Int.le_refl 0
  · omega

include hnames hleaves

/-- **What a process does**: it works through the steps that are left, or an action fails. -/
theorem process_outcome (m : μ) (w : σ × Log C) :
    Session.Within H.watch (Reaches s (made name s.persister steps) w)
      (processWatched name s.persister steps) m w
      fun _ w' => Failed w w' ∨ (Passes s (made name s.persister steps) w w' ∧
        (made name s.persister steps).left s w'.1 = []) := by
  set p := made name s.persister steps with hp
  set w₁ := (H.watch w (s.watch.send (.loadPipelineSteps name))).2 with hw₁
  have hrec : ∀ n, n ∈ s.recorded name w₁.1 ↔ n ∈ s.recorded name w.1 :=
    StoreIn.leaves_load name w.1
  have hloads : Passes s p w w₁ := passes_cmds [s.send (.loadPipelineSteps name)] rfl hrec
  have hload : Session.Within H.watch (Reaches s p w)
      (liftM (s.persister.watched.loadPipelineSteps name) :
        Session (Watched C Remark) (Watched.Reply R) μ Failure (Except String (List String))) m w
      fun r w' => r = .ok (s.recorded name w.1) ∧ w' = w₁ := by
    refine ⟨Session.throughout_lift (Program.throughout_request (Passes.refl w).reaches
      hloads.reaches), fun r m' w' hexec => ?_⟩
    rw [Session.exec_lift] at hexec
    obtain ⟨hr, rfl⟩ := Prod.mk.inj hexec
    cases hr
    exact ⟨s.reply w.1 (.loadPipelineSteps name), rfl⟩
  rw [processWatched_eq]
  refine hload.bind fun r m' w' hr => ?_
  obtain ⟨rfl, rfl⟩ := hr
  -- the records do not depend on what the pipeline takes for completed
  have hruns : Session.Within H.watch (Reaches s p w₁)
      { p with completed := loaded (.ok (s.recorded name w.1)) }.watched.run m' w₁
      fun _ w' => Failed w₁ w' ∨ (Passes s p w₁ w' ∧ p.left s w'.1 = []) := by
    refine runFrom_outcome (p := { p with completed := loaded (.ok (s.recorded name w.1)) }) rfl
      ?_ ?_ ?_ [] _ rfl (by simp) fun x _ => ?_
    · rw [← show (p.steps.map Step.name) = p.steps.zipIdx.map fun x => x.1.name by
        rw [← List.zipIdx_map_fst 0 p.steps, List.map_map, List.zipIdx_map_fst]; rfl]
      rwa [hp, made, List.map_map, show Step.name ∘ Step.kept = Step.name from
        funext kept_name]
    · rintro step hstep
      obtain ⟨step, -, rfl⟩ := List.mem_map.mp hstep
      exact kept_retry step
    · rintro step hstep
      obtain ⟨step, hmem, rfl⟩ := List.mem_map.mp hstep
      rw [kept_action]
      exact hleaves step hmem
    · refine Iff.trans ?_ (hrec x.1.name).symm
      exact decide_eq_true_iff
  refine hruns.mono (fun _ => hloads.trans_reaches) fun _ w' => ?_
  rintro (hfailed | ⟨hpasses, hnil⟩)
  · exact Or.inl (hloads.trans_failed hfailed)
  · exact Or.inr ⟨hloads.trans hpasses, hnil⟩

/-- What processes leave that have died. -/
theorem crashes_outcome (ds : List (μ × ℕ)) (w : σ × Log C) :
    ∃ l, (crashes H (processWatched name s.persister steps) ds w).2 = w.2 ++ l ∧
      (Fails l ∨ ∀ l', Lives ((made name s.persister steps).saves s)
        ((made name s.persister steps).left s
          (crashes H (processWatched name s.persister steps) ds w).1) l' →
        Lives ((made name s.persister steps).saves s) ((made name s.persister steps).left s w.1)
          (l ++ l')) := by
  induction ds generalizing w with
  | nil => exact ⟨[], by simp [crashes], Or.inr fun l' h => h⟩
  | cons d ds ih =>
    obtain ⟨m, n⟩ := d
    obtain ⟨l, hl, hcut⟩ := (process_outcome s name steps hnames hleaves m w).1 n
    rw [crashes]
    set w₁ := (((processWatched name s.persister steps).program m).runFor H.watch n w).2
    obtain ⟨l', hl', hlives⟩ := ih (w₁.1, w₁.2 ++ [.mark .dies])
    refine ⟨l ++ .mark .dies :: l', by rw [hl', hl]; simp, ?_⟩
    rcases hcut with hfails | hcut
    · exact Or.inl (hfails.append_left _)
    · rcases hlives with hfails | hlives
      · have hlater := hfails.append_right (l ++ [.mark .dies])
        rw [List.append_assoc] at hlater
        exact Or.inl hlater
      · refine Or.inr fun l'' h => ?_
        rw [List.append_assoc, List.cons_append]
        exact hcut.lives (hlives l'' h)

omit hnames hleaves in
/-- Where nothing is recorded, every step is left. -/
theorem left_of_none {w : σ} (hnone : ∀ step ∈ steps, step.name ∉ s.recorded name w) :
    (made name s.persister steps).left s w = List.range steps.length := by
  have hall : ∀ x ∈ (steps.map Step.kept).zipIdx, x.1.name ∉ s.recorded name w := by
    intro x hx
    obtain ⟨step, hstep, hkept⟩ := List.mem_map.mp (List.fst_mem_of_mem_zipIdx hx)
    rw [← hkept, kept_name]
    exact hnone step hstep
  rw [show (made name s.persister steps).left s w = leftOf s name (steps.map Step.kept).zipIdx w
    from rfl, leftOf, List.filter_eq_self.mpr fun x hx => decide_eq_true (hall x hx),
    List.zipIdx_map_snd,
    List.length_map, List.range_eq_range']

end Crashes

end Pipeline

/-- **A pipeline recovers from crashes.** Processes die one after the other, each at any
moment, and one comes to the end; no action has failed. Then the steps that had no record
before the first of them, all of them if there was none, have completed in their order, and a
step has completed twice only where a process has died between its completion and its record,
which is one step for each process that has died. -/
theorem crashes_recovered {H : Handler C R σ} (s : StoreIn H) (name : String)
    (steps : List (Step C R μ)) (hnames : (steps.map Step.name).Nodup)
    (hleaves : ∀ step ∈ steps, Session.Sends (s.Leaves name) step.action)
    (ds : List (μ × ℕ)) (m m' : μ) (w : σ) (completed : String → Bool) (w' : σ × Log C)
    (hruns : Session.exec H.watch (Pipeline.processWatched name s.persister steps) m
      (Pipeline.crashes H (Pipeline.processWatched name s.persister steps) ds (w, [])) =
        ((.ok (.ok ⟨⟩, completed), m'), w'))
    (hsucceed : ∀ i, .mark (.ends (.act i) false) ∉ w'.2) :
    Recovered ((Pipeline.made name s.persister steps).saves s)
        ((Pipeline.made name s.persister steps).left s w) w'.2 ∧
      ((∀ step ∈ steps, step.name ∉ s.recorded name w) →
        (Pipeline.made name s.persister steps).left s w = List.range steps.length) := by
  obtain ⟨l, hl, hcrashes⟩ := Pipeline.crashes_outcome s name steps hnames hleaves ds (w, [])
  have hnot : ∀ l : Log C, (∀ c ∈ l, c ∈ w'.2) → ¬ Pipeline.Fails l := fun l hmem hfails => by
    obtain ⟨i, hi⟩ := hfails
    exact hsucceed i (hmem _ hi)
  have hlast := (Pipeline.process_outcome s name steps hnames hleaves m _).2 _ _ _ hruns
  refine ⟨?_, Pipeline.left_of_none s name steps⟩
  rcases hlast with ⟨l', hl', hfails⟩ | ⟨⟨l', hl', hworks⟩, hnil⟩
  · exact absurd hfails (hnot l' fun c hc => by rw [hl']; exact List.mem_append_right _ hc)
  rw [hl, List.nil_append] at hl'
  have hlives := hcrashes.resolve_left (hnot l fun c hc => by
    rw [hl']; exact List.mem_append_left _ hc)
  have hworks' := hworks.resolve_left (hnot l' fun c hc => by
    rw [hl']; exact List.mem_append_right _ hc)
  rw [hnil] at hworks'
  have hall := hlives _ (hworks'.lives .done)
  rw [List.append_nil, ← hl'] at hall
  exact hall.recovered (fun i => quiet_cmd _) (Pipeline.left_sorted w)

/-- Two steps that do nothing. -/
def twoSteps : List (Step StoreCmd StoreCmd.Reply Unit) :=
  [{ name := "a", action := return ⟨⟩ }, { name := "b", action := return ⟨⟩ }]

/-- What is written down when a process dies after the first action and before its record,
and the next one comes to the end. -/
def twoStepsLog : Log StoreCmd :=
  (Session.exec (Handler.watch Store.handler)
    (Pipeline.processWatched "two" Store.asIs.persister twoSteps) ()
    (Pipeline.crashes Store.handler (Pipeline.processWatched "two" Store.asIs.persister twoSteps)
      [((), 4)] ({}, []))).2.2

/-- A remark that a part has failed. -/
def isFailure : Watched C Remark → Bool
  | .mark (.ends _ ok) => !ok
  | .mark _ | .cmd _ => false

theorem twoSteps_recovered :
    twoStepsLog.countP isCompletion = 3 ∧
      Recovered ((Pipeline.made "two" Store.asIs.persister twoSteps).saves Store.asIs) [0, 1]
        twoStepsLog := by
  refine ⟨by decide, ?_⟩
  have hleaves : ∀ step ∈ twoSteps, Session.Sends (Store.asIs.Leaves "two") step.action := by
    simp only [twoSteps, List.forall_mem_cons]
    exact ⟨Session.Sends.pure _, Session.Sends.pure _, by simp⟩
  have hrecovered := crashes_recovered Store.asIs "two" twoSteps (by decide) hleaves [((), 4)] () ()
    {} _ _ rfl fun i hi => ?_
  · exact hrecovered.1
  · have hnone : ∀ c ∈ twoStepsLog, ¬ isFailure c = true := List.any_eq_false.mp (by decide)
    exact hnone _ hi rfl

end ClusterManager
