import Mathlib.Data.List.Infix

/-!
# Runs of a machine

A machine is a partial step function `step : σ → α → Option σ`: in a state an action is
possible and leads to one state, or it is not possible. A run is a list of actions;
`exec` is the state it leads to, if all of them are possible one after the other.

Two things are said of runs. `Always` is a property of every state the run comes
through; an invariant of the steps gives it (`Always.of_inv`). `EachStep` is a condition
on every step the run takes, on the state before it. `always_iff_eachStep` ties the two
together: where a step keeps a property exactly when it meets a condition, a run has the
property always exactly when each of its steps meets the condition.
-/

namespace ClusterManager

namespace Runs

variable {σ α : Type} (step : σ → α → Option σ)

/-- The state a run leads to. -/
def exec (s : σ) : List α → Option σ
  | [] => some s
  | a :: l => (step s a).bind fun t => exec t l

/-- The property holds in every state the run comes through. -/
def Always (I : σ → Prop) (s : σ) (l : List α) : Prop :=
  ∀ p, p <+: l → ∀ t, exec step s p = some t → I t

/-- The condition holds of every step of the run, in the state it is taken in. -/
def EachStep (C : σ → α → Prop) (s : σ) (l : List α) : Prop :=
  ∀ p a, p ++ [a] <+: l → ∀ t, exec step s p = some t → C t a

variable {step} {I J : σ → Prop} {C : σ → α → Prop} {s : σ} {a : α} {l : List α}

theorem exec_cons : exec step s (a :: l) = (step s a).bind fun t => exec step t l := rfl

theorem exec_append (l l' : List α) :
    exec step s (l ++ l') = (exec step s l).bind fun t => exec step t l' := by
  induction l generalizing s with
  | nil => rfl
  | cons a l ih =>
    rw [List.cons_append, exec_cons, exec_cons]
    cases step s a with
    | none => rfl
    | some t => exact ih

/-- One more step. -/
theorem exec_concat : exec step s (l ++ [a]) = (exec step s l).bind fun t => step t a := by
  rw [exec_append]
  cases exec step s l with
  | none => rfl
  | some t => exact Option.bind_fun_some (step t a)

theorem always_nil : Always step I s [] ↔ I s := by
  constructor
  · intro h
    exact h [] (List.prefix_refl _) s rfl
  · intro h p hp t ht
    obtain rfl := List.prefix_nil.mp hp
    cases ht
    exact h

theorem always_cons : Always step I s (a :: l) ↔
    I s ∧ ∀ t, step s a = some t → Always step I t l := by
  constructor
  · intro h
    refine ⟨h [] (List.nil_prefix) s rfl, fun t ht p hp u hu => ?_⟩
    exact h (a :: p) (List.cons_prefix_cons.mpr ⟨rfl, hp⟩) u (by rw [exec_cons, ht]; exact hu)
  · rintro ⟨hs, hl⟩ p hp t ht
    cases p with
    | nil =>
      cases ht
      exact hs
    | cons b p =>
      obtain ⟨rfl, hp'⟩ := List.cons_prefix_cons.mp hp
      rw [exec_cons] at ht
      obtain ⟨u, hu, hut⟩ := Option.bind_eq_some_iff.mp ht
      exact hl u hu p hp' t hut

theorem eachStep_nil : EachStep step C s [] := by
  intro p a hp
  simp at hp

theorem eachStep_cons : EachStep step C s (a :: l) ↔
    C s a ∧ ∀ t, step s a = some t → EachStep step C t l := by
  constructor
  · intro h
    refine ⟨h [] a (List.cons_prefix_cons.mpr ⟨rfl, List.nil_prefix⟩) s rfl, ?_⟩
    intro t ht p b hp u hu
    exact h (a :: p) b (List.cons_prefix_cons.mpr ⟨rfl, hp⟩) u (by rw [exec_cons, ht]; exact hu)
  · rintro ⟨hs, hl⟩ p b hp t ht
    cases p with
    | nil =>
      obtain ⟨rfl, -⟩ := List.cons_prefix_cons.mp hp
      cases ht
      exact hs
    | cons c p =>
      obtain ⟨rfl, hp'⟩ := List.cons_prefix_cons.mp hp
      rw [exec_cons] at ht
      obtain ⟨u, hu, hut⟩ := Option.bind_eq_some_iff.mp ht
      exact hl u hu p b hp' t hut

/-- **An invariant holds always.** -/
theorem Always.of_inv (hs : I s) (hstep : ∀ t a t', I t → step t a = some t' → I t') :
    Always step I s l := by
  induction l generalizing s with
  | nil => exact always_nil.mpr hs
  | cons a l ih => exact always_cons.mpr ⟨hs, fun t ht => ih (hstep s a t hs ht)⟩

/-- **What steps keep that meet a condition** holds always in a run of such steps. -/
theorem Always.of_eachStep (hs : I s) (hC : EachStep step C s l)
    (hstep : ∀ t a t', I t → C t a → step t a = some t' → I t') : Always step I s l := by
  induction l generalizing s with
  | nil => exact always_nil.mpr hs
  | cons a l ih =>
    obtain ⟨hCa, hCl⟩ := eachStep_cons.mp hC
    exact always_cons.mpr ⟨hs, fun t ht => ih (hstep s a t hs hCa ht) (hCl t ht)⟩

theorem EachStep.of_append {l' : List α} (h : EachStep step C s (l ++ l')) :
    EachStep step C s l :=
  fun p a hp => h p a (hp.trans (List.prefix_append _ _))

/-- What holds always holds at the end. -/
theorem Always.last (h : Always step I s l) {t : σ} (ht : exec step s l = some t) : I t :=
  h l (List.prefix_refl _) t ht

/-- **A property holds always exactly when each step keeps it**, along an invariant `J`. -/
theorem always_iff_eachStep (hJ : J s) (hinv : ∀ t a t', J t → step t a = some t' → J t')
    (hI : I s) (hkeep : ∀ t a t', J t → I t → step t a = some t' → (I t' ↔ C t a))
    (hrun : (exec step s l).isSome) : Always step I s l ↔ EachStep step C s l := by
  induction l generalizing s with
  | nil =>
    rw [always_nil]
    exact ⟨fun _ => eachStep_nil, fun _ => hI⟩
  | cons a l ih =>
    obtain ⟨t, ht⟩ : ∃ t, step s a = some t := by
      cases ht : step s a with
      | none => simp [exec_cons, ht] at hrun
      | some t => exact ⟨t, rfl⟩
    have hrun' : (exec step t l).isSome := by simpa [exec_cons, ht] using hrun
    rw [always_cons, eachStep_cons]
    constructor
    · rintro ⟨-, h⟩
      have hIt : I t := by
        have hl := h t ht
        cases l with
        | nil => exact always_nil.mp hl
        | cons b l => exact (always_cons.mp hl).1
      refine ⟨(hkeep s a t hJ hI ht).mp hIt, fun u hu => ?_⟩
      obtain rfl := Option.some_inj.mp (ht.symm.trans hu)
      exact (ih (hinv s a t hJ ht) hIt hrun').mp (h t ht)
    · rintro ⟨hC, h⟩
      have hIt := (hkeep s a t hJ hI ht).mpr hC
      refine ⟨hI, fun u hu => ?_⟩
      obtain rfl := Option.some_inj.mp (ht.symm.trans hu)
      exact (ih (hinv s a t hJ ht) hIt hrun').mpr (h t ht)

end Runs

end ClusterManager
