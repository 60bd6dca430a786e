import ClusterManager.Lib.Session

/-!
# Two sessions that cannot be told apart

Two sessions may keep different things in their memories and still be the same to the
environment: the same requests in the same states, the same result, the same state at the end.
`Session.Couples` says so of all memories in a relation `P`, and that a relation `Q` holds of
the memories afterwards when the sessions succeed. The rules go through both sessions at once,
one for each way to put a session together; those that end in `_left` take a step that only
the first one does, which is how a session is compared with one that keeps less.
-/

namespace ClusterManager

namespace Session

variable {C : Type} {R : C → Type} {μ ν ε α β σ : Type} {h : Handler C R σ}

/-- **From memories in `P` the sessions cannot be told apart**, and when they succeed with `a`
they leave memories in `Q a`. -/
def Couples (h : Handler C R σ) (P : μ → ν → Prop) (Q : α → μ → ν → Prop)
    (x : Session C R μ ε α) (y : Session C R ν ε α) : Prop :=
  ∀ m n s, P m n →
    (exec h x m s).1.1 = (exec h y n s).1.1 ∧ (exec h x m s).2 = (exec h y n s).2 ∧
      sent h x m s = sent h y n s ∧
      ∀ a, (exec h x m s).1.1 = .ok a → Q a (exec h x m s).1.2 (exec h y n s).1.2

namespace Couples

variable {P P' : μ → ν → Prop} {Q : α → μ → ν → Prop} {T : β → μ → ν → Prop}

/-- What is known besides the memories. -/
theorem of_fact {p : Prop} {x : Session C R μ ε α} {y : Session C R ν ε α}
    (hxy : p → Couples h P Q x y) : Couples h (fun m n => p ∧ P m n) Q x y :=
  fun m n s hmn => hxy hmn.1 m n s hmn.2

/-- The first session reads its memory. -/
theorem get_left {f : μ → Session C R μ ε α} {y : Session C R ν ε α}
    (hf : ∀ m n, P m n → Couples h P Q (f m) y) : Couples h P Q (get >>= f) y :=
  fun m n s hmn => hf m n hmn m n s hmn

/-- The first session writes its memory. -/
theorem modify_left {f : μ → μ} {x : PUnit → Session C R μ ε α} {y : Session C R ν ε α}
    (hP : ∀ m n, P m n → P' (f m) n) (hxy : Couples h P' Q (x ⟨⟩) y) :
    Couples h P Q (modify f >>= x) y := fun m n s hmn => hxy (f m) n s (hP m n hmn)

theorem pure {a : α} (hQ : ∀ m n, P m n → Q a m n) :
    Couples h P Q (Pure.pure a : Session C R μ ε α) (Pure.pure a) := by
  intro m n s hmn
  refine ⟨rfl, rfl, rfl, fun b hb => ?_⟩
  cases hb
  exact hQ m n hmn

theorem throw (e : ε) :
    Couples h P Q (MonadExcept.throw e : Session C R μ ε α) (MonadExcept.throw e) :=
  fun _ _ _ _ => ⟨rfl, rfl, rfl, nofun⟩

theorem lift (p : Program C R α) :
    Couples h P (fun _ => P) (liftM p : Session C R μ ε α) (liftM p) := by
  intro m n s hmn
  rw [exec_lift, exec_lift, sent_lift, sent_lift]
  exact ⟨rfl, rfl, rfl, fun _ _ => hmn⟩

theorem modify {f : μ → μ} {g : ν → ν} {Q : PUnit → μ → ν → Prop}
    (hQ : ∀ m n, P m n → Q ⟨⟩ (f m) (g n)) :
    Couples h P Q (modify f : Session C R μ ε PUnit) (modify g) :=
  fun m n _ hmn => ⟨rfl, rfl, rfl, fun _ _ => hQ m n hmn⟩

theorem bind {x : Session C R μ ε α} {y : Session C R ν ε α} {f : α → Session C R μ ε β}
    {g : α → Session C R ν ε β} (hxy : Couples h P Q x y)
    (hfg : ∀ a, Couples h (Q a) T (f a) (g a)) : Couples h P T (x >>= f) (y >>= g) := by
  intro m n s hmn
  obtain ⟨hr, hs, hsent, hQ⟩ := hxy m n s hmn
  rw [exec_bind, exec_bind, sent_bind, sent_bind, hsent]
  rcases hx : exec h x m s with ⟨⟨e | a, m₁⟩, s₁⟩ <;>
    rcases hy : exec h y n s with ⟨⟨e' | a', n₁⟩, s₂⟩ <;> rw [hx, hy] at hr hs hQ <;> cases hr <;>
    cases hs
  · exact ⟨rfl, rfl, rfl, nofun⟩
  · obtain ⟨hr, hs, hsent, hT⟩ := hfg a m₁ n₁ s₁ (hQ a rfl)
    exact ⟨hr, hs, congrArg (sent h y n s ++ ·) hsent, hT⟩

/-- Sessions that read their memories know that these are in `P`. -/
theorem get_bind {f : μ → Session C R μ ε α} {g : ν → Session C R ν ε α}
    (hfg : ∀ m n, P m n → Couples h P Q (f m) (g n)) :
    Couples h P Q (get >>= f) (get >>= g) := fun m n s hmn => hfg m n hmn m n s hmn

theorem forM {f : β → Session C R μ ε PUnit} {g : β → Session C R ν ε PUnit} {l : List β}
    (hfg : ∀ b ∈ l, Couples h P (fun _ => P) (f b) (g b)) :
    Couples h P (fun _ => P) (forM l f : Session C R μ ε PUnit) (forM l g) := by
  induction l with
  | nil => exact Couples.pure fun _ _ hmn => hmn
  | cons b l ih =>
    rw [List.forM_cons, List.forM_cons]
    exact (hfg b List.mem_cons_self).bind fun _ => ih fun b' hb' =>
      hfg b' (List.mem_cons_of_mem _ hb')

theorem fail {P : μ → ν → Prop} {Q : α → μ → ν → Prop} (msg : String) :
    Couples h P Q (Session.fail msg : Session C R μ Failure α) (Session.fail msg) :=
  Couples.throw _

theorem orFail (r : Except String α) (msg : String) :
    Couples h P (fun _ => P) (Session.orFail r msg : Session C R μ Failure α)
      (Session.orFail r msg) := by
  cases r
  · exact Couples.fail _
  · exact Couples.pure fun _ _ hmn => hmn

end Couples

end Session

end ClusterManager
