import ClusterManager.Lib.Program

/-!
# Programs with a memory that can fail

A `Session` is a program that has a memory `μ` of its own besides the environment it
talks to, and that may end with a failure in `ε`. The memory is kept when it fails: what
has been written before stays written.

`Session.exec` runs a session against a handler, from a memory and a state of the
environment to what it has returned and both of them afterwards; `Session.sent` are the
requests it has sent on the way. The rules are those of `Program`, one for each way to
put a session together, with sequencing split by how the first part has ended.
`Session.Keeps` is the frame rule for the memory: what no part of a session changes in
the memory, the session does not change, whatever it is answered. `Session.Sends` is the
one for the environment: what no request of it changes there.
-/

namespace ClusterManager

/-- A program over the requests `C` with a memory `μ` and failures `ε`. -/
abbrev Session (C : Type) (R : C → Type) (μ ε : Type) := ExceptT ε (StateT μ (Program C R))

/-- How a session of a Go program fails: it returns an error, or it panics. -/
inductive Failure where
  | error (msg : String)
  | panic (msg : String)
  deriving DecidableEq, Repr

namespace Session

variable {C : Type} {R : C → Type} {μ ε α β σ : Type}

/-- The program of a session, from a memory. -/
def program (x : Session C R μ ε α) (m : μ) : Program C R (Except ε α × μ) := x.run.run m

/-- What a session has returned, its memory, and the environment afterwards. -/
def exec (h : Handler C R σ) (x : Session C R μ ε α) (m : μ) (s : σ) : (Except ε α × μ) × σ :=
  (x.program m).run h s

/-- The requests a session sends, each with the state it was sent in. -/
def sent (h : Handler C R σ) (x : Session C R μ ε α) (m : μ) (s : σ) : List (C × σ) :=
  (x.program m).trace h s

theorem program_bind (x : Session C R μ ε α) (f : α → Session C R μ ε β) (m : μ) :
    (x >>= f).program m = x.program m >>= fun r => match r.1 with
      | .ok a => (f a).program r.2
      | .error e => pure (.error e, r.2) := by
  refine congrArg (x.program m >>= ·) (funext fun r => ?_)
  obtain ⟨r | a, m'⟩ := r <;> rfl

/-- Run a session to its end and return how it has ended. -/
def reflect (x : Session C R μ ε α) : Session C R μ ε (Except ε α) :=
  ExceptT.mk fun m => do
    let r ← x.program m
    return (.ok r.1, r.2)

theorem program_reflect (x : Session C R μ ε α) (m : μ) :
    x.reflect.program m = x.program m >>= fun r => pure (.ok r.1, r.2) := rfl

theorem program_lift (p : Program C R α) (m : μ) :
    (liftM p : Session C R μ ε α).program m = p >>= fun a => pure (.ok a, m) := by
  show (p >>= fun a => pure (a, m)) >>= (fun r : α × μ => pure (Except.ok r.1, r.2)) = _
  rw [bind_assoc]
  rfl

theorem program_tryCatch (x : Session C R μ ε α) (f : ε → Session C R μ ε α) (m : μ) :
    (tryCatch x f).program m = x.program m >>= fun r => match r.1 with
      | .ok a => pure (.ok a, r.2)
      | .error e => (f e).program r.2 := by
  refine congrArg (x.program m >>= ·) (funext fun r => ?_)
  obtain ⟨r | a, m'⟩ := r <;> rfl

variable (h : Handler C R σ) (m : μ) (s : σ)

@[simp] theorem exec_pure (a : α) :
    exec h (pure a : Session C R μ ε α) m s = ((.ok a, m), s) := rfl

@[simp] theorem exec_throw (e : ε) :
    exec h (throw e : Session C R μ ε α) m s = ((.error e, m), s) := rfl

@[simp] theorem throw_bind (e : ε) (f : α → Session C R μ ε β) :
    (throw e : Session C R μ ε α) >>= f = throw e := rfl

@[simp] theorem exec_get : exec h (get : Session C R μ ε μ) m s = ((.ok m, m), s) := rfl

@[simp] theorem exec_set (m' : μ) :
    exec h (set m' : Session C R μ ε PUnit) m s = ((.ok ⟨⟩, m'), s) := rfl

@[simp] theorem exec_modify (f : μ → μ) :
    exec h (modify f : Session C R μ ε PUnit) m s = ((.ok ⟨⟩, f m), s) := rfl

@[simp] theorem exec_lift (p : Program C R α) :
    exec h (liftM p : Session C R μ ε α) m s = ((.ok (p.run h s).1, m), (p.run h s).2) := by
  rw [exec, program_lift, Program.run_bind]
  rfl

theorem exec_bind (x : Session C R μ ε α) (f : α → Session C R μ ε β) :
    exec h (x >>= f) m s = match exec h x m s with
      | ((.ok a, m'), s') => exec h (f a) m' s'
      | ((.error e, m'), s') => ((.error e, m'), s') := by
  rw [exec, program_bind, Program.run_bind]
  show Program.run h (match (exec h x m s).1.1 with
    | .ok a => (f a).program (exec h x m s).1.2
    | .error e => pure (.error e, (exec h x m s).1.2)) (exec h x m s).2 = _
  rcases exec h x m s with ⟨⟨e | a, m'⟩, s'⟩ <;> rfl

theorem sent_bind (x : Session C R μ ε α) (f : α → Session C R μ ε β) :
    sent h (x >>= f) m s = sent h x m s ++ match exec h x m s with
      | ((.ok a, m'), s') => sent h (f a) m' s'
      | ((.error _, _), _) => [] := by
  rw [sent, program_bind, Program.trace_bind]
  refine congrArg (sent h x m s ++ ·) ?_
  show Program.trace h (match (exec h x m s).1.1 with
    | .ok a => (f a).program (exec h x m s).1.2
    | .error e => pure (.error e, (exec h x m s).1.2)) (exec h x m s).2 = _
  rcases exec h x m s with ⟨⟨e | a, m'⟩, s'⟩ <;> rfl

section Ok

variable {h m s} {x : Session C R μ ε α} {f : α → Session C R μ ε β} {m₁ m' : μ} {s₁ s' : σ}

/-- A sequence goes on where its first part has ended. -/
theorem exec_bind_of_ok {a : α} (hx : exec h x m s = ((.ok a, m₁), s₁)) :
    exec h (x >>= f) m s = exec h (f a) m₁ s₁ := by
  rw [exec_bind, hx]

theorem sent_bind_of_ok {a : α} (hx : exec h x m s = ((.ok a, m₁), s₁)) :
    sent h (x >>= f) m s = sent h x m s ++ sent h (f a) m₁ s₁ := by
  rw [sent_bind, hx]

/-- A sequence that succeeds has parts that succeed. -/
theorem exec_bind_ok {b : β} (hxf : exec h (x >>= f) m s = ((.ok b, m'), s')) :
    ∃ a m₁ s₁, exec h x m s = ((.ok a, m₁), s₁) ∧ exec h (f a) m₁ s₁ = ((.ok b, m'), s') := by
  rw [exec_bind] at hxf
  rcases hx : exec h x m s with ⟨⟨e | a, m₁⟩, s₁⟩
  · rw [hx] at hxf
    cases hxf
  · rw [hx] at hxf
    exact ⟨a, m₁, s₁, rfl, hxf⟩

end Ok

/-- A loop that only writes. -/
theorem exec_forM_modify (f : α → μ → μ) (l : List α) :
    exec h (forM l fun a => modify (f a) : Session C R μ ε PUnit) m s =
      ((.ok ⟨⟩, l.foldl (fun m a => f a m) m), s) := by
  induction l generalizing m with
  | nil => rfl
  | cons a l ih =>
    rw [List.forM_cons, exec_bind, exec_modify]
    exact ih (f a m)

@[simp] theorem exec_map (x : Session C R μ ε α) (f : α → β) :
    exec h (f <$> x) m s =
      (((exec h x m s).1.1.map f, (exec h x m s).1.2), (exec h x m s).2) := by
  rw [map_eq_pure_bind, exec_bind]
  rcases exec h x m s with ⟨⟨e | a, m'⟩, s'⟩ <;> rfl

@[simp] theorem exec_reflect (x : Session C R μ ε α) :
    exec h x.reflect m s = ((.ok (exec h x m s).1.1, (exec h x m s).1.2), (exec h x m s).2) := by
  rw [exec, program_reflect, Program.run_bind]
  rfl

theorem exec_tryCatch (x : Session C R μ ε α) (f : ε → Session C R μ ε α) :
    exec h (tryCatch x f) m s = match exec h x m s with
      | ((.ok a, m'), s') => ((.ok a, m'), s')
      | ((.error e, m'), s') => exec h (f e) m' s' := by
  rw [exec, program_tryCatch, Program.run_bind]
  show Program.run h (match (exec h x m s).1.1 with
    | .ok a => pure (.ok a, (exec h x m s).1.2)
    | .error e => (f e).program (exec h x m s).1.2) (exec h x m s).2 = _
  rcases exec h x m s with ⟨⟨e | a, m'⟩, s'⟩ <;> rfl

theorem sent_tryCatch (x : Session C R μ ε α) (f : ε → Session C R μ ε α) :
    sent h (tryCatch x f) m s = sent h x m s ++ match exec h x m s with
      | ((.ok _, _), _) => []
      | ((.error e, m'), s') => sent h (f e) m' s' := by
  rw [sent, program_tryCatch, Program.trace_bind]
  refine congrArg (sent h x m s ++ ·) ?_
  show Program.trace h (match (exec h x m s).1.1 with
    | .ok a => pure (.ok a, (exec h x m s).1.2)
    | .error e => (f e).program (exec h x m s).1.2) (exec h x m s).2 = _
  rcases exec h x m s with ⟨⟨e | a, m'⟩, s'⟩ <;> rfl

@[simp] theorem sent_pure (a : α) : sent h (pure a : Session C R μ ε α) m s = [] := rfl

@[simp] theorem sent_throw (e : ε) : sent h (throw e : Session C R μ ε α) m s = [] := rfl

@[simp] theorem sent_get : sent h (get : Session C R μ ε μ) m s = [] := rfl

@[simp] theorem sent_modify (f : μ → μ) :
    sent h (modify f : Session C R μ ε PUnit) m s = [] := rfl

@[simp] theorem sent_set (m' : μ) : sent h (set m' : Session C R μ ε PUnit) m s = [] := rfl

@[simp] theorem sent_send (c : C) :
    sent h (liftM (Program.send c : Program C R (R c)) : Session C R μ ε (R c)) m s = [(c, s)] :=
  rfl

@[simp] theorem sent_lift (p : Program C R α) :
    sent h (liftM p : Session C R μ ε α) m s = p.trace h s := by
  rw [sent, program_lift, Program.trace_bind, Program.trace_pure, List.append_nil]

@[simp] theorem sent_map (x : Session C R μ ε α) (f : α → β) :
    sent h (f <$> x) m s = sent h x m s := by
  rw [map_eq_pure_bind, sent_bind]
  rcases exec h x m s with ⟨⟨e | a, m'⟩, s'⟩ <;> simp

theorem sent_reflect (x : Session C R μ ε α) : sent h x.reflect m s = sent h x m s := by
  rw [sent, program_reflect, Program.trace_bind]
  exact List.append_nil _

/-- A session leaves what its requests leave. -/
theorem after_sent (x : Session C R μ ε α) :
    h.after ((sent h x m s).map Prod.fst) s = (exec h x m s).2 :=
  (Program.run_snd h (x.program m) s).symm

/-! ### Errors -/

section Errors

/-- Return an error. -/
def fail (msg : String) : Session C R μ Failure α := throw (.error msg)

/-- Go on with a reply, or return its error with something said before it. -/
def orFail (r : Except String α) (msg : String) : Session C R μ Failure α :=
  match r with
  | .ok a => return a
  | .error err => fail (msg ++ err)

/-- Say something before an error that is returned. -/
def wrap (msg : String) (x : Session C R μ Failure α) : Session C R μ Failure α :=
  tryCatch x fun
    | .error err => throw (.error (msg ++ err))
    | .panic err => throw (.panic err)

@[simp] theorem fail_bind (msg : String) (f : α → Session C R μ Failure β) :
    fail msg >>= f = fail msg := rfl

@[simp] theorem exec_fail (msg : String) :
    exec h (fail msg : Session C R μ Failure α) m s = ((.error (.error msg), m), s) := rfl

@[simp] theorem exec_orFail_ok (a : α) (msg : String) :
    exec h (orFail (.ok a) msg : Session C R μ Failure α) m s = ((.ok a, m), s) := rfl

@[simp] theorem exec_orFail_error (err msg : String) :
    exec h (orFail (.error err) msg : Session C R μ Failure α) m s =
      ((.error (.error (msg ++ err)), m), s) := rfl

theorem orFail_ok {r : Except String α} {msg : String} {a : α} {m' : μ} {s' : σ}
    (hr : exec h (orFail r msg : Session C R μ Failure α) m s = ((.ok a, m'), s')) :
    m' = m ∧ s' = s := by
  cases r <;> cases hr
  exact ⟨rfl, rfl⟩

@[simp] theorem sent_fail (msg : String) :
    sent h (fail msg : Session C R μ Failure α) m s = [] := rfl

@[simp] theorem sent_orFail (r : Except String α) (msg : String) :
    sent h (orFail r msg : Session C R μ Failure α) m s = [] := by
  cases r <;> rfl

end Errors

/-! ### What a session keeps in its memory -/

/-- Whatever it is answered, the session keeps `I` of its memory. -/
def Keeps (I : μ → Prop) (x : Session C R μ ε α) : Prop :=
  ∀ m, I m → (x.program m).Returns fun r => I r.2

variable {I : μ → Prop} {h m s}

theorem Keeps.exec {x : Session C R μ ε α} (hx : Keeps I x) (hm : I m) :
    I (exec h x m s).1.2 := (hx m hm).run

theorem Keeps.pure (a : α) : Keeps I (Pure.pure a : Session C R μ ε α) := fun _ hm => hm

theorem Keeps.throw (e : ε) : Keeps I (MonadExcept.throw e : Session C R μ ε α) := fun _ hm => hm

theorem Keeps.modify {f : μ → μ} (hf : ∀ m, I m → I (f m)) :
    Keeps I (modify f : Session C R μ ε PUnit) := hf

theorem Keeps.set (hm : I m) : Keeps I (set m : Session C R μ ε PUnit) := fun _ _ => hm

theorem Keeps.lift (p : Program C R α) : Keeps I (liftM p : Session C R μ ε α) := by
  intro m hm
  rw [program_lift]
  exact p.returns_true.bind fun _ _ => hm

theorem Keeps.bind {x : Session C R μ ε α} {f : α → Session C R μ ε β} (hx : Keeps I x)
    (hf : ∀ a, Keeps I (f a)) : Keeps I (x >>= f) := by
  intro m hm
  rw [program_bind]
  refine (hx m hm).bind fun r hr => ?_
  split
  · exact hf _ _ hr
  · exact hr

/-- A session that reads the memory knows `I` of what it has read. -/
theorem Keeps.get_bind {f : μ → Session C R μ ε β} (hf : ∀ m, I m → Keeps I (f m)) :
    Keeps I (get >>= f) := fun m hm => hf m hm m hm

theorem Keeps.tryCatch {x : Session C R μ ε α} {f : ε → Session C R μ ε α} (hx : Keeps I x)
    (hf : ∀ e, Keeps I (f e)) : Keeps I (tryCatch x f) := by
  intro m hm
  rw [program_tryCatch]
  refine (hx m hm).bind fun r hr => ?_
  split
  · exact hr
  · exact hf _ _ hr

theorem Keeps.forM {f : α → Session C R μ ε PUnit} {l : List α} (hf : ∀ a ∈ l, Keeps I (f a)) :
    Keeps I (forM l f : Session C R μ ε PUnit) := by
  induction l with
  | nil => exact Keeps.pure _
  | cons a l ih =>
    rw [List.forM_cons]
    exact (hf a (by simp)).bind fun _ => ih fun b hb => hf b (by simp [hb])

theorem Keeps.fail (msg : String) (I : μ → Prop) :
    Keeps I (fail msg : Session C R μ Failure α) := fun _ hm => hm

theorem Keeps.orFail (r : Except String α) (msg : String) :
    Keeps I (orFail r msg : Session C R μ Failure α) := by
  cases r
  · exact Keeps.fail _ I
  · exact Keeps.pure _

theorem Keeps.wrap {x : Session C R μ Failure α} (hx : Keeps I x) (msg : String) :
    Keeps I (wrap msg x) := by
  refine hx.tryCatch fun e => ?_
  cases e <;> exact Keeps.throw _

/-! ### The requests a session can send -/

/-- Every request the session can send, whatever it is answered, is in `ok`. -/
def Sends (ok : C → Prop) (x : Session C R μ ε α) : Prop := ∀ m, (x.program m).Sends ok

variable {ok : C → Prop}

/-- What no request of a session changes holds after it. -/
theorem Sends.exec_inv {J : σ → Prop} {x : Session C R μ ε α} (hx : Sends ok x)
    (hJ : ∀ s c, ok c → J s → J (h s c).2) (hs : J s) : J (Session.exec h x m s).2 :=
  (hx m).run_inv hJ hs

/-- A session that can send nothing sends nothing. -/
theorem Sends.sent_eq_nil {x : Session C R μ ε α} (hx : Sends (fun _ => False) x) :
    sent h x m s = [] :=
  List.eq_nil_iff_forall_not_mem.mpr fun y hy => (hx m).trace y hy

theorem sends_true (x : Session C R μ ε α) : Sends (fun _ => True) x :=
  fun m => (x.program m).sends_true

theorem Sends.mono {ok' : C → Prop} {x : Session C R μ ε α} (hx : Sends ok x)
    (himp : ∀ c, ok c → ok' c) : Sends ok' x := fun m => (hx m).mono himp

theorem Sends.pure (a : α) : Sends ok (Pure.pure a : Session C R μ ε α) := fun _ => trivial

theorem Sends.throw (e : ε) : Sends ok (MonadExcept.throw e : Session C R μ ε α) := fun _ => trivial

theorem Sends.get : Sends ok (get : Session C R μ ε μ) := fun _ => trivial

theorem Sends.modify (f : μ → μ) : Sends ok (modify f : Session C R μ ε PUnit) := fun _ => trivial

theorem Sends.lift {p : Program C R α} (hp : p.Sends ok) :
    Sends ok (liftM p : Session C R μ ε α) := by
  intro m
  rw [program_lift]
  exact hp.bind fun _ => trivial

theorem Sends.bind {x : Session C R μ ε α} {f : α → Session C R μ ε β} (hx : Sends ok x)
    (hf : ∀ a, Sends ok (f a)) : Sends ok (x >>= f) := by
  intro m
  rw [program_bind]
  refine (hx m).bind fun r => ?_
  split
  · exact hf _ _
  · trivial

theorem Sends.tryCatch {x : Session C R μ ε α} {f : ε → Session C R μ ε α} (hx : Sends ok x)
    (hf : ∀ e, Sends ok (f e)) : Sends ok (tryCatch x f) := by
  intro m
  rw [program_tryCatch]
  refine (hx m).bind fun r => ?_
  split
  · trivial
  · exact hf _ _

theorem Sends.forM {f : α → Session C R μ ε PUnit} {l : List α} (hf : ∀ a ∈ l, Sends ok (f a)) :
    Sends ok (forM l f : Session C R μ ε PUnit) := by
  induction l with
  | nil => exact Sends.pure _
  | cons a l ih =>
    rw [List.forM_cons]
    exact (hf a (by simp)).bind fun _ => ih fun b hb => hf b (by simp [hb])

theorem Sends.ite {p : Prop} [Decidable p] {x y : Session C R μ ε α} (hx : Sends ok x)
    (hy : Sends ok y) : Sends ok (if p then x else y) := by
  split
  · exact hx
  · exact hy

theorem Sends.fail (msg : String) : Sends ok (fail msg : Session C R μ Failure α) :=
  fun _ => trivial

theorem Sends.orFail (r : Except String α) (msg : String) :
    Sends ok (orFail r msg : Session C R μ Failure α) := by
  cases r <;> exact fun _ => trivial

theorem Sends.wrap {x : Session C R μ Failure α} (hx : Sends ok x) (msg : String) :
    Sends ok (wrap msg x) := by
  refine hx.tryCatch fun e => ?_
  cases e <;> exact Sends.throw _

/-! ### A session in a larger environment -/

variable {D : Type} {S : D → Type} {ω : Type}

/-- The session with each request `c` sent as `f c`. -/
def embed (f : C → D) (g : ∀ c, S (f c) → R c) (x : Session C R μ ε α) : Session D S μ ε α :=
  ExceptT.mk fun m => (x.program m).embed f g

theorem exec_embed {f : C → D} {g : ∀ c, S (f c) → R c} {H : Handler D S ω}
    {h : ω → Handler C R σ} (e : Program.Embedding f g H h) (x : Session C R μ ε α) (m : μ)
    (w : ω) :
    Session.exec H (x.embed f g) m w =
      ((Session.exec (h w) x m (e.get w)).1, e.put w (Session.exec (h w) x m (e.get w)).2) :=
  Program.run_embed e _ w

theorem sent_embed {f : C → D} {g : ∀ c, S (f c) → R c} {H : Handler D S ω}
    {h : ω → Handler C R σ} (e : Program.Embedding f g H h) (x : Session C R μ ε α) (m : μ)
    (w : ω) :
    Session.sent H (x.embed f g) m w =
      (Session.sent (h w) x m (e.get w)).map fun y => (f y.1, e.put w y.2) :=
  Program.trace_embed e _ w

theorem Keeps.embed {f : C → D} {g : ∀ c, S (f c) → R c} {x : Session C R μ ε α}
    (hx : Keeps I x) : Keeps I (x.embed f g) := fun m hm => (hx m hm).embed

theorem Sends.embed {f : C → D} {g : ∀ c, S (f c) → R c} (x : Session C R μ ε α) :
    Sends (fun d => ∃ c, d = f c) (x.embed f g) :=
  fun m => (x.program m).sends_true.embed fun c _ => ⟨c, rfl⟩

end Session

end ClusterManager
