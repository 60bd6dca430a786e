import ClusterManager.Lib.Session

/-!
# Watching a program

What a program does is often asked in terms of its parts: which of them has been run, how
often, and which one it was in when it was stopped. The requests it sends do not say. So
the parts are made to say it themselves: a *watched* program makes remarks on the way
(`Watched.mark`), besides sending its requests, and a watching handler writes everything
down that it hears (`Handler.watch`), in the order in which it hears it.

Watching changes nothing. `Program.erase` takes the remarks out of a program again, and
`Program.run_watch` says that a watched program does under a watching handler what the
erased one does under the handler itself. `Session.watch` is the one way remarks are put
in here: a part says that it begins, and how it has ended.

`Program.Throughout` is a property that holds at every moment of a program, whenever it is
cut; what is written down until then is a part of the state, so it may speak of that.
-/

namespace ClusterManager

/-- A request of a program, or a remark of it. -/
inductive Watched (C E : Type) where
  | cmd (c : C)
  | mark (e : E)

variable {C E : Type} {R : C → Type} {α β σ μ ε : Type}

abbrev Watched.Reply (R : C → Type) : Watched C E → Type
  | .cmd c => R c
  | .mark _ => Unit

/-- A handler that writes everything down. -/
def Handler.watch (H : Handler C R σ) :
    Handler (Watched C E) (Watched.Reply R) (σ × List (Watched C E)) := fun w c =>
  match c with
  | .cmd c => ((H w.1 c).1, ((H w.1 c).2, w.2 ++ [.cmd c]))
  | .mark e => ((), (w.1, w.2 ++ [.mark e]))

namespace Program

/-- The program without its remarks. -/
def erase : Program (Watched C E) (Watched.Reply R) α → Program C R α
  | .done a => .done a
  | .request (.cmd c) next => .request c fun r => (next r).erase
  | .request (.mark _) next => (next ()).erase

/-- A program that makes no remarks, as one that could. -/
def watched (p : Program C R α) : Program (Watched C E) (Watched.Reply R) α :=
  p.embed Watched.cmd fun _ r => r

/-- Make a remark. -/
def remark (e : E) : Program (Watched C E) (Watched.Reply R) Unit :=
  send (R := Watched.Reply R) (Watched.mark e)

@[simp] theorem run_remark (H : Handler C R σ) (e : E) (w : σ × List (Watched C E)) :
    (remark e : Program (Watched C E) (Watched.Reply R) Unit).run H.watch w =
      ((), (w.1, w.2 ++ [.mark e])) := rfl

theorem erase_bind (p : Program (Watched C E) (Watched.Reply R) α)
    (f : α → Program (Watched C E) (Watched.Reply R) β) :
    (p >>= f).erase = p.erase >>= fun a => (f a).erase := by
  induction p with
  | done a => rfl
  | request c next ih =>
    cases c with
    | cmd c => exact congrArg (Program.request c) (funext ih)
    | mark e => exact ih ()

@[simp] theorem erase_watched (p : Program C R α) :
    (watched p : Program (Watched C E) (Watched.Reply R) α).erase = p := by
  induction p with
  | done a => rfl
  | request c next ih => exact congrArg (Program.request c) (funext ih)

/-- **Watching changes nothing**: the reply and the state are those of the program without
its remarks. -/
theorem run_watch (H : Handler C R σ) (p : Program (Watched C E) (Watched.Reply R) α) (w : σ)
    (log : List (Watched C E)) :
    (p.run H.watch (w, log)).1 = (p.erase.run H w).1 ∧
      (p.run H.watch (w, log)).2.1 = (p.erase.run H w).2 := by
  induction p generalizing w log with
  | done a => exact ⟨rfl, rfl⟩
  | request c next ih =>
    cases c with
    | cmd c => exact ih _ _ _
    | mark e => exact ih _ _ _

/-- What has been written down stays. -/
theorem runFor_watch_log (H : Handler C R σ) (p : Program (Watched C E) (Watched.Reply R) α)
    (n : ℕ) (w : σ) (log : List (Watched C E)) :
    ∃ l, (p.runFor H.watch n (w, log)).2.2 = log ++ l := by
  induction p generalizing n w log with
  | done a => exact ⟨[], by cases n <;> simp [runFor]⟩
  | request c next ih =>
    cases n with
    | zero => exact ⟨[], by simp [runFor]⟩
    | succ n =>
      cases c with
      | cmd c =>
        obtain ⟨l, hl⟩ := ih (H w c).1 n (H w c).2 (log ++ [.cmd c])
        exact ⟨.cmd c :: l, hl.trans (by simp)⟩
      | mark e =>
        obtain ⟨l, hl⟩ := ih () n w (log ++ [.mark e])
        exact ⟨.mark e :: l, hl.trans (by simp)⟩

/-- A program that makes no remarks, stopped at any moment: only its requests are written
down. -/
theorem runFor_watched (H : Handler C R σ) (p : Program C R α) (n : ℕ) (w : σ)
    (log : List (Watched C E)) :
    ∃ cs : List C, p.watched.runFor H.watch n (w, log) =
      ((p.runFor H n w).1, ((p.runFor H n w).2, log ++ cs.map Watched.cmd)) := by
  induction p generalizing n w log with
  | done a => exact ⟨[], by cases n <;> simp [runFor, watched, embed]⟩
  | request c next ih =>
    cases n with
    | zero => exact ⟨[], by simp [runFor, watched, embed]⟩
    | succ n =>
      obtain ⟨cs, hcs⟩ := ih (H w c).1 n (H w c).2 (log ++ [.cmd c])
      exact ⟨c :: cs, hcs.trans (by simp [runFor])⟩

theorem run_watched (H : Handler C R σ) (p : Program C R α) (w : σ)
    (log : List (Watched C E)) :
    ∃ cs : List C, p.watched.run H.watch (w, log) =
      ((p.run H w).1, ((p.run H w).2, log ++ cs.map Watched.cmd)) := by
  induction p generalizing w log with
  | done a => exact ⟨[], by simp [run, watched, embed]⟩
  | request c next ih =>
    obtain ⟨cs, hcs⟩ := ih (H w c).1 (H w c).2 (log ++ [.cmd c])
    exact ⟨c :: cs, hcs.trans (by simp [run])⟩

/-! ### At every moment -/

/-- `I` holds whenever the program is cut. -/
def Throughout (h : Handler C R σ) (I : σ → Prop) (p : Program C R α) (s : σ) : Prop :=
  ∀ n, I (p.runFor h n s).2

variable {h : Handler C R σ} {I : σ → Prop} {s : σ}

/-- A program that is given time enough returns. -/
theorem runFor_eq_some {p : Program C R α} {n k : ℕ} {a : α} {t : σ}
    (hp : p.runFor h n s = (some (a, k), t)) : p.run h s = (a, t) := by
  induction p generalizing n s with
  | done b =>
    cases n <;> cases hp <;> rfl
  | request c next ih =>
    cases n with
    | zero => cases hp
    | succ n => exact ih _ hp

theorem throughout_pure {a : α} (hs : I s) : Throughout h I (pure a : Program C R α) s := by
  intro n
  cases n <;> exact hs

/-- A program of one request has two moments. -/
theorem throughout_request {c : C} {f : R c → α} (hs : I s) (hc : I (h s c).2) :
    Throughout h I (.request c fun r => .done (f r)) s := by
  intro n
  match n with
  | 0 => exact hs
  | 1 => exact hc
  | _ + 2 => exact hc

theorem throughout_send {c : C} (hs : I s) (hc : I (h s c).2) :
    Throughout h I (send c : Program C R (R c)) s := throughout_request hs hc

theorem throughout_remark {H : Handler C R σ} {I : σ × List (Watched C E) → Prop} {e : E}
    {w : σ × List (Watched C E)} (hw : I w) (he : I (w.1, w.2 ++ [.mark e])) :
    Throughout H.watch I (remark e : Program (Watched C E) (Watched.Reply R) Unit) w :=
  throughout_send hw he

@[simp] theorem runFor_zero (p : Program C R α) : (p.runFor h 0 s).2 = s := by
  cases p <;> rfl

theorem Throughout.bind {p : Program C R α} {f : α → Program C R β} (hp : Throughout h I p s)
    (hf : Throughout h I (f (p.run h s).1) (p.run h s).2) : Throughout h I (p >>= f) s := by
  intro n
  rw [runFor_bind]
  have hcut := hp n
  rcases hr : p.runFor h n s with ⟨_ | ⟨a, k⟩, t⟩
  · rw [hr] at hcut
    exact hcut
  · have hrun := runFor_eq_some hr
    rw [hrun] at hf
    exact hf k

/-- What holds at every moment holds at the last one. -/
theorem Throughout.last {p : Program C R α} (hp : Throughout h I p s) : I (p.run h s).2 := by
  induction p generalizing s with
  | done a => exact hp 0
  | request c next ih => exact ih _ fun n => hp (n + 1)

theorem throughout_forM {f : α → Program C R PUnit} (l : List α)
    (hf : ∀ a s, I s → (f a).Throughout h I s) (hs : I s) : (forM l f).Throughout h I s := by
  induction l generalizing s with
  | nil => exact throughout_pure hs
  | cons a l ih =>
    rw [List.forM_cons]
    exact (hf a s hs).bind (ih (hf a s hs).last)

theorem Throughout.mono {J : σ → Prop} {p : Program C R α} (hp : Throughout h I p s)
    (himp : ∀ t, I t → J t) : Throughout h J p s := fun n => himp _ (hp n)

end Program

namespace Session

/-- `I` holds whenever the session is cut. -/
def Throughout (h : Handler C R σ) (I : σ → Prop) (x : Session C R μ ε α) (m : μ) (s : σ) : Prop :=
  (x.program m).Throughout h I s

variable {h : Handler C R σ} {I : σ → Prop} {m : μ} {s : σ}

theorem throughout_pure {a : α} (hs : I s) :
    Throughout h I (pure a : Session C R μ ε α) m s := Program.throughout_pure hs

theorem throughout_throw {e : ε} (hs : I s) :
    Throughout h I (throw e : Session C R μ ε α) m s := Program.throughout_pure hs

theorem throughout_orFail (r : Except String α) (msg : String) (hs : I s) :
    Throughout h I (orFail r msg : Session C R μ Failure α) m s := by
  rcases r with err | a
  · exact throughout_throw hs
  · exact throughout_pure hs

theorem throughout_lift {p : Program C R α} (hp : p.Throughout h I s) :
    Throughout h I (liftM p : Session C R μ ε α) m s := by
  rw [Throughout, program_lift]
  exact hp.bind (Program.throughout_pure hp.last)

theorem Throughout.last {x : Session C R μ ε α} (hx : Throughout h I x m s) :
    I (exec h x m s).2 := Program.Throughout.last hx

/-- A sequence is followed to the end of its first part, and from there if it goes on. -/
theorem Throughout.bind {x : Session C R μ ε α} {f : α → Session C R μ ε β}
    (hx : Throughout h I x m s)
    (hf : ∀ a m' s', exec h x m s = ((.ok a, m'), s') → Throughout h I (f a) m' s') :
    Throughout h I (x >>= f) m s := by
  have hlast := hx.last
  rw [Throughout, program_bind]
  refine Program.Throughout.bind hx ?_
  rw [show (x.program m).run h s = exec h x m s from rfl]
  rcases hr : exec h x m s with ⟨⟨e | a, m'⟩, s'⟩
  · rw [hr] at hlast
    exact Program.throughout_pure hlast
  · exact hf a m' s' hr

/-- Where nothing but `I` has to be handed on. -/
theorem Throughout.andThen {x : Session C R μ ε α} {f : α → Session C R μ ε β}
    (hx : Throughout h I x m s) (hf : ∀ a m' s', I s' → Throughout h I (f a) m' s') :
    Throughout h I (x >>= f) m s := by
  refine hx.bind fun a m' s' hexec => hf a m' s' ?_
  have hlast := hx.last
  rwa [hexec] at hlast

theorem Throughout.reflect {x : Session C R μ ε α} (hx : Throughout h I x m s) :
    Throughout h I x.reflect m s :=
  Program.Throughout.bind hx (Program.throughout_pure hx.last)

theorem Throughout.mono {J : σ → Prop} {x : Session C R μ ε α} (hx : Throughout h I x m s)
    (himp : ∀ t, I t → J t) : Throughout h J x m s := fun n => himp _ (hx n)

/-- **The frame rule at a cut**: what no request of a session changes holds throughout. -/
theorem Sends.throughout {ok : C → Prop} {x : Session C R μ ε α} (hx : Sends ok x)
    (hI : ∀ s c, ok c → I s → I (h s c).2) (hs : I s) : Throughout h I x m s :=
  fun _ => (hx m).runFor_inv hI hs

/-- `I` holds whenever the session is cut, and `Q` when it has come to its end. -/
def Within (h : Handler C R σ) (I : σ → Prop) (x : Session C R μ ε α) (m : μ) (s : σ)
    (Q : α → σ → Prop) : Prop :=
  Throughout h I x m s ∧ ∀ a m' s', exec h x m s = ((.ok a, m'), s') → Q a s'

theorem within_pure {a : α} {Q : α → σ → Prop} (hs : I s) (hQ : Q a s) :
    Within h I (pure a : Session C R μ ε α) m s Q := by
  refine ⟨throughout_pure hs, fun a' m' s' hexec => ?_⟩
  cases hexec
  exact hQ

theorem Within.mono {x : Session C R μ ε α} {J : σ → Prop} {P Q : α → σ → Prop}
    (hx : Within h I x m s P) (hI : ∀ t, I t → J t) (hP : ∀ a t, P a t → Q a t) :
    Within h J x m s Q :=
  ⟨Program.Throughout.mono hx.1 hI, fun a m' s' hexec => hP a s' (hx.2 a m' s' hexec)⟩

/-- **The rule of sequence**: what the first part ends with is what the second begins with. -/
theorem Within.bind {x : Session C R μ ε α} {f : α → Session C R μ ε β} {P : α → σ → Prop}
    {Q : β → σ → Prop} (hx : Within h I x m s P)
    (hf : ∀ a m' s', P a s' → Within h I (f a) m' s' Q) : Within h I (x >>= f) m s Q := by
  refine ⟨hx.1.bind fun a m' s' hexec => (hf a m' s' (hx.2 a m' s' hexec)).1, ?_⟩
  intro b m₂ s₂ hexec
  obtain ⟨a, m₁, s₁, hfirst, hsecond⟩ := exec_bind_ok hexec
  exact (hf a m₁ s₁ (hx.2 a m₁ s₁ hfirst)).2 b m₂ s₂ hsecond

/-! ### A part that says when it begins and how it has ended -/

/-- The session without its remarks. -/
def erase (x : Session (Watched C E) (Watched.Reply R) μ ε α) : Session C R μ ε α :=
  ExceptT.mk fun m => (x.program m).erase

/-- Say that the session begins, and whether it has succeeded when it has ended. -/
def watch (begins : E) (ends : Bool → E) (x : Session C R μ ε α) :
    Session (Watched C E) (Watched.Reply R) μ ε α :=
  ExceptT.mk fun m => do
    Program.remark begins
    let r ← (x.program m).watched
    Program.remark (ends r.1.isOk)
    return r

theorem program_ext {x y : Session C R μ ε α} (hxy : ∀ m, x.program m = y.program m) : x = y :=
  funext hxy

theorem erase_bind (x : Session (Watched C E) (Watched.Reply R) μ ε α)
    (f : α → Session (Watched C E) (Watched.Reply R) μ ε β) :
    (x >>= f).erase = x.erase >>= fun a => (f a).erase := by
  refine program_ext fun m => ?_
  show ((x >>= f).program m).erase = _
  rw [program_bind, program_bind, Program.erase_bind]
  refine congrArg ((x.program m).erase >>= ·) (funext fun r => ?_)
  obtain ⟨e | a, m'⟩ := r <;> rfl

@[simp] theorem erase_pure (a : α) :
    (pure a : Session (Watched C E) (Watched.Reply R) μ ε α).erase = pure a := rfl

@[simp] theorem erase_throw (e : ε) :
    (throw e : Session (Watched C E) (Watched.Reply R) μ ε α).erase = throw e := rfl

theorem erase_reflect (x : Session (Watched C E) (Watched.Reply R) μ ε α) :
    x.reflect.erase = x.erase.reflect :=
  program_ext fun _ => Program.erase_bind _ _

theorem erase_lift (p : Program (Watched C E) (Watched.Reply R) α) :
    (liftM p : Session (Watched C E) (Watched.Reply R) μ ε α).erase = liftM p.erase := by
  refine program_ext fun m => ?_
  show ((liftM p : Session (Watched C E) (Watched.Reply R) μ ε α).program m).erase = _
  rw [program_lift, program_lift, Program.erase_bind]
  rfl

@[simp] theorem erase_watch (begins : E) (ends : Bool → E) (x : Session C R μ ε α) :
    (x.watch begins ends).erase = x := by
  refine program_ext fun m => ?_
  show Program.erase ((x.program m).watched >>= fun r =>
    Program.remark (ends r.1.isOk) >>= fun _ => pure r) = _
  rw [Program.erase_bind, Program.erase_watched]
  exact Program.bind_done _

/-- **Watching changes nothing**, with a memory. -/
theorem exec_watched (H : Handler C R σ) (x : Session (Watched C E) (Watched.Reply R) μ ε α)
    (m : μ) (w : σ) (log : List (Watched C E)) :
    ∃ log', exec H.watch x m (w, log) =
      ((exec H x.erase m w).1, ((exec H x.erase m w).2, log')) := by
  obtain ⟨hreply, hstate⟩ := Program.run_watch H (x.program m) w log
  exact ⟨(exec H.watch x m (w, log)).2.2, Prod.ext hreply (Prod.ext hstate rfl)⟩

/-- What is written down of a part. -/
theorem exec_watch (H : Handler C R σ) (begins : E) (ends : Bool → E) (x : Session C R μ ε α)
    (m : μ) (w : σ) (log : List (Watched C E)) :
    ∃ cs : List C, exec H.watch (x.watch begins ends) m (w, log) =
      ((exec H x m w).1, ((exec H x m w).2,
        log ++ .mark begins ::
          (cs.map Watched.cmd ++ [.mark (ends (exec H x m w).1.1.isOk)]))) := by
  obtain ⟨cs, hcs⟩ := Program.run_watched H (x.program m) w (log ++ [.mark begins])
  refine ⟨cs, ?_⟩
  show Program.run H.watch (Program.remark begins >>= fun _ =>
    (x.program m).watched >>= fun r => Program.remark (ends r.1.isOk) >>= fun _ => pure r)
      (w, log) = _
  rw [Program.run_bind, Program.run_remark, Program.run_bind, hcs, Program.run_bind,
    Program.run_remark]
  simp [exec]

/-- What holds at every moment of a part. -/
theorem throughout_watch {H : Handler C R σ} {I : σ × List (Watched C E) → Prop} {begins : E}
    {ends : Bool → E} {x : Session C R μ ε α} {m : μ} {w : σ} {log : List (Watched C E)}
    (hstart : I (w, log))
    (hbody : ∀ n (cs : List C), I (((x.program m).runFor H n w).2,
      log ++ .mark begins :: cs.map Watched.cmd))
    (hend : ∀ cs : List C, I ((exec H x m w).2,
      log ++ .mark begins :: (cs.map Watched.cmd ++ [.mark (ends (exec H x m w).1.1.isOk)]))) :
    Throughout H.watch I (x.watch begins ends) m (w, log) := by
  have hwatched : (x.program m).watched.Throughout H.watch I (w, log ++ [.mark begins]) := by
    intro n
    obtain ⟨cs, hcs⟩ := Program.runFor_watched H (x.program m) n w (log ++ [.mark begins])
    rw [hcs]
    simpa using hbody n cs
  obtain ⟨cs, hcs⟩ := Program.run_watched H (x.program m) w (log ++ [.mark begins])
  have hdone := hend cs
  have hlast := hwatched.last
  show Program.Throughout H.watch I (Program.remark begins >>= fun _ =>
    (x.program m).watched >>= fun r => Program.remark (ends r.1.isOk) >>= fun _ => pure r) (w, log)
  refine Program.Throughout.bind (Program.throughout_remark hstart ?_) ?_
  · simpa using hbody 0 []
  rw [Program.run_remark]
  refine Program.Throughout.bind hwatched ?_
  rw [hcs] at hlast ⊢
  refine Program.Throughout.bind (Program.throughout_remark hlast ?_) ?_
  · simpa [exec] using hdone
  · rw [Program.run_remark]
    exact Program.throughout_pure (by simpa [exec] using hdone)

end Session

end ClusterManager
