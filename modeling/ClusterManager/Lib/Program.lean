import Mathlib.Data.List.Basic
import Mathlib.Logic.Function.Basic

/-!
# Programs that talk to an environment

A program that does something outside itself sends a request and goes on with the
reply. `Program` is the tree of such exchanges: a leaf has returned, a node sends
one request and has one subtree per reply. Nothing is said here about what the
requests mean; that is the business of a `Handler`, which answers a request in a
state and moves to the next state.

Keeping the tree apart from the handler is what lets one text of a program be read
in several ways:

* `Program.run` – the whole exchange, from a state to the value returned and the
  state left behind;
* `Program.trace` – the requests sent, each with the state it was sent in, which is
  what a statement about *when* a request is sent is about;
* `Program.runFor` – the exchange cut after a number of requests, which is what a
  crash of the program leaves of it.

The three readings commute with sequencing (`Program.run_bind`,
`Program.trace_bind`, `Program.runFor_bind`), so what is proved of the parts of a
program composes. `Program.Sends` says which requests a program can send at all, and
`Program.Sends.run_inv` is the frame rule that follows: what no sendable request
changes, the program does not change. `Program.Returns` says what it can return, whatever
the replies.

A program over some of the requests of a larger environment is put there by
`Program.embed`; `Program.run_embed` says that it runs as before on its part of the state.
-/

namespace ClusterManager

/-- A program over the requests `C`, the request `c` being answered by an `R c`. -/
inductive Program (C : Type) (R : C → Type) (α : Type) where
  /-- The program has returned. -/
  | done (a : α) : Program C R α
  /-- The program sends `c` and continues with the reply. -/
  | request (c : C) (next : R c → Program C R α) : Program C R α

/-- What the environment does with a request: a reply, and the state after it. -/
abbrev Handler (C : Type) (R : C → Type) (σ : Type) := σ → (c : C) → R c × σ

namespace Program

variable {C : Type} {R : C → Type} {α β γ σ : Type}

/-- Sequencing: graft the second program on the leaves of the first. -/
def bind : Program C R α → (α → Program C R β) → Program C R β
  | .done a, f => f a
  | .request c next, f => .request c fun r => (next r).bind f

/-- The program that sends one request and returns its reply. -/
def send (c : C) : Program C R (R c) := .request c .done

instance : Monad (Program C R) where
  pure := .done
  bind := .bind

theorem bind_assoc (p : Program C R α) (f : α → Program C R β) (g : β → Program C R γ) :
    (p.bind f).bind g = p.bind fun a => (f a).bind g := by
  induction p with
  | done a => rfl
  | request c next ih =>
    simp only [bind]
    exact congrArg (Program.request c) (funext ih)

theorem bind_done (p : Program C R α) : p.bind .done = p := by
  induction p with
  | done a => rfl
  | request c next ih =>
    simp only [bind]
    exact congrArg (Program.request c) (funext ih)

instance : LawfulMonad (Program C R) :=
  LawfulMonad.mk' _ (fun p => p.bind_done) (fun _ _ => rfl) fun p f g => p.bind_assoc f g

/-! ### Running a program -/

/-- The value a program returns and the state it leaves behind. -/
def run (h : Handler C R σ) : Program C R α → σ → α × σ
  | .done a, s => (a, s)
  | .request c next, s => (next (h s c).1).run h (h s c).2

/-- The requests a program sends, each with the state it was sent in. -/
def trace (h : Handler C R σ) : Program C R α → σ → List (C × σ)
  | .done _, _ => []
  | .request c next, s => (c, s) :: (next (h s c).1).trace h (h s c).2

/-- The program cut after `n` requests: what it has returned with the requests it
had left, if it got that far, and the state at that moment. -/
def runFor (h : Handler C R σ) : ℕ → Program C R α → σ → Option (α × ℕ) × σ
  | n, .done a, s => (some (a, n), s)
  | 0, .request _ _, s => (none, s)
  | n + 1, .request c next, s => runFor h n (next (h s c).1) (h s c).2

variable (h : Handler C R σ)

@[simp] theorem run_pure (a : α) (s : σ) : (pure a : Program C R α).run h s = (a, s) := rfl

@[simp] theorem run_send (c : C) (s : σ) : (send c : Program C R (R c)).run h s = h s c := rfl

@[simp] theorem run_bind (p : Program C R α) (f : α → Program C R β) (s : σ) :
    (p >>= f).run h s = (f (p.run h s).1).run h (p.run h s).2 := by
  induction p generalizing s with
  | done a => rfl
  | request c next ih => exact ih _ _

@[simp] theorem trace_pure (a : α) (s : σ) : (pure a : Program C R α).trace h s = [] := rfl

@[simp] theorem trace_send (c : C) (s : σ) :
    (send c : Program C R (R c)).trace h s = [(c, s)] := rfl

@[simp] theorem trace_bind (p : Program C R α) (f : α → Program C R β) (s : σ) :
    (p >>= f).trace h s = p.trace h s ++ (f (p.run h s).1).trace h (p.run h s).2 := by
  induction p generalizing s with
  | done a => rfl
  | request c next ih => exact congrArg ((c, s) :: ·) (ih _ _)

/-! ### Cutting a program -/

/-- A program cut inside its first part has not started its second. -/
theorem runFor_bind (p : Program C R α) (f : α → Program C R β) (n : ℕ) (s : σ) :
    (p >>= f).runFor h n s = match p.runFor h n s with
      | (none, s') => (none, s')
      | (some (a, m), s') => (f a).runFor h m s' := by
  induction p generalizing n s with
  | done a => cases n <;> rfl
  | request c next ih =>
    cases n with
    | zero => rfl
    | succ n => exact ih _ _ _

/-! ### The requests one after the other -/

end Program

/-- The state after requests. -/
def Handler.after {C : Type} {R : C → Type} {σ : Type} (h : Handler C R σ) (l : List C)
    (s : σ) : σ :=
  l.foldl (fun t c => (h t c).2) s

theorem Handler.after_append {C : Type} {R : C → Type} {σ : Type} (h : Handler C R σ)
    (l l' : List C)
    (s : σ) : h.after (l ++ l') s = h.after l' (h.after l s) := List.foldl_append

/-- What each of the requests keeps, all of them keep. -/
theorem Handler.after_inv {C : Type} {R : C → Type} {σ : Type} {h : Handler C R σ} {I : σ → Prop}
    {l : List C} (hl : ∀ t, ∀ c ∈ l, I t → I (h t c).2) {s : σ} (hs : I s) : I (h.after l s) :=
  List.foldlRecOn l _ hs fun t ht c hc => hl t c hc ht

namespace Program

variable {C : Type} {R : C → Type} {α β γ σ : Type} (h : Handler C R σ)

/-- A program leaves what its requests leave. -/
theorem run_snd (p : Program C R α) (s : σ) :
    (p.run h s).2 = h.after ((p.trace h s).map Prod.fst) s := by
  induction p generalizing s with
  | done a => rfl
  | request c next ih => exact ih _ _

/-- A program that is cut leaves what its first requests leave. -/
theorem runFor_snd (p : Program C R α) (n : ℕ) (s : σ) :
    (p.runFor h n s).2 = h.after (((p.trace h s).map Prod.fst).take n) s := by
  induction p generalizing n s with
  | done a => cases n <;> rfl
  | request c next ih =>
    cases n with
    | zero => rfl
    | succ n => exact ih _ _ _

/-! ### How a program is answered -/

/-- Each request of the program is answered in a `good` way. -/
def Answered (good : ∀ c, R c → Prop) (p : Program C R α) (s : σ) : Prop :=
  ∀ x ∈ p.trace h s, good x.1 (h x.2 x.1).1

theorem answered_send {good : ∀ c, R c → Prop} {c : C} {s : σ} :
    (send c : Program C R (R c)).Answered h good s ↔ good c (h s c).1 := by
  simp [Answered]

theorem answered_bind {good : ∀ c, R c → Prop} {p : Program C R α} {f : α → Program C R β} {s : σ} :
    (p >>= f).Answered h good s ↔
      p.Answered h good s ∧ (f (p.run h s).1).Answered h good (p.run h s).2 := by
  simp only [Answered, trace_bind, List.forall_mem_append]

/-! ### The requests a program can send -/

/-- Every request the program can send, whatever the replies, is in `ok`. -/
def Sends (ok : C → Prop) : Program C R α → Prop
  | .done _ => True
  | .request c next => ok c ∧ ∀ r, (next r).Sends ok

variable {h} {ok : C → Prop}

theorem sends_true (p : Program C R α) : p.Sends fun _ => True := by
  induction p with
  | done a => trivial
  | request c next ih => exact ⟨trivial, ih⟩

theorem Sends.pure (a : α) : (Pure.pure a : Program C R α).Sends ok := trivial

theorem Sends.send {c : C} (hc : ok c) : (Program.send c : Program C R (R c)).Sends ok :=
  ⟨hc, fun _ => trivial⟩

theorem Sends.bind {p : Program C R α} {f : α → Program C R β} (hp : p.Sends ok)
    (hf : ∀ a, (f a).Sends ok) : (p >>= f).Sends ok := by
  induction p with
  | done a => exact hf a
  | request c next ih => exact ⟨hp.1, fun r => ih r (hp.2 r)⟩

theorem Sends.forM {f : α → Program C R PUnit} {l : List α} (hf : ∀ a ∈ l, (f a).Sends ok) :
    (forM l f : Program C R PUnit).Sends ok := by
  induction l with
  | nil => trivial
  | cons a l ih =>
    rw [List.forM_cons]
    exact (hf a (by simp)).bind fun _ => ih fun b hb => hf b (by simp [hb])

theorem Sends.mono {ok' : C → Prop} {p : Program C R α} (hp : p.Sends ok)
    (himp : ∀ c, ok c → ok' c) : p.Sends ok' := by
  induction p with
  | done a => trivial
  | request c next ih => exact ⟨himp c hp.1, fun r => ih r (hp.2 r)⟩

theorem Sends.trace {p : Program C R α} (hp : p.Sends ok) {s : σ} :
    ∀ x ∈ p.trace h s, ok x.1 := by
  induction p generalizing s with
  | done a => simp [Program.trace]
  | request c next ih =>
    intro x hx
    rcases List.mem_cons.mp hx with rfl | hx
    · exact hp.1
    · exact ih _ (hp.2 _) x hx

/-- **The frame rule**: what no request of the program changes holds after it. -/
theorem Sends.run_inv {I : σ → Prop} {p : Program C R α} (hp : p.Sends ok)
    (hI : ∀ s c, ok c → I s → I (h s c).2) {s : σ} (hs : I s) : I (p.run h s).2 := by
  induction p generalizing s with
  | done a => exact hs
  | request c next ih => exact ih _ (hp.2 _) (hI s c hp.1 hs)

/-- The frame rule at a cut: it holds at every moment of the program too. -/
theorem Sends.runFor_inv {I : σ → Prop} {p : Program C R α} (hp : p.Sends ok)
    (hI : ∀ s c, ok c → I s → I (h s c).2) {n : ℕ} {s : σ} (hs : I s) :
    I (p.runFor h n s).2 := by
  induction p generalizing n s with
  | done a => cases n <;> exact hs
  | request c next ih =>
    cases n with
    | zero => exact hs
    | succ n => exact ih _ (hp.2 _) (hI s c hp.1 hs)

/-! ### The values a program can return -/

/-- Every value the program can return, whatever the replies, satisfies `P`. -/
def Returns (P : α → Prop) : Program C R α → Prop
  | .done a => P a
  | .request _ next => ∀ r, (next r).Returns P

theorem returns_true (p : Program C R α) : p.Returns fun _ => True := by
  induction p with
  | done a => trivial
  | request c next ih => exact ih

theorem Returns.bind {P : α → Prop} {Q : β → Prop} {p : Program C R α} {f : α → Program C R β}
    (hp : p.Returns P) (hf : ∀ a, P a → (f a).Returns Q) : (p >>= f).Returns Q := by
  induction p with
  | done a => exact hf a hp
  | request c next ih => exact fun r => ih r (hp r)

theorem Returns.mono {P Q : α → Prop} {p : Program C R α} (hp : p.Returns P)
    (himp : ∀ a, P a → Q a) : p.Returns Q := by
  induction p with
  | done a => exact himp a hp
  | request c next ih => exact fun r => ih r (hp r)

theorem Returns.run {P : α → Prop} {p : Program C R α} (hp : p.Returns P) {s : σ} :
    P (p.run h s).1 := by
  induction p generalizing s with
  | done a => exact hp
  | request c next ih => exact ih _ (hp _)

theorem Returns.of_run_eq {P : α → Prop} {p : Program C R α} (hp : p.Returns P) {s s' : σ} {a : α}
    (hrun : p.run h s = (a, s')) : P a := by
  have hP : P (p.run h s).1 := hp.run
  rwa [hrun] at hP

/-! ### A program in a larger environment -/

variable {D : Type} {S : D → Type} {ω : Type}

/-- The program with each request `c` sent as `f c`. -/
def embed (f : C → D) (g : ∀ c, S (f c) → R c) : Program C R α → Program D S α
  | .done a => .done a
  | .request c next => .request (f c) fun r => (next (g c r)).embed f g

/-- The handler `H` answers the requests `f c` as `h` answers `c` on a part of its
state. How `h` answers may depend on the rest. -/
structure Embedding (f : C → D) (g : ∀ c, S (f c) → R c) (H : Handler D S ω)
    (h : ω → Handler C R σ) where
  get : ω → σ
  put : ω → σ → ω
  get_put : ∀ w s, get (put w s) = s
  put_put : ∀ w s s', put (put w s) s' = put w s'
  put_get : ∀ w, put w (get w) = w
  rest_put : ∀ w s, h (put w s) = h w
  reply : ∀ w c, g c (H w (f c)).1 = (h w (get w) c).1
  state : ∀ w c, (H w (f c)).2 = put w (h w (get w) c).2

/-- **An embedded program runs as before on its part.** -/
theorem run_embed {f : C → D} {g : ∀ c, S (f c) → R c} {H : Handler D S ω}
    {h : ω → Handler C R σ} (e : Embedding f g H h) (p : Program C R α) (w : ω) :
    (p.embed f g).run H w =
      ((p.run (h w) (e.get w)).1, e.put w (p.run (h w) (e.get w)).2) := by
  induction p generalizing w with
  | done a => exact Prod.ext rfl (e.put_get w).symm
  | request c next ih =>
    rw [embed, run, ih, e.reply, e.state, e.rest_put, e.get_put, e.put_put]
    rfl

theorem trace_embed {f : C → D} {g : ∀ c, S (f c) → R c} {H : Handler D S ω}
    {h : ω → Handler C R σ} (e : Embedding f g H h) (p : Program C R α) (w : ω) :
    (p.embed f g).trace H w =
      (p.trace (h w) (e.get w)).map fun x => (f x.1, e.put w x.2) := by
  induction p generalizing w with
  | done a => rfl
  | request c next ih =>
    rw [embed, trace, trace, ih, e.reply, e.state, e.rest_put, e.get_put, List.map_cons, e.put_get]
    simp only [e.put_put]

theorem Sends.embed {f : C → D} {g : ∀ c, S (f c) → R c} {ok' : D → Prop} {p : Program C R α}
    (hp : p.Sends ok) (hf : ∀ c, ok c → ok' (f c)) : (p.embed f g).Sends ok' := by
  induction p with
  | done a => trivial
  | request c next ih => exact ⟨hf c hp.1, fun r => ih _ (hp.2 _)⟩

theorem Returns.embed {f : C → D} {g : ∀ c, S (f c) → R c} {P : α → Prop} {p : Program C R α}
    (hp : p.Returns P) : (p.embed f g).Returns P := by
  induction p with
  | done a => exact hp
  | request c next ih => exact fun r => ih _ (hp _)

end Program

end ClusterManager
