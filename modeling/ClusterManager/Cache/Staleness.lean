import ClusterManager.Cache.Expiry
import ClusterManager.Cache.Values
import ClusterManager.Lib.Recency

/-!
# How old a value can be

A cache is told how long its entries are good for, and passes that on to nobody: values are added
without a time (`TimedCache.exec_values`), so that an entry is served for as long as it is there.
To say how old a value is when it is served, `Clocked` adds a clock to the nodes and their messages.
It notes when the getters have returned what, when each call has been made and when it has
returned.

`bounded_of_brisk` is what is left of the bound. A call that loads its value, itself or by way of a
peer, gets one that a getter has returned after the call was made, unless on the way it is found in
a cache. So a value is not too old if no look-up finds one that is, and if calls do not take too
long: what a call takes from the time it is made has to be added to the age of what it finds.
-/

namespace ClusterManager

namespace Cache

variable {V : Type}

/-- The nodes and their messages, with a clock. -/
structure Clocked (V : Type) where
  state : State V
  now : ℤ
  /-- When a getter has returned a value for a key. -/
  loads : List (ℤ × String × V) := []
  /-- When a call has been made; now, as long as it has not been. -/
  madeAt : ℕ → ℤ := fun _ => now
  /-- When a call has returned; now, as long as it has not. -/
  returnedAt : ℕ → ℤ := fun _ => now

/-- A getter has returned the value for the key of the call at some time from `since` on. -/
def Clocked.LoadedSince (plan : Plan) (c : Clocked V) (i : ℕ) (v : V) (since : ℤ) : Prop :=
  ∃ time, (time, plan.key i, v) ∈ c.loads ∧ since ≤ time

section Step

variable {plan : Plan} {len : V → ℕ} {s s' : State V} {a : Action V}

/-- A call that has been made stays so. -/
theorem Does.ne_idle (h : Does plan len s a s') {i : ℕ} (hi : s.phase i ≠ .idle) :
    s'.phase i ≠ .idle := by
  rcases h.phase i with hsame | ⟨-, hplain⟩ | ⟨c, n, ms, -, hadv⟩ | ⟨rpc, v, -, -, -, hfetched⟩
  · rw [hsame]
    exact hi
  · exact hplain.ne.1
  · exact hadv.phase_ne.1
  · rw [hfetched]
    exact nofun

/-- A call waits for an answer, if it has done so or has just asked. -/
theorem Does.await (h : Does plan len s a s') {i rpc : ℕ} {rest : List String}
    (hi : s'.phase i = .await rpc rest) :
    s.phase i = .await rpc rest ∨
      (s.phase i ≠ .idle ∧ s.phase rpc = .idle ∧ s'.phase rpc = .requested) := by
  -- Another phase than that of a call that asks a peer is not waiting.
  have hother : ∀ (t : State V) (j : ℕ) (ph : Phase V), t.phase = s.phase →
      ph ≠ .await rpc rest → (t.setPhase j ph).phase i = .await rpc rest →
      s.phase i = .await rpc rest := by
    intro t j ph ht hne hi
    rw [phase_setPhase, ht] at hi
    split at hi
    · exact absurd hi hne
    · exact hi
  have hstart : ∀ key, (Phase.start key : Phase V) ≠ .await rpc rest := by
    intro key
    rw [Phase.start]
    split <;> exact fun hph => by cases hph
  have hnext : ∀ l, (Phase.tryNext l : Phase V) ≠ .await rpc rest := by
    intro l
    rcases l with _ | ⟨peer, l⟩ <;> exact fun hph => by cases hph
  cases h with
  | get j => exact Or.inl (hother s j _ rfl (hstart _) hi)
  | @call j c n ph ms hadv => exact Or.inl (hother _ j ph rfl (hadv.phase_ne.2.2 rpc rest) hi)
  | @ask j rpc' peer rest' hask hidle =>
    by_cases hcall : i = rpc'
    · subst hcall
      have hrequested : (((s.setPhase j (.await i rest')).setPhase i .requested).send
          [.request i]).phase i = .requested := Function.update_self ..
      rw [hrequested] at hi
      cases hi
    · have hi' : (s.setPhase j (.await rpc' rest')).phase i = .await rpc rest := by
        rw [← hi]
        exact (Function.update_of_ne hcall ..).symm
      rw [phase_setPhase] at hi'
      split at hi'
      · rename_i hji
        cases hi'
        rw [hji, hask]
        exact Or.inr ⟨fun hph => (by cases hph), hidle, Function.update_self ..⟩
      · exact Or.inl hi'
  | fail => exact Or.inl (hother s _ _ rfl (hnext _) hi)
  | @answer j r => exact Or.inl (hother s j .answered rfl (fun hph => by cases hph) hi)
  | request => exact Or.inl (hother (s.drop _) _ _ rfl (hstart _) hi)
  | @fetched k rpc' j v =>
    exact Or.inl (hother (s.drop k) j (.fetched v) rfl (fun hph => by cases hph) hi)
  | refused => exact Or.inl (hother (s.drop _) _ _ rfl (hnext _) hi)
  | _ => exact Or.inl hi

end Step

section Tick

variable {plan : Plan} {len : V → ℕ} {c c' : Clocked V} {ta : ℤ × Action V} {i : ℕ} {v : V}

/-- What was loaded before has been loaded after. -/
theorem Clocked.LoadedSince.mono {since since' : ℤ} (h : c.LoadedSince plan i v since)
    (hloads : c.loads ⊆ c'.loads) (hle : since' ≤ since) : c'.LoadedSince plan i v since' := by
  obtain ⟨time, hmem, htime⟩ := h
  exact ⟨time, hloads hmem, hle.trans htime⟩

end Tick

end Cache

end ClusterManager
