import Mathlib.Data.Nat.Notation

/-!
# Loops that may not end

`loop cond body` is the loop that does `body` as long as `cond` holds. Nothing says that it
ends, so it takes a number of rounds it may use, and gives nothing when it runs out of them.

A loop that has ended does not care for more rounds (`loop_mono`). There are two rules. Where
every round keeps an invariant and makes a measure smaller, the loop ends, with the invariant
and without the condition (`loop_ends`); where an invariant keeps the condition up, it does
not end at all (`loop_eq_none`).
-/

namespace ClusterManager

section Loop

variable {σ : Type} {cond : σ → Bool} {body : σ → σ} {s t : σ}

/-- The loop, for so many rounds at most. -/
def loop (cond : σ → Bool) (body : σ → σ) : ℕ → σ → Option σ
  | 0, s => if cond s then none else some s
  | n + 1, s => if cond s then loop cond body n (body s) else some s

theorem loop_of_not (h : cond s = false) (n : ℕ) : loop cond body n s = some s := by
  cases n <;> simp [loop, h]

/-- More rounds make no difference to a loop that has ended. -/
theorem loop_mono {n m : ℕ} (h : loop cond body n s = some t) (hnm : n ≤ m) :
    loop cond body m s = some t := by
  induction n generalizing s m with
  | zero =>
    rw [loop] at h
    split at h
    · cases h
    · rename_i hcond
      cases h
      exact loop_of_not (by simpa using hcond) m
  | succ n ih =>
    obtain ⟨m, rfl⟩ : ∃ k, m = k + 1 := ⟨m - 1, by omega⟩
    rw [loop] at h ⊢
    split
    · rename_i hcond
      rw [if_pos hcond] at h
      exact ih h (by omega)
    · rename_i hcond
      rwa [if_neg hcond] at h

variable {I : σ → Prop}

/-- **A loop ends** whose rounds keep an invariant and make a measure smaller. -/
theorem loop_ends (cond : σ → Bool) (body : σ → σ) (m : σ → ℕ)
    (hstep : ∀ s, I s → cond s → I (body s) ∧ m (body s) < m s)
    (hs : I s) : ∃ t, loop cond body (m s) s = some t ∧ I t ∧ cond t = false := by
  generalize hn : m s = n
  induction n using Nat.strongRecOn generalizing s with
  | ind n ih =>
    cases hcond : cond s with
    | false => exact ⟨s, loop_of_not hcond n, hs, hcond⟩
    | true =>
      obtain ⟨hbody, hlt⟩ := hstep s hs hcond
      obtain ⟨k, rfl⟩ : ∃ k, n = k + 1 := ⟨n - 1, by omega⟩
      obtain ⟨t, ht, hI, hnot⟩ := ih (m (body s)) (hn ▸ hlt) hbody rfl
      refine ⟨t, ?_, hI, hnot⟩
      rw [loop, if_pos hcond]
      exact loop_mono ht (by omega)

/-- **A loop does not end** while an invariant keeps its condition up. -/
theorem loop_eq_none (hstep : ∀ s, I s → cond s ∧ I (body s)) (hs : I s) (n : ℕ) :
    loop cond body n s = none := by
  induction n generalizing s with
  | zero => rw [loop, if_pos (hstep s hs).1]
  | succ n ih =>
    rw [loop, if_pos (hstep s hs).1]
    exact ih (hstep s hs).2

end Loop

end ClusterManager
