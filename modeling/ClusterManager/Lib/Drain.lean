import Mathlib.Data.List.Induction
import Mathlib.Data.List.Nodup
import Mathlib.Logic.Function.Iterate
import Mathlib.Algebra.BigOperators.Group.List.Basic
import Mathlib.Tactic.Linarith

/-!
# Draining blocks against a quota, filling bins to a level

Two loops that planners are made of, on numbers alone.

**Draining.** A stock is stored in blocks of given sizes, and units are taken from it
one at a time, block after block. There is a quota, and there is a guard that can
stop the taking for a reason of its own. `drainBlock` looks at the quota after every
unit and leaves *the block* when the quota is met; `drainBlocks` runs it over all the
blocks. Leaving a block is not leaving the stock: the quota is met once, at one unit,
and the next block is drained with the quota already behind. So the quota is kept
exactly when nothing is left after the block in which it is met
(`drainBlocks_le_iff`).

**Filling.** Bins are filled one after the other up to a level, each unit going to
the bin under the cursor, and the cursor moves on when that bin *reaches* the level.
Distinct bins take the level each (`openAfter_iff_of_nodup`); a bin that is met again
is past the level and never reaches it, so the cursor stays there for good
(`openAfter_of_not_nodup`).
-/

namespace ClusterManager

namespace Drain

/-! ### Draining blocks against a quota -/

variable (g : ℕ → Prop) [DecidablePred g]

/-- Take up to `L` units of one block. `t` counts the units taken so far and `g t`
is the guard at that count; `e` is what is missing to the quota. The loop ends at the
end of the block, at the guard, or at the unit that meets the quota. -/
def drainBlock : ℕ → ℤ → ℕ → ℕ
  | 0, _, t => t
  | L + 1, e, t =>
    if g t then (if e - 1 = 0 then t + 1 else drainBlock L (e - 1) (t + 1)) else t

/-- Take units block after block, the quota going on where the last block left it. -/
def drainBlocks : List ℕ → ℤ → ℕ → ℕ
  | [], _, t => t
  | L :: B, e, t => drainBlocks B (e - (drainBlock g L e t - t : ℕ)) (drainBlock g L e t)

/-- The size of the last block that is not empty. -/
def lastBlock : List ℕ → ℕ
  | [] => 0
  | L :: B => if B.sum = 0 then L else lastBlock B

variable {g} {B : List ℕ} {L : ℕ} {e : ℤ} {t : ℕ}

theorem drainBlock_succ : drainBlock g (L + 1) e t =
    if g t then (if e - 1 = 0 then t + 1 else drainBlock g L (e - 1) (t + 1)) else t := rfl

theorem drainBlocks_cons : drainBlocks g (L :: B) e t =
    drainBlocks g B (e - (drainBlock g L e t - t : ℕ)) (drainBlock g L e t) := rfl

theorem lastBlock_cons : lastBlock (L :: B) = if B.sum = 0 then L else lastBlock B := rfl

/-- What a pass over one block takes: at most the block, only while the guard holds. -/
theorem drainBlock_bounds (L : ℕ) (e : ℤ) (t : ℕ) :
    t ≤ drainBlock g L e t ∧ drainBlock g L e t ≤ t + L ∧
      ∀ n, t ≤ n → n < drainBlock g L e t → g n := by
  induction L generalizing e t with
  | zero => exact ⟨le_refl _, le_refl _, fun n h1 h2 => absurd h2 (not_lt.mpr h1)⟩
  | succ L ih =>
    rw [drainBlock_succ]
    by_cases hg : g t
    · rw [if_pos hg]
      split
      · refine ⟨by omega, by omega, fun n h1 h2 => ?_⟩
        obtain rfl : n = t := by omega
        exact hg
      · obtain ⟨h1, h2, h3⟩ := ih (e - 1) (t + 1)
        refine ⟨by omega, by omega, fun n hn hlt => ?_⟩
        rcases Nat.eq_or_lt_of_le hn with rfl | hn'
        · exact hg
        · exact h3 n hn' hlt
    · rw [if_neg hg]
      exact ⟨le_refl _, by omega, fun n h1 h2 => absurd h2 (by omega)⟩

/-- **Why a pass over one block ends**: the block is over, the guard is down, or the
quota has just been met. -/
theorem drainBlock_end (L : ℕ) (e : ℤ) (t : ℕ) :
    drainBlock g L e t = t + L ∨ ¬ g (drainBlock g L e t) ∨
      (0 < e ∧ (drainBlock g L e t : ℤ) = t + e) := by
  induction L generalizing e t with
  | zero => exact Or.inl rfl
  | succ L ih =>
    rw [drainBlock_succ]
    by_cases hg : g t
    · rw [if_pos hg]
      split
      · exact Or.inr (Or.inr ⟨by omega, by push_cast; omega⟩)
      · rcases ih (e - 1) (t + 1) with h | h | ⟨h1, h2⟩
        · exact Or.inl (by omega)
        · exact Or.inr (Or.inl h)
        · exact Or.inr (Or.inr ⟨by omega, by push_cast at h2; omega⟩)
    · rw [if_neg hg]
      exact Or.inr (Or.inl hg)

/-- Inside one block the quota is kept. -/
theorem drainBlock_le_quota (he : 0 < e) : (drainBlock g L e t : ℤ) ≤ t + e := by
  induction L generalizing e t with
  | zero => exact le_add_of_nonneg_right he.le
  | succ L ih =>
    rw [drainBlock_succ]
    by_cases hg : g t
    · rw [if_pos hg]
      split
      · push_cast
        omega
      · have := ih (e := e - 1) (t := t + 1) (by omega)
        push_cast at this
        omega
    · rw [if_neg hg]
      omega

theorem drainBlocks_bounds (B : List ℕ) (e : ℤ) (t : ℕ) :
    t ≤ drainBlocks g B e t ∧ drainBlocks g B e t ≤ t + B.sum ∧
      ∀ n, t ≤ n → n < drainBlocks g B e t → g n := by
  induction B generalizing e t with
  | nil => exact ⟨le_refl _, le_refl _, fun n h1 h2 => absurd h2 (not_lt.mpr h1)⟩
  | cons L B ih =>
    obtain ⟨h1, h2, h3⟩ := drainBlock_bounds (g := g) L e t
    obtain ⟨k1, k2, k3⟩ := ih (e - (drainBlock g L e t - t : ℕ)) (drainBlock g L e t)
    rw [drainBlocks_cons, List.sum_cons]
    refine ⟨by omega, by omega, fun n hn hlt => ?_⟩
    rcases Nat.lt_or_ge n (drainBlock g L e t) with h | h
    · exact h3 n hn h
    · exact k3 n h hlt

/-- The guard is up where a drain starts if it is up where it ends. -/
theorem guard_of_drainBlocks (h : g (drainBlocks g B e t)) : g t := by
  obtain ⟨h1, -, h3⟩ := drainBlocks_bounds (g := g) B e t
  rcases Nat.eq_or_lt_of_le h1 with heq | hlt
  · rwa [← heq] at h
  · exact h3 t (le_refl t) hlt

/-- Once the quota is behind, only the guard stops the taking. -/
theorem drainBlocks_past_quota (he : e ≤ 0) :
    drainBlocks g B e t = t + B.sum ∨ ¬ g (drainBlocks g B e t) := by
  induction B generalizing e t with
  | nil => exact Or.inl rfl
  | cons L B ih =>
    obtain ⟨h1, h2, -⟩ := drainBlock_bounds (g := g) L e t
    rw [drainBlocks_cons, List.sum_cons]
    rcases ih (e := e - (drainBlock g L e t - t : ℕ)) (t := drainBlock g L e t) (by omega)
      with h | h
    · rcases drainBlock_end (g := g) L e t with h' | h' | ⟨h', -⟩
      · exact Or.inl (by omega)
      · -- the guard is down, so the remaining blocks give nothing
        exact Or.inr fun hg => h' (guard_of_drainBlocks hg)
      · omega
    · exact Or.inr h

/-- If the guard does not stop it, a drain takes at least its quota. -/
theorem quota_le_drainBlocks (hs : e ≤ B.sum) :
    ¬ g (drainBlocks g B e t) ∨ (t : ℤ) + e ≤ drainBlocks g B e t := by
  induction B generalizing e t with
  | nil =>
    refine Or.inr (show (t : ℤ) + e ≤ t from ?_)
    rw [List.sum_nil] at hs
    omega
  | cons L B ih =>
    obtain ⟨h1, h2, -⟩ := drainBlock_bounds (g := g) L e t
    rw [drainBlocks_cons]
    rw [List.sum_cons, Nat.cast_add] at hs
    rcases drainBlock_end (g := g) L e t with h | h | ⟨-, h⟩
    · rcases ih (e := e - (drainBlock g L e t - t : ℕ)) (t := drainBlock g L e t)
        (by omega) with h' | h'
      · exact Or.inl h'
      · exact Or.inr (by omega)
    · exact Or.inl fun hg => h (guard_of_drainBlocks hg)
    · exact Or.inr (by rw [← h]; exact_mod_cast (drainBlocks_bounds B _ _).1)

theorem lastBlock_le_sum (B : List ℕ) : lastBlock B ≤ B.sum := by
  induction B with
  | nil => exact le_refl _
  | cons L B ih =>
    rw [lastBlock_cons, List.sum_cons]
    split <;> omega

theorem lastBlock_pos (h : 0 < B.sum) : 0 < lastBlock B := by
  induction B with
  | nil => simp at h
  | cons L B ih =>
    rw [lastBlock_cons]
    rw [List.sum_cons] at h
    split <;> omega

/-- A quota met in the last block that is not empty is kept. -/
theorem drainBlocks_le_quota (he : 0 < e) (hl : (B.sum : ℤ) < e + lastBlock B) :
    (drainBlocks g B e t : ℤ) ≤ t + e := by
  induction B generalizing e t with
  | nil => exact le_add_of_nonneg_right he.le
  | cons L B ih =>
    obtain ⟨h1, h2, -⟩ := drainBlock_bounds (g := g) L e t
    have hq := drainBlock_le_quota (g := g) (L := L) (t := t) he
    obtain ⟨-, k2, -⟩ := drainBlocks_bounds (g := g) B
      (e - (drainBlock g L e t - t : ℕ)) (drainBlock g L e t)
    rw [drainBlocks_cons]
    rw [lastBlock_cons, List.sum_cons] at hl
    split at hl
    · -- everything after this block is empty
      omega
    · rw [Nat.cast_add] at hl
      have hb := lastBlock_le_sum B
      rcases lt_or_ge 0 (e - (drainBlock g L e t - t : ℕ)) with hpos | hneg
      · have := ih (t := drainBlock g L e t) hpos (by omega)
        omega
      · omega

/-- A quota met before that is overrun, unless the guard comes down there. -/
theorem quota_lt_drainBlocks (he : 0 < e) (hl : e + lastBlock B ≤ B.sum)
    (hg : ∀ n : ℕ, (n : ℤ) ≤ t + e → g n) :
    (t : ℤ) + e < drainBlocks g B e t := by
  induction B generalizing e t with
  | nil =>
    rw [show lastBlock [] = 0 from rfl, List.sum_nil] at hl
    omega
  | cons L B ih =>
    obtain ⟨h1, h2, -⟩ := drainBlock_bounds (g := g) L e t
    have hq := drainBlock_le_quota (g := g) (L := L) (t := t) he
    rw [lastBlock_cons, List.sum_cons] at hl
    rw [drainBlocks_cons]
    split at hl
    · omega
    · rename_i hsum
      rw [Nat.cast_add] at hl
      rcases lt_or_ge 0 (e - (drainBlock g L e t - t : ℕ)) with hpos | hneg
      · rcases drainBlock_end (g := g) L e t with h | h | ⟨-, h⟩
        · have := ih (e := e - (drainBlock g L e t - t : ℕ)) (t := drainBlock g L e t)
            hpos (by omega) (fun n hn => hg n (by omega))
          omega
        · exact absurd (hg _ (by omega)) h
        · omega
      · -- the quota has just been met, and the blocks after this one are not empty
        rcases drainBlocks_past_quota (g := g) (B := B) (t := drainBlock g L e t) hneg
          with h | h
        · omega
        · by_contra hcon
          exact h (hg _ (by omega))

/-- **A drain keeps its quota exactly when the quota is met in the last block, or the
guard comes down no later than the quota.** -/
theorem drainBlocks_le_iff {B : List ℕ} {e t : ℕ} (he : 0 < e)
    (hg : ∀ m n, m ≤ n → g n → g m) :
    drainBlocks g B e t ≤ t + e ↔ B.sum < e + lastBlock B ∨ ¬ g (t + e) := by
  constructor
  · intro h
    by_contra hcon
    rw [not_or, not_lt, not_not] at hcon
    have := quota_lt_drainBlocks (g := g) (B := B) (e := e) (t := t) (by omega)
      (by omega) (fun n hn => hg n (t + e) (by omega) hcon.2)
    omega
  · rintro (h | h)
    · have := drainBlocks_le_quota (g := g) (B := B) (e := e) (t := t) (by omega) (by omega)
      omega
    · by_contra hcon
      exact h ((drainBlocks_bounds (g := g) B e t).2.2 (t + e) (by omega) (by omega))

/-! ### Filling bins to a level -/

variable {κ : Type} [DecidableEq κ]

/-- The state of a filling: the cursor, and what is in each bin. -/
structure Bins (κ : Type) where
  cursor : ℕ
  count : κ → ℤ

/-- Put one unit into the bin under the cursor, and move on if it reaches the
level. -/
def Bins.place (ks : List κ) (v : ℤ) (b : Bins κ) : Bins κ :=
  match ks[b.cursor]? with
  | none => b
  | some k =>
    { cursor := if b.count k + 1 = v then b.cursor + 1 else b.cursor
      count := Function.update b.count k (b.count k + 1) }

/-- The filling after `n` units, from empty bins. -/
def Bins.after (ks : List κ) (v : ℤ) (n : ℕ) : Bins κ :=
  (Bins.place ks v)^[n] ⟨0, fun _ => 0⟩

/-- After `n` units there still is a bin under the cursor. -/
def openAfter (ks : List κ) (v : ℤ) (n : ℕ) : Prop := (Bins.after ks v n).cursor < ks.length

instance (ks : List κ) (v : ℤ) : DecidablePred (openAfter ks v) :=
  fun _ => inferInstanceAs (Decidable (_ < _))

variable {ks : List κ} {v : ℤ}

theorem Bins.after_succ (n : ℕ) : Bins.after ks v (n + 1) = (Bins.after ks v n).place ks v :=
  Function.iterate_succ_apply' _ _ _

theorem Bins.cursor_le_place (b : Bins κ) : b.cursor ≤ (b.place ks v).cursor := by
  rw [Bins.place]
  split
  · exact le_refl _
  · split <;> simp

/-- The cursor never comes back, so a filling that is over stays over. -/
theorem openAfter_of_le {m n : ℕ} (hmn : m ≤ n) (h : openAfter ks v n) : openAfter ks v m := by
  induction n, hmn using Nat.le_induction with
  | base => exact h
  | succ n _ ih =>
    refine ih (lt_of_le_of_lt ?_ h)
    rw [Bins.after_succ]
    exact Bins.cursor_le_place _

/-- One more unit either completes a group of `l` or does not. -/
theorem div_mod_succ {l : ℕ} (hl : 0 < l) (n : ℕ) :
    (n % l + 1 = l ∧ (n + 1) / l = n / l + 1 ∧ (n + 1) % l = 0) ∨
      (n % l + 1 < l ∧ (n + 1) / l = n / l ∧ (n + 1) % l = n % l + 1) := by
  have hm := Nat.mod_lt n hl
  have hd := Nat.div_add_mod n l
  rcases Nat.eq_or_lt_of_le (Nat.succ_le_of_lt hm) with h | h
  · refine Or.inl ⟨h, (Nat.div_mod_unique hl).mpr ⟨?_, hl⟩⟩
    rw [Nat.mul_add]
    omega
  · exact Or.inr ⟨h, (Nat.div_mod_unique hl).mpr ⟨by omega, h⟩⟩

/-- **How far a filling has come**, as long as it is in a part of the list without
repetition: the bins before the cursor are at the level, the bin under it holds the
remainder, and the bins after it are empty. -/
theorem Bins.after_eq {d l : ℕ} (hl : 0 < l) (hd : d ≤ ks.length) (hnd : (ks.take d).Nodup)
    {n : ℕ} (hn : n ≤ d * l) :
    (Bins.after ks l n).cursor = n / l ∧
      ∀ (j : ℕ) (k : κ), j < d → ks[j]? = some k → (Bins.after ks l n).count k =
        if j < n / l then (l : ℤ) else if j = n / l then ((n % l : ℕ) : ℤ) else 0 := by
  induction n with
  | zero =>
    refine ⟨by simp [Bins.after], fun j k hj hk => ?_⟩
    simp only [Bins.after, Function.iterate_zero, id_eq, Nat.zero_div, Nat.zero_mod]
    split <;> simp_all
  | succ n ih =>
    obtain ⟨hcur, hcount⟩ := ih (by omega)
    have hlt : n / l < d := (Nat.div_lt_iff_lt_mul hl).mpr (by omega)
    obtain ⟨k, hk⟩ : ∃ k, ks[n / l]? = some k := ⟨_, List.getElem?_eq_getElem (by omega)⟩
    have hck : (Bins.after ks l n).count k = ((n % l : ℕ) : ℤ) := by
      rw [hcount _ k hlt hk, if_neg (lt_irrefl _), if_pos rfl]
    -- no other bin of this part of the list is the one under the cursor
    have hne : ∀ j k', j < d → ks[j]? = some k' → j ≠ n / l → k' ≠ k := by
      rintro j k' hj hk' hjn rfl
      have hlen : j < (ks.take d).length := by
        rw [List.length_take]
        omega
      refine hjn ((List.getElem?_inj hlen hnd).mp ?_)
      rw [List.getElem?_take_of_lt hj, List.getElem?_take_of_lt hlt, hk', hk]
    rw [Bins.after_succ, Bins.place, hcur]
    simp only [hk, hck]
    rcases div_mod_succ hl n with ⟨h1, h2, h3⟩ | ⟨h1, h2, h3⟩
    · refine ⟨by rw [if_pos (by omega), h2], fun j k' hj hk' => ?_⟩
      rcases eq_or_ne j (n / l) with rfl | hjn
      · obtain rfl : k' = k := by simpa [hk] using hk'.symm
        rw [Function.update_self, if_pos (by omega)]
        omega
      · rw [Function.update_of_ne (hne j k' hj hk' hjn), hcount j k' hj hk', h2, h3]
        split_ifs <;> first | rfl | omega
    · refine ⟨by rw [if_neg (by omega), h2], fun j k' hj hk' => ?_⟩
      rcases eq_or_ne j (n / l) with rfl | hjn
      · obtain rfl : k' = k := by simpa [hk] using hk'.symm
        rw [Function.update_self, h2, if_neg (lt_irrefl _), if_pos rfl, h3]
        push_cast
        rfl
      · rw [Function.update_of_ne (hne j k' hj hk' hjn), hcount j k' hj hk', h2]
        split_ifs <;> rfl

/-- Distinct bins are not filled above the level. -/
theorem Bins.count_le_of_nodup (hnd : ks.Nodup) {l : ℕ} (hl : 0 < l) {n : ℕ}
    (hn : n ≤ ks.length * l) {k : κ} (hk : k ∈ ks) : (Bins.after ks l n).count k ≤ l := by
  obtain ⟨j, hj⟩ := List.mem_iff_getElem?.mp hk
  have hlt : j < ks.length := (List.getElem?_eq_some_iff.mp hj).1
  have hmod := Nat.mod_lt n hl
  rw [(Bins.after_eq hl (le_refl _) (by rwa [List.take_length]) hn).2 j k hlt hj]
  split_ifs <;> omega

/-- When distinct bins have had the level each, they are at the level. -/
theorem Bins.count_of_full (hnd : ks.Nodup) {l : ℕ} (hl : 0 < l) {k : κ} (hk : k ∈ ks) :
    (Bins.after ks l (ks.length * l)).count k = l := by
  obtain ⟨j, hj⟩ := List.mem_iff_getElem?.mp hk
  have hlt : j < ks.length := (List.getElem?_eq_some_iff.mp hj).1
  rw [(Bins.after_eq hl (le_refl _) (by rwa [List.take_length]) (le_refl _)).2 j k hlt hj,
    Nat.mul_div_cancel _ hl, if_pos hlt]

/-- **Distinct bins take the level each.** -/
theorem openAfter_iff_of_nodup (hnd : ks.Nodup) {l : ℕ} (hl : 0 < l) (n : ℕ) :
    openAfter ks l n ↔ n < ks.length * l := by
  have key : ∀ m, m ≤ ks.length * l → (Bins.after ks l m).cursor = m / l := fun m hm =>
    (Bins.after_eq hl (le_refl _) (by rwa [List.take_length]) hm).1
  constructor
  · intro h
    by_contra hcon
    have h' : openAfter ks l (ks.length * l) := openAfter_of_le (by omega) h
    rw [openAfter, key _ (le_refl _), Nat.mul_div_cancel _ hl] at h'
    exact lt_irrefl _ h'
  · intro h
    rw [openAfter, key n (by omega)]
    exact (Nat.div_lt_iff_lt_mul hl).mpr h

/-- A list with a repetition has a first one. -/
theorem exists_first_repeat (hnd : ¬ ks.Nodup) :
    ∃ d k, ks[d]? = some k ∧ (ks.take d).Nodup ∧ k ∈ ks.take d := by
  induction ks using List.reverseRec with
  | nil => exact absurd List.nodup_nil hnd
  | append_singleton ks a ih =>
    by_cases h : ks.Nodup
    · refine ⟨ks.length, a, by simp, by simpa using h, ?_⟩
      by_contra hcon
      refine hnd (List.nodup_append.mpr ⟨h, List.nodup_singleton a, ?_⟩)
      rintro x hx y hy rfl
      rw [List.mem_singleton] at hy
      subst hy
      exact hcon (by simpa using hx)
    · obtain ⟨d, k, hk, hd, hmem⟩ := ih h
      have hlt : d < ks.length := (List.getElem?_eq_some_iff.mp hk).1
      refine ⟨d, k, ?_, ?_, ?_⟩
      · rw [List.getElem?_append_left hlt, hk]
      · rwa [List.take_append_of_le_length (by omega)]
      · rwa [List.take_append_of_le_length (by omega)]

/-- **A bin that comes a second time is never left.** -/
theorem openAfter_of_not_nodup (hnd : ¬ ks.Nodup) {l : ℕ} (hl : 0 < l) (n : ℕ) :
    openAfter ks l n := by
  obtain ⟨d, k, hk, hd, hmem⟩ := exists_first_repeat hnd
  have hlt : d < ks.length := (List.getElem?_eq_some_iff.mp hk).1
  rcases Nat.le_total n (d * l) with hn | hn
  · rw [openAfter, (Bins.after_eq hl (by omega) hd hn).1]
    exact lt_of_le_of_lt (Nat.div_le_of_le_mul (by rwa [Nat.mul_comm])) hlt
  · -- from the repetition on, the cursor stays and the bin only gets fuller
    have key : (Bins.after ks l n).cursor = d ∧ (l : ℤ) ≤ (Bins.after ks l n).count k := by
      induction n, hn using Nat.le_induction with
      | base =>
        obtain ⟨h1, h2⟩ := Bins.after_eq hl (by omega) hd (le_refl (d * l))
        rw [Nat.mul_div_cancel _ hl] at h1 h2
        obtain ⟨j, hj⟩ := List.mem_iff_getElem?.mp hmem
        have hjd : j < d := by
          have := (List.getElem?_eq_some_iff.mp hj).1
          simp only [List.length_take] at this
          omega
        rw [List.getElem?_take_of_lt hjd] at hj
        exact ⟨h1, by rw [h2 j k hjd hj, if_pos hjd]⟩
      | succ n _ ih =>
        rw [Bins.after_succ, Bins.place, ih.1]
        simp only [hk, Function.update_self]
        exact ⟨if_neg (by omega), by omega⟩
    rw [openAfter, key.1]
    exact hlt

end Drain

end ClusterManager
