import Mathlib.Data.List.Basic

/-!
# Looking for a pattern anywhere in a word

A pattern is a word in which one letter, the wildcard, stands for any letter.
`matchAnywhere` says whether it occurs in a word, at any place: this is what an
unanchored regular expression does whose only special character is the dot.

The theorem of the file is about words with a marker. A word `B ++ m :: w ++ m :: D` is
the name `B`, the marker `m :: w`, and something after it; a pattern `A ++ m :: w` asks for
the name `A` and the marker. It is meant to find the words of `A`, and what it finds is
the words whose name ends like `A`, and those whose name has the whole pattern in it
(`matchAnywhere_marked_iff`).
-/

namespace ClusterManager

namespace Pattern

variable {α : Type} [DecidableEq α] (wild : α)

/-- The pattern occurs at the start of the word. -/
def matchHere : List α → List α → Bool
  | [], _ => true
  | _ :: _, [] => false
  | x :: p, c :: s => (x = wild || x = c) && matchHere p s

/-- The pattern occurs in the word. -/
def matchAnywhere (p : List α) : List α → Bool
  | [] => matchHere wild p []
  | c :: s => matchHere wild p (c :: s) || matchAnywhere p s

/-- The letters of the pattern `p` stand in the word `s` from `o` on. -/
def OccursAt (p s : List α) (o : ℕ) : Prop :=
  ∀ (i : ℕ) (x : α), p[i]? = some x → ∃ c, s[o + i]? = some c ∧ (x = wild ∨ x = c)

variable {wild} {p s : List α}

theorem matchHere_iff : matchHere wild p s ↔ OccursAt wild p s 0 := by
  induction p generalizing s with
  | nil => simp [matchHere, OccursAt]
  | cons x p ih =>
    cases s with
    | nil =>
      refine ⟨fun h => by simp [matchHere] at h, fun h => ?_⟩
      obtain ⟨c, hc, -⟩ := h 0 x rfl
      simp at hc
    | cons c s =>
      rw [matchHere, Bool.and_eq_true, ih]
      constructor
      · rintro ⟨hx, hp⟩ i y hy
        cases i with
        | zero =>
          obtain rfl : x = y := by simpa using hy
          exact ⟨c, rfl, by simpa using hx⟩
        | succ i =>
          obtain ⟨c', hc', hy'⟩ := hp i y (by simpa using hy)
          exact ⟨c', by simpa [← Nat.add_assoc] using hc', hy'⟩
      · intro h
        refine ⟨?_, fun i y hy => ?_⟩
        · obtain ⟨c', hc', hx⟩ := h 0 x rfl
          obtain rfl : c = c' := by simpa using hc'
          simpa using hx
        · obtain ⟨c', hc', hy'⟩ := h (i + 1) y (by simpa using hy)
          exact ⟨c', by simpa [← Nat.add_assoc] using hc', hy'⟩

omit [DecidableEq α] in
theorem occursAt_succ {c : α} {o : ℕ} :
    OccursAt wild p (c :: s) (o + 1) ↔ OccursAt wild p s o := by
  refine forall_congr' fun i => forall_congr' fun x => ?_
  rw [show o + 1 + i = o + i + 1 by omega, List.getElem?_cons_succ]

/-- A pattern occurs in a word when it occurs somewhere. -/
theorem matchAnywhere_iff : matchAnywhere wild p s ↔ ∃ o, OccursAt wild p s o := by
  induction s with
  | nil =>
    rw [matchAnywhere, matchHere_iff]
    refine ⟨fun h => ⟨0, h⟩, ?_⟩
    rintro ⟨o, h⟩ i x hx
    obtain ⟨c, hc, -⟩ := h i x hx
    simp at hc
  | cons c s ih =>
    rw [matchAnywhere, Bool.or_eq_true, matchHere_iff, ih]
    constructor
    · rintro (h | ⟨o, h⟩)
      · exact ⟨0, h⟩
      · exact ⟨o + 1, occursAt_succ.mpr h⟩
    · rintro ⟨o, h⟩
      cases o with
      | zero => exact Or.inl h
      | succ o => exact Or.inr ⟨o, occursAt_succ.mp h⟩

/-- The pattern stands for the end of the word. -/
def matchEnd (wild : α) (p s : List α) : Bool :=
  p.length ≤ s.length && matchHere wild p (s.drop (s.length - p.length))

theorem matchEnd_iff : matchEnd wild p s ↔
    p.length ≤ s.length ∧ OccursAt wild p s (s.length - p.length) := by
  rw [matchEnd, Bool.and_eq_true, matchHere_iff, decide_eq_true_eq]
  refine and_congr_right fun _ => forall_congr' fun i => forall_congr' fun x => ?_
  rw [List.getElem?_drop, Nat.zero_add]

/-- A word stands for itself. -/
theorem matchEnd_self (wild : α) (s : List α) : matchEnd wild s s := by
  refine matchEnd_iff.mpr ⟨Nat.le_refl _, fun i x hx => ⟨x, ?_, Or.inr rfl⟩⟩
  rw [Nat.sub_self, Nat.zero_add]
  exact hx

omit [DecidableEq α] in
theorem occursAt_append {p q : List α} {o : ℕ} : OccursAt wild (p ++ q) s o ↔
    OccursAt wild p s o ∧ OccursAt wild q s (o + p.length) := by
  constructor
  · intro h
    refine ⟨fun i x hx => ?_, fun i x hx => ?_⟩
    · have hi : i < p.length := (List.getElem?_eq_some_iff.mp hx).1
      exact h i x (by rw [List.getElem?_append_left hi, hx])
    · rw [Nat.add_assoc]
      refine h (p.length + i) x ?_
      rw [List.getElem?_append_right (by omega), Nat.add_sub_cancel_left, hx]
  · rintro ⟨hp, hq⟩ i x hx
    rcases Nat.lt_or_ge i p.length with hi | hi
    · rw [List.getElem?_append_left hi] at hx
      exact hp i x hx
    · rw [List.getElem?_append_right hi] at hx
      have := hq (i - p.length) x hx
      rwa [show o + p.length + (i - p.length) = o + i by omega] at this

omit [DecidableEq α] in
/-- An occurrence that ends in the first part of a word is one in the first part. -/
theorem occursAt_append_word {t : List α} {o : ℕ} (h : o + p.length ≤ s.length) :
    OccursAt wild p (s ++ t) o ↔ OccursAt wild p s o := by
  refine forall_congr' fun i => forall_congr' fun x => forall_congr' fun hx => ?_
  have hi : i < p.length := (List.getElem?_eq_some_iff.mp hx).1
  rw [List.getElem?_append_left (by omega)]

omit [DecidableEq α] in
theorem OccursAt.append_word {t : List α} {o : ℕ} (h : OccursAt wild p s o) :
    OccursAt wild p (s ++ t) o := by
  intro i x hx
  obtain ⟨c, hc, hxc⟩ := h i x hx
  have hi : o + i < s.length := (List.getElem?_eq_some_iff.mp hc).1
  exact ⟨c, by rw [List.getElem?_append_left hi, hc], hxc⟩

section Marked

variable {A B D w : List α} {m : α}

omit [DecidableEq α] in
/-- Where a marked word has the marker: at its place, or before it. -/
theorem occursAt_marker (hw : w ≠ []) (hmw : m ∉ w) (hmD : m ∉ D) (hwD : ∀ x ∈ w, x ∉ D)
    (hwild : wild ∉ m :: w) {q : ℕ}
    (h : OccursAt wild (m :: w) (B ++ (m :: w ++ m :: D)) q) :
    q = B.length ∨ q + (m :: w).length ≤ B.length := by
  -- the marker has no wildcard, so its letters are the letters of the word
  have hlit : ∀ (i : ℕ) (x : α), (m :: w)[i]? = some x →
      (B ++ (m :: w ++ m :: D))[q + i]? = some x := by
    intro i x hx
    obtain ⟨c, hc, rfl | rfl⟩ := h i x hx
    · exact absurd (List.mem_of_getElem? hx) hwild
    · exact hc
  have hm := hlit 0 m rfl
  rcases Nat.lt_trichotomy q B.length with hlt | heq | hgt
  · refine Or.inr ?_
    by_contra hcon
    -- the marker would go over the place of the marker, which has the letter `m` there
    rw [List.length_cons, Nat.not_le] at hcon
    have hi : B.length - q - 1 < w.length := by omega
    have hx := hlit (B.length - q - 1 + 1) w[B.length - q - 1] (by
      rw [List.getElem?_cons_succ, List.getElem?_eq_getElem hi])
    rw [show q + (B.length - q - 1 + 1) = B.length by omega,
      List.getElem?_append_right (Nat.le_refl _), Nat.sub_self] at hx
    have hmx : m = w[B.length - q - 1] := by simpa using hx
    exact hmw (hmx ▸ List.getElem_mem hi)
  · exact Or.inl heq
  · -- after the place of the marker the letter `m` comes once more, and then no marker
    exfalso
    obtain ⟨j, rfl⟩ : ∃ j, q = B.length + (j + 1) := ⟨q - B.length - 1, by omega⟩
    rw [Nat.add_zero, List.getElem?_append_right (by omega), Nat.add_sub_cancel_left,
      List.cons_append, List.getElem?_cons_succ] at hm
    rcases Nat.lt_trichotomy j w.length with hj | rfl | hj
    · rw [List.getElem?_append_left hj] at hm
      exact hmw (List.mem_of_getElem? hm)
    · obtain ⟨x, w', rfl⟩ := List.exists_cons_of_ne_nil hw
      have hx := hlit 1 x rfl
      rw [List.getElem?_append_right (by omega),
        show B.length + ((x :: w').length + 1) + 1 - B.length = (x :: w').length + 1 + 1 by omega,
        List.cons_append, List.getElem?_cons_succ, List.getElem?_append_right (by omega),
        Nat.add_sub_cancel_left, List.getElem?_cons_succ] at hx
      exact hwD x (by simp) (List.mem_of_getElem? hx)
    · rw [List.getElem?_append_right (by omega)] at hm
      obtain ⟨k, hk⟩ : ∃ k, j - w.length = k + 1 := ⟨j - w.length - 1, by omega⟩
      rw [hk, List.getElem?_cons_succ] at hm
      exact hmD (List.mem_of_getElem? hm)

/-- **What a pattern for marked words finds.** -/
theorem matchAnywhere_marked_iff (hw : w ≠ []) (hmw : m ∉ w) (hmD : m ∉ D)
    (hwD : ∀ x ∈ w, x ∉ D) (hwild : wild ∉ m :: w) :
    matchAnywhere wild (A ++ m :: w) (B ++ (m :: w ++ m :: D)) ↔
      matchEnd wild A B ∨ matchAnywhere wild (A ++ m :: w) B := by
  rw [matchAnywhere_iff, matchAnywhere_iff, matchEnd_iff]
  constructor
  · rintro ⟨o, h⟩
    obtain ⟨hA, hmark⟩ := occursAt_append.mp h
    rcases occursAt_marker hw hmw hmD hwD hwild hmark with hq | hq
    · refine Or.inl ⟨by omega, ?_⟩
      rw [show B.length - A.length = o by omega]
      exact (occursAt_append_word (by omega)).mp hA
    · exact Or.inr ⟨o, (occursAt_append_word (by rw [List.length_append]; omega)).mp h⟩
  · rintro (⟨hle, hA⟩ | ⟨o, h⟩)
    · refine ⟨B.length - A.length, occursAt_append.mpr ⟨hA.append_word, fun i x hx => ?_⟩⟩
      have hi : i < (m :: w).length := (List.getElem?_eq_some_iff.mp hx).1
      refine ⟨x, ?_, Or.inr rfl⟩
      rw [show B.length - A.length + A.length + i = B.length + i by omega,
        List.getElem?_append_right (by omega), Nat.add_sub_cancel_left,
        List.getElem?_append_left hi, hx]
    · exact ⟨o, h.append_word⟩

end Marked

end Pattern

end ClusterManager
