import Mathlib.Data.Finset.Sort
import Mathlib.Data.List.Rotate

/-!
# Points on a circle

A circle here is a finite set of points in a linear order, gone around from any place
upwards and then, from the least point, up to that place again. `clockwise S h` is the list
of the points of `S` in the order in which they are met from `h` on.

Where each point has an owner, `ownersFrom` is the list of the owners in the order in which
they are *first* met. It is `List.eraseDups`, the first occurrences of a list, that does
this; the lemmas about it say that it commutes with leaving entries out, and that repeated
points make no difference to their owners.

The one fact about circles that everything rests on is `clockwise_filter`: leaving points
out leaves the order of the others as it is. What is met first when points are added
(`head?_clockwise_union`) and who follows when an owner leaves (`take_ownersFrom_filter`) are
consequences.
-/

namespace ClusterManager

/-! ### First occurrences -/

section FirstOccurrences

variable {α β : Type} [DecidableEq α]

/-- First occurrences are taken by leaving out, after each entry, those that are equal to
it. -/
theorem firsts_induction {motive : List α → Prop} (nil : motive [])
    (cons : ∀ a l, motive (l.filter fun b => !b == a) → motive (a :: l)) (l : List α) :
    motive l := by
  match l with
  | [] => exact nil
  | a :: l => exact cons a l (firsts_induction nil cons _)
termination_by l.length
decreasing_by exact Nat.lt_succ_of_le (List.length_filter_le _ _)

theorem eraseDups_sublist (l : List α) : l.eraseDups.Sublist l := by
  induction l using firsts_induction with
  | nil => exact List.Sublist.refl _
  | cons a l ih =>
    rw [List.eraseDups_cons]
    exact List.Sublist.cons_cons a (ih.trans List.filter_sublist)

theorem nodup_eraseDups (l : List α) : l.eraseDups.Nodup := by
  induction l using firsts_induction with
  | nil => exact List.nodup_nil
  | cons a l ih =>
    rw [List.eraseDups_cons, List.nodup_cons]
    exact ⟨by simp [List.mem_eraseDups], ih⟩

/-- Leaving entries out commutes with taking first occurrences. -/
theorem eraseDups_filter (p : α → Bool) (l : List α) :
    (l.filter p).eraseDups = l.eraseDups.filter p := by
  induction l using firsts_induction with
  | nil => rfl
  | cons a l ih =>
    rw [List.eraseDups_cons, List.filter_cons, List.filter_cons, ← ih, List.filter_filter]
    by_cases ha : p a
    · rw [if_pos ha, if_pos ha, List.eraseDups_cons, List.filter_filter]
      simp only [Bool.and_comm]
    · rw [if_neg ha, if_neg ha]
      refine congrArg List.eraseDups (List.filter_congr fun b _ => ?_)
      by_cases hb : b = a
      · subst hb
        simp [ha]
      · simp [hb]

/-- Repeated entries make no difference to the first occurrences of their images. -/
theorem eraseDups_map_eraseDups [DecidableEq β] (f : α → β) (l : List α) :
    (l.eraseDups.map f).eraseDups = (l.map f).eraseDups := by
  induction l using firsts_induction with
  | nil => rfl
  | cons a l ih =>
    have hrest : (l.map f).filter (fun b => !b == f a) =
        ((l.filter fun b => !b == a).map f).filter fun b => !b == f a := by
      -- an entry that is left out for being `a` has the image of `a`
      rw [List.filter_map, List.filter_map, List.filter_filter]
      refine congrArg (List.map f) (List.filter_congr fun b _ => ?_)
      by_cases hb : b = a
      · subst hb
        simp
      · simp [hb]
    rw [List.eraseDups_cons, List.map_cons, List.map_cons, List.eraseDups_cons,
      List.eraseDups_cons, hrest, eraseDups_filter (fun b => !b == f a),
      eraseDups_filter (fun b => !b == f a), ih]

omit [DecidableEq α] in
/-- First occurrences keep the order: an image that is listed first has an entry that comes
before all those of one that is listed later. -/
theorem pairwise_eraseDups_map [DecidableEq β] {R : α → α → Prop} (f : α → β) {l : List α}
    (hl : l.Pairwise R) :
    (l.map f).eraseDups.Pairwise fun a b => ∃ p ∈ l, f p = a ∧ ∀ q ∈ l, f q = b → R p q := by
  induction l with
  | nil => exact List.Pairwise.nil
  | cons p l ih =>
    obtain ⟨hp, hl⟩ := List.pairwise_cons.mp hl
    rw [List.map_cons, List.eraseDups_cons, eraseDups_filter, List.pairwise_cons]
    refine ⟨fun b hb => ⟨p, List.mem_cons_self, rfl, fun q hq hqb => ?_⟩, ?_⟩
    · rcases List.mem_cons.mp hq with rfl | hq
      · simp [← hqb] at hb
      · exact hp q hq
    · refine List.Pairwise.imp_of_mem (fun {a b} _ hb hab => ?_) ((ih hl).filter _)
      obtain ⟨p', hp', ha, hall⟩ := hab
      refine ⟨p', List.mem_cons_of_mem _ hp', ha, fun q hq hqb => ?_⟩
      rcases List.mem_cons.mp hq with rfl | hq
      · simp [← hqb] at hb
      · exact hall q hq hqb

/-- Of distinct entries, the first `n` without one are among the first `n + 1`. -/
theorem take_filter_ne {l : List α} (hl : l.Nodup) (b : α) (n : ℕ) :
    (l.filter (· ≠ b)).take n = ((l.take (n + 1)).filter (· ≠ b)).take n := by
  induction l generalizing n with
  | nil => simp
  | cons a l ih =>
    obtain ⟨ha, hl⟩ := List.nodup_cons.mp hl
    by_cases hab : a = b
    · subst hab
      have hall : ∀ c ∈ l, decide (c ≠ a) = true := fun c hc =>
        decide_eq_true fun h => ha (h ▸ hc)
      rw [List.take_succ_cons, List.filter_cons_of_neg (by simp), List.filter_cons_of_neg (by simp),
        List.filter_eq_self.mpr hall,
        List.filter_eq_self.mpr fun c hc => hall c (List.mem_of_mem_take hc), List.take_take,
        Nat.min_self]
    · rw [List.take_succ_cons, List.filter_cons_of_pos (by simp [hab]),
        List.filter_cons_of_pos (by simp [hab])]
      cases n with
      | zero => simp
      | succ n => rw [List.take_succ_cons, List.take_succ_cons, ih hl]

end FirstOccurrences

/-! ### Going around -/

section Circle

variable {α β : Type} [LinearOrder α] [DecidableEq β]

/-- The points of `S` in the order in which they are met from `h` on. -/
def clockwise (S : Finset α) (h : α) : List α := (S.filter (h ≤ ·)).sort ++ (S.filter (· < h)).sort

/-- The owners of the points of `S` in the order in which they are first met from `h` on. -/
def ownersFrom (S : Finset α) (owner : α → β) (h : α) : List β :=
  ((clockwise S h).map owner).eraseDups

/-- From `h` on, `p` is met before `q`. -/
def Ahead (h p q : α) : Prop := (h ≤ p ∧ q < h) ∨ (p < q ∧ (h ≤ p ∨ q < h))

variable {S : Finset α} {h : α}

@[simp] theorem mem_clockwise {a : α} : a ∈ clockwise S h ↔ a ∈ S := by
  rw [clockwise, List.mem_append, Finset.mem_sort, Finset.mem_sort, Finset.mem_filter,
    Finset.mem_filter, ← and_or_left]
  exact and_iff_left (le_or_gt h a)

theorem pairwise_lt_sort (S : Finset α) : S.sort.Pairwise (· < ·) :=
  ((S.pairwise_sort _).and (S.sort_nodup _)).imp fun h => lt_of_le_of_ne h.1 h.2

theorem clockwise_pairwise (S : Finset α) (h : α) : (clockwise S h).Pairwise (Ahead h) := by
  rw [clockwise, List.pairwise_append]
  refine ⟨?_, ?_, fun p hp q hq => Or.inl ?_⟩
  · refine List.Pairwise.imp_of_mem (fun {p q} hp _ hlt => Or.inr ⟨hlt, Or.inl ?_⟩)
      (pairwise_lt_sort _)
    exact (Finset.mem_filter.mp ((Finset.mem_sort _).mp hp)).2
  · refine List.Pairwise.imp_of_mem (fun {p q} _ hq hlt => Or.inr ⟨hlt, Or.inr ?_⟩)
      (pairwise_lt_sort _)
    exact (Finset.mem_filter.mp ((Finset.mem_sort _).mp hq)).2
  · rw [Finset.mem_sort, Finset.mem_filter] at hp hq
    exact ⟨hp.2, hq.2⟩

theorem sort_filter (p : α → Prop) [DecidablePred p] : (S.filter p).sort = S.sort.filter p := by
  have hset : (S.sort.filter p).toFinset = S.filter p := by
    ext a
    simp
  rw [← hset]
  exact (List.toFinset_sort _ ((S.sort_nodup _).filter _)).mpr ((S.pairwise_sort _).filter _)

/-- In order, the first occurrences are the entries in order. -/
theorem eraseDups_eq_sort {l : List α} (hl : l.Pairwise (· ≤ ·)) :
    l.eraseDups = l.toFinset.sort := by
  have hset : l.eraseDups.toFinset = l.toFinset := by
    ext a
    simp
  rw [← hset]
  exact ((List.toFinset_sort _ (nodup_eraseDups l)).mpr (hl.sublist (eraseDups_sublist l))).symm

/-- **Leaving points out** leaves the order of the others as it is. -/
theorem clockwise_filter (p : α → Prop) [DecidablePred p] :
    clockwise (S.filter p) h = (clockwise S h).filter p := by
  rw [clockwise, clockwise, List.filter_append, Finset.filter_comm p (h ≤ ·),
    Finset.filter_comm p (· < h), sort_filter p, sort_filter p]

/-- In order, the first point that is not below `h` parts those below from the others. -/
theorem take_drop_findIdx {l : List α} (hl : l.Pairwise (· ≤ ·)) (h : α) :
    l.take (l.findIdx fun a => h ≤ a) = l.filter (fun a => a < h) ∧
      l.drop (l.findIdx fun a => h ≤ a) = l.filter fun a => h ≤ a := by
  induction l with
  | nil => exact ⟨rfl, rfl⟩
  | cons a l ih =>
    obtain ⟨ha, hl⟩ := List.pairwise_cons.mp hl
    obtain ⟨htake, hdrop⟩ := ih hl
    rw [List.findIdx_cons]
    by_cases hle : h ≤ a
    · have hall : ∀ b ∈ a :: l, h ≤ b := by
        rintro b (_ | ⟨_, hb⟩)
        · exact hle
        · exact hle.trans (ha b hb)
      rw [decide_eq_true hle, cond_true, List.take_zero, List.drop_zero]
      refine ⟨(List.filter_eq_nil_iff.mpr fun b hb => ?_).symm,
        (List.filter_eq_self.mpr fun b hb => decide_eq_true (hall b hb)).symm⟩
      simpa using hall b hb
    · rw [decide_eq_false hle, cond_false, List.take_succ_cons, List.drop_succ_cons, htake, hdrop]
      simp [hle, not_le.mp hle]

/-- The list of the points in order, gone around from the first that is not below `h`. -/
theorem rotate_eq_append {l : List α} (hl : l.Pairwise (· ≤ ·)) (h : α) :
    l.rotate (l.findIdx fun a => h ≤ a) =
      (l.filter fun a => h ≤ a) ++ l.filter fun a => a < h := by
  obtain ⟨htake, hdrop⟩ := take_drop_findIdx hl h
  rw [List.rotate_eq_drop_append_take List.findIdx_le_length, htake, hdrop]

/-- Gone around so, each point is first met as on the circle. -/
theorem eraseDups_rotate {l : List α} (hl : l.Pairwise (· ≤ ·)) (h : α) :
    (l.rotate (l.findIdx fun a => h ≤ a)).eraseDups = clockwise l.toFinset h := by
  have hapart : (l.filter fun a => a < h).removeAll (l.filter fun a => h ≤ a) =
      l.filter fun a => a < h := by
    refine List.filter_eq_self.mpr fun a ha => ?_
    simp at ha ⊢
    exact Or.inr ha.2
  rw [rotate_eq_append hl, List.eraseDups_append, hapart, eraseDups_eq_sort (hl.filter _),
    eraseDups_eq_sort (hl.filter _), clockwise, List.toFinset_filter, List.toFinset_filter]
  simp

/-- The place one starts from is the first point, if it is one. -/
theorem head?_clockwise_of_mem (hh : h ∈ S) : (clockwise S h).head? = some h := by
  have hmem : h ∈ (S.filter (h ≤ ·)).sort := by simp [hh]
  rw [clockwise, List.head?_append]
  rcases hl : (S.filter (h ≤ ·)).sort with _ | ⟨a, l⟩
  · rw [hl] at hmem
    cases hmem
  · have hle : h ≤ a := by
      have ha : a ∈ (S.filter (h ≤ ·)).sort := by rw [hl]; exact List.mem_cons_self
      rw [Finset.mem_sort, Finset.mem_filter] at ha
      exact ha.2
    have hsorted := (S.filter (h ≤ ·)).pairwise_sort (· ≤ ·)
    rw [hl] at hmem hsorted
    have hge : a ≤ h := by
      rcases List.mem_cons.mp hmem with rfl | hmem
      · exact le_refl h
      · exact (List.pairwise_cons.mp hsorted).1 h hmem
    rw [hl, le_antisymm hge hle]
    rfl

/-- Points that are added come first, or make no difference to what comes first. -/
theorem head?_clockwise_union {P : Finset α} {a : α}
    (ha : (clockwise (S ∪ P) h).head? = some a) : a ∈ P ∨ (clockwise S h).head? = some a := by
  have hS : (S ∪ P).filter (· ∈ S) = S := by
    ext b
    simp
  obtain ⟨l, hl⟩ := List.head?_eq_some_iff.mp ha
  have hmem : a ∈ S ∪ P := by
    rw [← mem_clockwise (h := h), hl]
    exact List.mem_cons_self
  refine (Finset.mem_union.mp hmem).symm.imp_right fun haS => ?_
  rw [← hS, clockwise_filter, hl, List.filter_cons_of_pos (by simpa using haS)]
  rfl

theorem nodup_ownersFrom (owner : α → β) : (ownersFrom S owner h).Nodup := nodup_eraseDups _

theorem mem_ownersFrom {owner : α → β} {b : β} :
    b ∈ ownersFrom S owner h ↔ ∃ a ∈ S, owner a = b := by
  simp [ownersFrom, List.mem_eraseDups]

theorem length_ownersFrom (owner : α → β) :
    (ownersFrom S owner h).length = (S.image owner).card := by
  rw [← List.toFinset_card_of_nodup (nodup_ownersFrom owner)]
  congr 1
  ext b
  rw [List.mem_toFinset, mem_ownersFrom, Finset.mem_image]

/-- **The order of the owners** is that of their first points. -/
theorem ownersFrom_pairwise (owner : α → β) :
    (ownersFrom S owner h).Pairwise fun a b =>
      ∃ p ∈ S, owner p = a ∧ ∀ q ∈ S, owner q = b → Ahead h p q := by
  refine (pairwise_eraseDups_map owner (clockwise_pairwise S h)).imp ?_
  rintro a b ⟨p, hp, ha, hall⟩
  exact ⟨p, mem_clockwise.mp hp, ha, fun q hq => hall q (mem_clockwise.mpr hq)⟩

/-- The first owner is that of the first point. -/
theorem head?_ownersFrom (owner : α → β) :
    (ownersFrom S owner h).head? = (clockwise S h).head?.map owner := by
  rw [ownersFrom]
  rcases clockwise S h with _ | ⟨a, l⟩
  · rfl
  · rw [List.map_cons, List.eraseDups_cons]
    rfl

theorem ownersFrom_congr {owner owner' : α → β} (heq : ∀ a ∈ S, owner a = owner' a) :
    ownersFrom S owner h = ownersFrom S owner' h := by
  rw [ownersFrom, ownersFrom, List.map_congr_left fun a ha => heq a (mem_clockwise.mp ha)]

/-- **The order of the owners when one leaves**: the first `n` without it are among the first
`n + 1` with it. -/
theorem take_ownersFrom_filter (owner : α → β) (b : β) (n : ℕ) :
    (ownersFrom (S.filter fun a => owner a ≠ b) owner h).take n =
      (((ownersFrom S owner h).take (n + 1)).filter (· ≠ b)).take n := by
  rw [← take_filter_ne (nodup_ownersFrom owner), ownersFrom, ownersFrom, ← eraseDups_filter,
    clockwise_filter,
    List.filter_map]
  rfl

end Circle

end ClusterManager
