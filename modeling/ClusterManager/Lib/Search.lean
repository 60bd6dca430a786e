import Mathlib.Data.List.GetD
import Mathlib.Order.Lattice
import Mathlib.Order.Nat

/-!
# Binary search

`sortSearch n f` is the search of the standard library: it halves the interval from `0` to `n`
until nothing is left of it, going right where `f` is false and left where it is true. Where `f`
is false up to some place and true from there on, the result is that place
(`sortSearch_eq`); on a list in order it is the index of the first entry that is not below a
bound (`sortSearch_eq_findIdx`).
-/

namespace ClusterManager

/-- The search in the interval from `i` to `j`. -/
def searchFrom (f : ℕ → Bool) (i j : ℕ) : ℕ :=
  if h : i < j then
    let mid := (i + j) / 2
    if f mid then searchFrom f i mid else searchFrom f (mid + 1) j
  else i
termination_by j - i

/-- The search of the standard library. -/
def sortSearch (n : ℕ) (f : ℕ → Bool) : ℕ := searchFrom f 0 n

theorem searchFrom_eq {f : ℕ → Bool} {i j k : ℕ} (hik : i ≤ k) (hkj : k ≤ j)
    (hbelow : ∀ x, i ≤ x → x < k → f x = false) (habove : ∀ x, k ≤ x → x < j → f x = true) :
    searchFrom f i j = k := by
  fun_induction searchFrom f i j with
  | case1 i j hlt mid hmid ih =>
    have hkmid : k ≤ mid := by
      by_contra hcon
      rw [hbelow mid (by omega) (by omega)] at hmid
      cases hmid
    exact ih hik hkmid hbelow fun x hx hxm => habove x hx (by omega)
  | case2 i j hlt mid hmid ih =>
    have hmidk : mid < k := by
      by_contra hcon
      exact hmid (habove mid (by omega) (by omega))
    exact ih (by omega) hkj (fun x hx hxk => hbelow x (by omega) hxk) habove
  | case3 i j hge => omega

/-- **The search finds the place** where `f` changes. -/
theorem sortSearch_eq {f : ℕ → Bool} {n k : ℕ} (hk : k ≤ n) (hbelow : ∀ x < k, f x = false)
    (habove : ∀ x, k ≤ x → x < n → f x = true) : sortSearch n f = k :=
  searchFrom_eq (Nat.zero_le k) hk (fun x _ hx => hbelow x hx) habove

/-- On a list in order the search finds the first entry that is not below a bound. -/
theorem sortSearch_eq_findIdx {α : Type} [LinearOrder α] {l : List α} (hl : l.Pairwise (· ≤ ·))
    (h d : α) : sortSearch l.length (fun i => h ≤ l.getD i d) = l.findIdx fun a => h ≤ a := by
  refine sortSearch_eq List.findIdx_le_length (fun x hx => ?_) fun x hx hxl => ?_
  · have hxl : x < l.length := Nat.lt_of_lt_of_le hx List.findIdx_le_length
    rw [List.getD_eq_getElem l d hxl]
    exact List.not_of_lt_findIdx hx
  · rw [List.getD_eq_getElem l d hxl]
    have hfound : l.findIdx (fun a => h ≤ a) < l.length := Nat.lt_of_le_of_lt hx hxl
    have hle : h ≤ l[l.findIdx fun a => h ≤ a] :=
      of_decide_eq_true (List.findIdx_getElem (p := fun a => decide (h ≤ a)) (w := hfound))
    rcases hx.eq_or_lt with heq | hlt
    · exact decide_eq_true (by simpa [heq] using hle)
    · exact decide_eq_true (hle.trans (List.pairwise_iff_getElem.mp hl _ _ hfound hxl hlt))

end ClusterManager
