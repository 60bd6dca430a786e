import Mathlib.Data.List.Basic
import Mathlib.Data.List.Induction
import Mathlib.Data.Set.Function

/-!
# The latest entry of a key

Entries come in one after the other and are filed under a key each; an entry takes the
place of an earlier one that has the same key. `latest key l` is the index that is left
after the entries `l`.

Every entry is found under its own key exactly when no two entries share one
(`forall_latest_iff`).
-/

namespace ClusterManager

section Latest

variable {α κ : Type} [DecidableEq κ]

/-- The last of the entries with a key. -/
def latest (key : α → κ) (l : List α) (k : κ) : Option α := l.reverse.find? fun a => key a = k

variable {key : α → κ} {l : List α} {a : α} {k : κ}

@[simp] theorem latest_nil : latest key [] = fun _ => none := rfl

theorem latest_concat : latest key (l ++ [a]) k = if key a = k then some a else latest key l k := by
  rw [latest, List.reverse_append, List.reverse_singleton, List.singleton_append, List.find?_cons]
  split
  · rename_i h
    rw [if_pos (of_decide_eq_true h)]
  · rename_i h
    rw [if_neg (of_decide_eq_false h)]
    rfl

/-- Filing one more entry. -/
theorem update_latest :
    Function.update (latest key l) (key a) (some a) = latest key (l ++ [a]) := by
  funext k
  rw [latest_concat]
  by_cases h : key a = k
  · rw [if_pos h, ← h, Function.update_self]
  · rw [if_neg h, Function.update_of_ne (Ne.symm h)]

theorem latest_eq_some (h : latest key l k = some a) : a ∈ l ∧ key a = k := by
  rw [latest] at h
  exact ⟨List.mem_reverse.mp (List.mem_of_find?_eq_some h), by simpa using List.find?_some h⟩

theorem latest_eq_none : latest key l k = none ↔ ∀ a ∈ l, key a ≠ k := by
  rw [latest, List.find?_eq_none]
  simp

/-- An entry whose key no other entry has is found. -/
theorem latest_of_unique (ha : a ∈ l) (huniq : ∀ b ∈ l, key b = key a → b = a) :
    latest key l (key a) = some a := by
  rcases h : latest key l (key a) with _ | b
  · exact absurd rfl (latest_eq_none.mp h a ha)
  · obtain ⟨hb, hkey⟩ := latest_eq_some h
    rw [huniq b hb hkey]

/-- An entry that is found came in after the others of its key. -/
theorem latest_last {r : α → α → Prop} (hl : l.Pairwise r) {b : α} (hb : latest key l k = some b)
    (ha : a ∈ l) (hk : key a = k) : a = b ∨ r a b := by
  induction l using List.reverseRecOn with
  | nil => cases ha
  | append_singleton l x ih =>
    obtain ⟨hl, -, hx⟩ := List.pairwise_append.mp hl
    rw [latest_concat] at hb
    rcases List.mem_append.mp ha with ha | ha
    · split at hb
      · obtain rfl := Option.some.inj hb
        exact Or.inr (hx a ha x (List.mem_singleton_self _))
      · exact ih hl hb ha
    · obtain rfl := List.mem_singleton.mp ha
      rw [if_pos hk] at hb
      exact Or.inl (Option.some.inj hb)

/-- **Every entry is found under its own key** exactly when no two share one. -/
theorem forall_latest_iff :
    (∀ a ∈ l, latest key l (key a) = some a) ↔ Set.InjOn key {a | a ∈ l} := by
  constructor
  · intro h a ha b hb hkey
    have hfound := (h a ha).symm.trans (hkey ▸ h b hb)
    exact Option.some.inj hfound
  · intro h a ha
    exact latest_of_unique ha fun b hb hkey => h hb ha hkey

end Latest

end ClusterManager
