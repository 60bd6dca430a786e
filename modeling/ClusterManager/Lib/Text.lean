import Mathlib.Algebra.Order.Ring.Int
import Mathlib.Data.List.Infix

/-!
# Text

The string functions of the Go standard library that the program computes with, over
the characters of a string so that they can be evaluated: splitting at a character,
searching, trimming, replacing, and reading numbers. A reader that fails returns
`none`; the texts of the errors are not used by the program.
-/

namespace ClusterManager

namespace Text

/-- `strings.Split` at one character: the pieces between its occurrences, at least
one. -/
def split (sep : Char) (s : String) : List String := (s.toList.splitOn sep).map String.ofList

/-- `strings.Contains`. -/
def contains (s sub : String) : Bool := decide (sub.toList <:+: s.toList)

/-- `strings.TrimPrefix`. -/
def trimPrefix (s p : String) : String :=
  if p.toList.isPrefixOf s.toList then String.ofList (s.toList.drop p.toList.length) else s

/-- Replace the occurrences of `old` from the left; the first `skip` characters belong
to an occurrence that has been replaced. -/
def replaceFrom (old new : List Char) : ℕ → List Char → List Char
  | _, [] => []
  | skip + 1, _ :: cs => replaceFrom old new skip cs
  | 0, c :: cs =>
    if old.isPrefixOf (c :: cs) then new ++ replaceFrom old new (old.length - 1) cs
    else c :: replaceFrom old new 0 cs

/-- `strings.ReplaceAll`, of something that is not empty. -/
def replaceAll (s old new : String) : String :=
  String.ofList (replaceFrom old.toList new.toList 0 s.toList)

/-- `strings.Join` with one character between the parts. -/
def join (sep : Char) (parts : List String) : String :=
  String.ofList ([sep].intercalate (parts.map String.toList))

/-- What stands after the last occurrence of a character, if there is one. -/
def afterLast (sep : Char) (s : String) : Option String :=
  if sep ∈ s.toList then (split sep s).getLast? else none

/-- The value of a decimal digit. -/
def digit (c : Char) : Option ℕ :=
  if '0' ≤ c ∧ c ≤ '9' then some (c.toNat - '0'.toNat) else none

/-- The number that decimal digits stand for, after `acc`. -/
def digitsFrom (acc : ℕ) : List Char → Option ℕ
  | [] => some acc
  | c :: cs => (digit c).bind fun d => digitsFrom (acc * 10 + d) cs

/-- The number that one or more decimal digits stand for. -/
def digits : List Char → Option ℕ
  | [] => none
  | c :: cs => digitsFrom 0 (c :: cs)

/-- `strconv.ParseUint` in base 10 at a width. -/
def parseUint (bits : ℕ) (s : String) : Option ℕ := (digits s.toList).filter (· < 2 ^ bits)

/-- `strconv.Atoi`, and `strconv.ParseInt` in base 10 at width 64. -/
def atoi (s : String) : Option ℤ :=
  match s.toList with
  | '-' :: cs => ((digits cs).filter (· ≤ 2 ^ 63)).map fun n => -(n : ℤ)
  | '+' :: cs => ((digits cs).filter (· < 2 ^ 63)).map fun n => (n : ℤ)
  | cs => ((digits cs).filter (· < 2 ^ 63)).map fun n => (n : ℤ)

/-- `strconv.ParseBool`. -/
def parseBool (s : String) : Option Bool :=
  if s ∈ ["1", "t", "T", "TRUE", "true", "True"] then some true
  else if s ∈ ["0", "f", "F", "FALSE", "false", "False"] then some false
  else none

/-! ### Reading back what has been written -/

/-- Decimal digits stand for a number. -/
theorem digitsFrom_of_isDigit {cs : List Char} (h : ∀ c ∈ cs, c.isDigit) (acc : ℕ) :
    digitsFrom acc cs = some (Nat.ofDigitChars 10 cs acc) := by
  induction cs generalizing acc with
  | nil => rfl
  | cons c cs ih =>
    have hc := h c List.mem_cons_self
    have hdigit : digit c = some (c.toNat - '0'.toNat) := by
      rw [Char.isDigit, Bool.and_eq_true, decide_eq_true_iff, decide_eq_true_iff] at hc
      exact if_pos ⟨hc.1, hc.2⟩
    rw [digitsFrom, hdigit, Option.bind_some, ih fun x hx => h x (List.mem_cons_of_mem _ hx),
      Nat.ofDigitChars_cons, Nat.mul_comm]

/-- What a number is written with. -/
theorem toList_toString (n : ℕ) : (toString n).toList = Nat.toDigits 10 n := by
  rw [Nat.toString_eq_ofList_toDigits, String.toList_ofList]

theorem isDigit_of_mem_toString {n : ℕ} {c : Char} (h : c ∈ (toString n).toList) : c.isDigit := by
  rw [toList_toString] at h
  exact Nat.isDigit_of_mem_toDigits (by decide) (by decide) h

theorem notMem_toString {c : Char} (hc : ¬ c.isDigit) (n : ℕ) : c ∉ (toString n).toList :=
  fun h => hc (isDigit_of_mem_toString h)

/-- The digits of a number stand for it. -/
theorem digits_toString (n : ℕ) : digits (toString n).toList = some n := by
  have hvalue := digitsFrom_of_isDigit (fun c hc => isDigit_of_mem_toString hc (n := n)) 0
  rw [toList_toString, Nat.ofDigitChars_ten_toDigits] at hvalue
  rw [toList_toString]
  rcases hcs : Nat.toDigits 10 n with _ | ⟨c, cs⟩
  · exact absurd hcs Nat.toDigits_ne_nil
  · rw [hcs] at hvalue
    exact hvalue

/-- A number is read back from its text, -/
theorem atoi_toString {n : ℕ} (hn : n < 2 ^ 63) : atoi (toString n) = some (n : ℤ) := by
  have hvalue := digits_toString n
  have hminus := notMem_toString (c := '-') (by decide) n
  have hplus := notMem_toString (c := '+') (by decide) n
  rw [atoi]
  split
  · rename_i heq
    exact absurd (heq ▸ List.mem_cons_self) hminus
  · rename_i heq
    exact absurd (heq ▸ List.mem_cons_self) hplus
  · rw [hvalue, Option.filter_some, if_pos (decide_eq_true hn)]
    rfl

/-- and at a width if it fits in there. -/
theorem parseUint_toString (bits n : ℕ) :
    parseUint bits (toString n) = if n < 2 ^ bits then some n else none := by
  rw [parseUint, digits_toString, Option.filter_some]
  exact if_congr decide_eq_true_iff rfl rfl

/-! ### Splitting and joining -/

section SplitOn

variable {α : Type} [DecidableEq α] {sep : α}

/-- Splitting follows the first occurrence of the separator. -/
theorem splitOn_rec {P : List α → List (List α) → Prop} (single : ∀ xs, sep ∉ xs → P xs [xs])
    (cons : ∀ a b, sep ∉ a → P b (b.splitOn sep) → P (a ++ sep :: b) (a :: b.splitOn sep))
    (xs : List α) : P xs (xs.splitOn sep) := by
  by_cases hmem : sep ∈ xs
  · obtain ⟨a, b, rfl, ha⟩ := List.eq_append_cons_of_mem hmem
    rw [List.splitOn_append_cons_self_of_not_mem ha]
    exact cons a b ha (splitOn_rec single cons b)
  · rw [List.splitOn_eq_singleton hmem]
    exact single xs hmem
termination_by xs.length
decreasing_by
  subst_vars
  rw [List.length_append, List.length_cons]
  omega

/-- The separator is in none of the parts. -/
theorem notMem_of_mem_splitOn {xs p : List α} (hp : p ∈ xs.splitOn sep) : sep ∉ p := by
  refine splitOn_rec (P := fun _ parts => ∀ p ∈ parts, sep ∉ p) (fun xs hxs p hp => ?_)
    (fun a b ha ih p hp => ?_) xs p hp
  · rwa [List.mem_singleton.mp hp]
  · rcases List.mem_cons.mp hp with rfl | hp
    · exact ha
    · exact ih p hp

omit [DecidableEq α] in
/-- A run of other elements lies on one side of the separator. -/
theorem infix_append_cons_iff {sub a b : List α} (hsub : sep ∉ sub) :
    sub <:+: a ++ sep :: b ↔ sub <:+: a ∨ sub <:+: b := by
  constructor
  · rintro ⟨u, v, huv⟩
    rcases List.append_eq_append_iff.mp huv with ⟨d, ha, -⟩ | ⟨d, hu, hd⟩
    · exact Or.inl ⟨u, d, ha.symm⟩
    rcases List.cons_eq_append_iff.mp hd with ⟨rfl, -⟩ | ⟨e, rfl, hb⟩
    · rw [List.append_nil] at hu
      exact Or.inl ⟨u, [], by rw [List.append_nil, hu]⟩
    -- the run ends behind the separator, so it begins there
    rcases List.append_eq_append_iff.mp hu with ⟨f, -, hf⟩ | ⟨f, -, hf⟩
    · exact absurd (hf ▸ List.mem_append_right _ List.mem_cons_self) hsub
    rcases List.cons_eq_append_iff.mp hf with ⟨-, hsep⟩ | ⟨g, -, he⟩
    · exact absurd (hsep ▸ List.mem_cons_self) hsub
    · exact Or.inr ⟨g, v, by rw [hb, he]⟩
  · rintro (h | h)
    · exact h.trans (List.prefix_append _ _).isInfix
    · exact h.trans ((List.suffix_cons _ _).trans (List.suffix_append _ _)).isInfix

/-- A run of other elements lies in one of the parts. -/
theorem infix_iff_exists_mem_splitOn {sub : List α} (hsub : sep ∉ sub) (xs : List α) :
    sub <:+: xs ↔ ∃ p ∈ xs.splitOn sep, sub <:+: p := by
  refine splitOn_rec (P := fun xs parts => sub <:+: xs ↔ ∃ p ∈ parts, sub <:+: p)
    (fun xs _ => by simp) (fun a b _ ih => ?_) xs
  rw [infix_append_cons_iff hsub, ih]
  simp

end SplitOn

section Split

variable {sep : Char} {s : String}

/-- What has been joined is split again. -/
theorem split_join {parts : List String} (hne : parts ≠ []) (h : ∀ p ∈ parts, sep ∉ p.toList) :
    split sep (join sep parts) = parts := by
  have hsplit : ([sep].intercalate (parts.map String.toList)).splitOn sep =
      parts.map String.toList :=
    List.splitOn_intercalate sep (by simpa using h) (by simpa using hne)
  rw [split, join, String.toList_ofList, hsplit, List.map_map]
  exact (List.map_congr_left fun p _ => String.ofList_toList).trans (List.map_id _)

/-- What has been split is joined again. -/
theorem join_split (sep : Char) (s : String) : join sep (split sep s) = s := by
  have hparts : (split sep s).map String.toList = s.toList.splitOn sep := by
    rw [split, List.map_map]
    exact (List.map_congr_left fun p _ => String.toList_ofList).trans (List.map_id _)
  rw [join, hparts, List.intercalate_splitOn, String.ofList_toList]

/-- What has been joined holds nothing but its parts. -/
theorem mem_join {parts : List String} {c : Char} (hc : c ∈ (join sep parts).toList) :
    c = sep ∨ ∃ p ∈ parts, c ∈ p.toList := by
  rw [join, String.toList_ofList] at hc
  induction parts with
  | nil => simp at hc
  | cons p parts ih =>
    cases parts with
    | nil => exact Or.inr ⟨p, List.mem_cons_self, by simpa using hc⟩
    | cons q parts =>
      rw [List.map_cons, List.map_cons, List.intercalate_cons_cons, List.mem_append,
        List.mem_append] at hc
      rcases hc with (hc | hc) | hc
      · exact Or.inr ⟨p, List.mem_cons_self, hc⟩
      · exact Or.inl (List.mem_singleton.mp hc)
      · rcases ih hc with hc | ⟨r, hr, hc⟩
        · exact Or.inl hc
        · exact Or.inr ⟨r, List.mem_cons_of_mem _ hr, hc⟩

/-- A text without the character is one part. -/
theorem split_of_notMem (h : sep ∉ s.toList) : split sep s = [s] := by
  rw [split, List.splitOn_eq_singleton h, List.map_singleton, String.ofList_toList]

/-- The first part ends at the character. -/
theorem split_append_cons {a b : String} (h : sep ∉ a.toList) :
    split sep (a ++ String.singleton sep ++ b) = a :: split sep b := by
  have hlist : (a ++ String.singleton sep ++ b).toList = a.toList ++ sep :: b.toList := by
    simp
  rw [split, hlist, List.splitOn_append_cons_self_of_not_mem h, List.map_cons,
    String.ofList_toList, split]

/-- The parts of a text around a character. -/
theorem split_ends {a b : String} (ha : sep ∉ a.toList) (hb : sep ∉ b.toList) :
    split sep (a ++ String.singleton sep ++ b) = [a, b] := by
  rw [split_append_cons ha, split_of_notMem hb]

theorem afterLast_ends {a b : String} (ha : sep ∉ a.toList) (hb : sep ∉ b.toList) :
    afterLast sep (a ++ String.singleton sep ++ b) = some b := by
  have hmem : sep ∈ (a ++ String.singleton sep ++ b).toList := by simp
  rw [afterLast, if_pos hmem, split_ends ha hb]
  rfl

/-- The character is in none of the parts. -/
theorem notMem_of_mem_split {p : String} (hp : p ∈ split sep s) : sep ∉ p.toList := by
  obtain ⟨l, hl, rfl⟩ := List.mem_map.mp hp
  rw [String.toList_ofList]
  exact notMem_of_mem_splitOn hl

/-- A text without the character is searched part by part. -/
theorem contains_iff_exists_mem_split (sep : Char) {sub : String} (hsub : sep ∉ sub.toList)
    (s : String) :
    contains s sub ↔ ∃ p ∈ split sep s, contains p sub := by
  simp only [contains, split, decide_eq_true_iff, List.mem_map, exists_exists_and_eq_and,
    String.toList_ofList]
  exact infix_iff_exists_mem_splitOn hsub s.toList

end Split

theorem trimPrefix_append (p s : String) : trimPrefix (p ++ s) p = s := by
  rw [trimPrefix, String.toList_append, if_pos, List.drop_left, String.ofList_toList]
  exact List.isPrefixOf_iff_prefix.mpr (List.prefix_append _ _)

example : atoi "-42" = some (-42) := by decide

example : split ' ' "a  b" = ["a", "", "b"] := by decide

example : replaceAll "x-aa-aaa" "aa" "b" = "x-b-ba" := by decide

end Text

end ClusterManager
