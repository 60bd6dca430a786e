import ClusterManager.Lib.Text

/-!
# Unix paths

`filepath.IsAbs`, `filepath.Clean` and `filepath.Join` as they are on Unix. `clean`
goes through the components of a path from the left and keeps a stack of those that
are left: the empty one and `.` are dropped, `..` takes back the component before it,
is dropped at the root, and is kept at the start of a relative path.

The one fact used of them is that a path that starts at the root still does after any
of this (`isAbs_clean`, `isAbs_join`).
-/

namespace ClusterManager

namespace Path

/-- A path that starts at the root. -/
def isAbs (p : String) : Bool := p.toList.head? = some '/'

/-- Put one component on the stack of those that are left, the last one on top. -/
def push (rooted : Bool) (stack : List String) (c : String) : List String :=
  if c = "" ∨ c = "." then stack
  else if c = ".." then
    match stack with
    | [] => if rooted then [] else [".."]
    | top :: rest => if top = ".." then ".." :: top :: rest else rest
  else c :: stack

/-- `strings.Join` with slashes. -/
def joinSlash : List String → String
  | [] => ""
  | e :: rest => rest.foldl (fun acc x => acc ++ "/" ++ x) e

/-- The shortest equivalent path. -/
def clean (p : String) : String :=
  let body := joinSlash ((Text.split '/' p).foldl (push (isAbs p)) []).reverse
  if isAbs p then "/" ++ body
  else if body = "" then "." else body

/-- The elements from the first that is not empty on, joined and cleaned. -/
def join (elems : List String) : String :=
  match elems.dropWhile (· = "") with
  | [] => ""
  | e :: rest => clean (joinSlash (e :: rest))

theorem isAbs_slash_append (s : String) : isAbs ("/" ++ s) = true := by
  simp [isAbs, String.toList_append]

theorem isAbs_append {p : String} (h : isAbs p) (s : String) : isAbs (p ++ s) := by
  simp only [isAbs, decide_eq_true_eq] at h ⊢
  rw [String.toList_append]
  cases hp : p.toList with
  | nil => simp [hp] at h
  | cons c cs => simpa [hp] using h

/-- Cleaning keeps a path at the root. -/
theorem isAbs_clean {p : String} (h : isAbs p) : isAbs (clean p) := by
  simp only [clean, h, if_true]
  exact isAbs_slash_append _

theorem isAbs_joinSlash {p : String} (h : isAbs p) (rest : List String) :
    isAbs (joinSlash (p :: rest)) := by
  rw [joinSlash]
  induction rest generalizing p with
  | nil => exact h
  | cons x rest ih => exact ih (isAbs_append (isAbs_append h "/") x)

/-- Joining below a path at the root stays below the root. -/
theorem isAbs_join {p : String} (h : isAbs p) (rest : List String) :
    isAbs (join (p :: rest)) := by
  have hne : p ≠ "" := by
    rintro rfl
    exact absurd h (by decide)
  rw [join, List.dropWhile_cons_of_neg (by simpa using hne)]
  exact isAbs_clean (isAbs_joinSlash h rest)

example : join ["/a/b", "../c", "d.yaml"] = "/a/c/d.yaml" := by decide

example : join ["", "x//y/.", "..", ".."] = "." := by decide

end Path

end ClusterManager
