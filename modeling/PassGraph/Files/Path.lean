/-!
# Paths

The text of a path, taken apart at its slashes. Empty parts and parts of one dot say nothing, apart
from the very first part: an empty one makes the path absolute, and a dot is kept because the path
is shown as it was given.

## Main definitions

* `Path.parts`
* `Path.directory`, `Path.fileName?` — where the last part of a path lies, and what it names
-/

namespace PassGraph.Path

/-- The parts of a path between its slashes. -/
def parts (path : String) : List String :=
  path.splitOn "/"

/-- Whether a part says nothing. -/
def isIdle (part : String) : Bool :=
  part = "" || part = "."

/-- The parts without those at the end that say nothing. The first part stays. -/
def trim : List String → List String
  | [] => []
  | first :: rest => first :: (rest.reverse.dropWhile isIdle).reverse

/-- The parts in front of the last one that says something, and that one. -/
def split (path : String) : List String × String :=
  let ps := trim (parts path)
  (trim ps.dropLast, ps.getLast?.getD "")

/-- The text of parts; that of the empty first part alone is a slash. -/
def join : List String → String
  | [""] => "/"
  | ps => "/".intercalate ps

/-- The directory that the last part of a path lies in. It is a dot if the path has one part. -/
def directory (path : String) : String :=
  match (split path).1 with
  | [] => "."
  | ps => join ps

/-- The name of a file at a path, unless the path ends in a step to a directory. -/
def fileName? (path : String) : Option String :=
  let name := (split path).2
  if isIdle name ∨ name = ".." then none else some name

/-- The path of a name in a directory. -/
def inside (directory name : String) : String :=
  directory ++ "/" ++ name

theorem trim_ne_nil {ps : List String} (h : ps ≠ []) : trim ps ≠ [] := by
  cases ps with
  | nil => exact absurd rfl h
  | cons => simp [trim]

theorem isIdle_of_fileName? {path name : String} (h : fileName? path = some name) :
    isIdle name = false := by
  simp only [fileName?] at h
  split at h
  · simp at h
  · rename_i hn
    cases h
    simpa using fun hi => hn (Or.inl hi)

end PassGraph.Path
