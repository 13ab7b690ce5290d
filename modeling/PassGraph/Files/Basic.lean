import PassGraph.Dict
import PassGraph.Fault
import PassGraph.Files.Path

/-!
# Files

The files below a working directory, kept as a list of what is at each location. A location is the
list of names that leads to it from the working directory. Of what is outside the working directory
only the directories that every machine has and the null device are known. No other name can be
looked up there, and what is written there is out of sight.

## Main definitions

* `Files.Content`, `Files.Entry`, `Files.Location`, `Files`
* `Files.get?`, `Files.put` — what is at a location
* `Files.commonDirectories`, `Files.nullDevice` — what every machine has
* `Files.resolve` — follow a path
* `Files.checkWhole`, `Files.checkName` — the limits on paths and names
* `Files.look`, `Files.read`, `Files.write` — what is at a path, its text, and a text for it
* `Files.changes` — the texts by which two states differ
-/

namespace PassGraph

/-- What is in a file: a text, or bytes that are none, of which only the number matters. -/
inductive Files.Content where
  | text (value : String)
  | bytes (count : Nat)
  deriving DecidableEq, Repr

/-- The number of bytes in a file. -/
def Files.Content.size : Content → Nat
  | text value => value.utf8ByteSize
  | bytes count => count

/-- What is at a location. -/
inductive Files.Entry where
  | file (content : Content)
  | directory
  deriving DecidableEq, Repr

/-- The names that lead to a place from the working directory, or to one outside from the root. -/
abbrev Files.Location := List String

/-- The files below a working directory. -/
structure Files where
  /-- What is at each location. -/
  entries : List (Files.Location × Files.Entry) := []
  deriving Repr

/-- Where a path leads. -/
inductive Files.Place where
  /-- Below the working directory, or the working directory itself. -/
  | within (location : Location)
  /-- To a directory that is not below it. The names lead to it from the root, if they are known. -/
  | outside (names : Option Location)
  /-- To the null device. -/
  | null
  deriving DecidableEq, Repr

/-- What is found at the end of a path. -/
inductive Files.Found where
  | file (bytes : Nat)
  | directory
  | device
  deriving DecidableEq, Repr

namespace Files

/-- What is at a location. -/
def get? (fs : Files) : Location → Option Entry
  | [] => some .directory
  | location => fs.entries.lookup location

/-- Have something at a location, in place of what was there. -/
def put (fs : Files) (location : Location) (e : Entry) : Files :=
  ⟨(location, e) :: fs.entries.filter fun old => old.1 ≠ location⟩

@[simp] theorem get?_put_self (fs : Files) (name : String) (location : Location) (e : Entry) :
    (fs.put (name :: location) e).get? (name :: location) = some e := by
  simp [put, get?]

theorem lookup_filter_ne {α β : Type} [BEq α] [LawfulBEq α] [DecidableEq α] {a b : α}
    (h : a ≠ b) (es : List (α × β)) : (es.filter fun old => old.1 ≠ b).lookup a = es.lookup a := by
  induction es with
  | nil => rfl
  | cons x es ih =>
    obtain ⟨k, v⟩ := x
    rw [List.filter_cons]
    split
    · rw [List.lookup_cons, List.lookup_cons, ih]
    · rename_i hk
      have : k = b := by simpa using hk
      have : (a == k) = false := by simpa [this] using h
      rw [List.lookup_cons, this, ih]

theorem get?_put_of_ne (fs : Files) {location other : Location} (h : other ≠ location)
    (e : Entry) : (fs.put location e).get? other = fs.get? other := by
  cases other with
  | nil => rfl
  | cons name rest =>
    have hb : (name :: rest == location) = false := by simpa using h
    simp only [put, get?, List.lookup_cons, hb]
    exact lookup_filter_ne h _

/-- The largest number of bytes that a name may have. -/
def nameLimit : Nat := 255

/-- The largest number of bytes that a path may have if it is asked for as a whole. A path that is
followed part by part may be longer. -/
def pathLimit : Nat := 4095

/-- Refuse a path that holds the character zero. -/
def checkCharacters (path : String) : Except FileFault Unit :=
  if path.toList.contains '\x00' then .error .zeroCharacter else .ok ()

/-- Refuse a path that cannot be asked for as a whole. -/
def checkWhole (path : String) : Except FileFault Unit := do
  checkCharacters path
  if pathLimit < path.utf8ByteSize then throw .nameTooLong

/-- Refuse a name that is too long for any directory. -/
def checkName (name : String) : Except FileFault Unit :=
  if nameLimit < name.utf8ByteSize then .error .nameTooLong else .ok ()

/-- Directories that every machine has, by the names that lead to them from the root. -/
def commonDirectories : List Location :=
  [[], ["bin"], ["dev"], ["etc"], ["home"], ["lib"], ["proc"], ["root"], ["sbin"], ["sys"],
    ["tmp"], ["usr"], ["var"]]

/-- The names that lead from the root to the device that has nothing to read and keeps nothing. -/
def nullDevice : Location :=
  ["dev", "null"]

/-- Whether a place is a directory. -/
def isDirectory (fs : Files) : Place → Bool
  | .within location => fs.get? location = some .directory
  | .outside _ => true
  | .null => false

/-- Take a step from a place. -/
def step (fs : Files) (p : Place) (part : String) : Except FileFault Place := do
  if !fs.isDirectory p then throw .noDirectory
  if Path.isIdle part then return p
  checkName part
  match p with
  | .within location =>
    if part = ".." then return if location.isEmpty then .outside none else .within location.dropLast
    else if (fs.get? (location ++ [part])).isSome then return .within (location ++ [part])
    else throw .missing
  | .outside (some names) =>
    -- The root leads back to itself.
    if part = ".." then return .outside (some names.dropLast)
    else if names ++ [part] ∈ commonDirectories then return .outside (some (names ++ [part]))
    else if names ++ [part] = nullDevice then return .null
    else throw .missing
  | _ => if part = ".." then return p else throw .missing

/-- Follow the parts of a path. -/
def follow (fs : Files) (ps : List String) : Except FileFault Place :=
  match ps with
  | "" :: rest => rest.foldlM fs.step (.outside (some []))
  | ps => ps.foldlM fs.step (.within [])

/-- Follow a path. -/
def resolve (fs : Files) (path : String) : Except FileFault Place := do
  checkCharacters path
  if path = "" then throw .missing
  fs.follow (Path.parts path)

/-- What is at the end of a path. -/
def look (fs : Files) (path : String) : Except FileFault Found := do
  match ← fs.resolve path with
  | .outside _ => return .directory
  | .null => return .device
  | .within location =>
    match fs.get? location with
    | some (.file content) => return .file content.size
    | _ => return .directory

/-- The text at the end of a path. -/
def read (fs : Files) (path : String) : Except FileFault String := do
  match ← fs.resolve path with
  | .outside _ => throw .isDirectory
  | .null => return ""
  | .within location =>
    match fs.get? location with
    | some (.file (.text value)) => return value
    | some (.file (.bytes _)) => throw .noText
    | _ => throw .isDirectory

/-- Have a text at the end of a path, whose last part is the name of the file. -/
def write (fs : Files) (path text : String) : Except FileFault Files := do
  checkCharacters path
  let ps := Path.parts path
  let name := ps.getLast?.getD ""
  let place ← if ps.dropLast.isEmpty then pure (.within []) else fs.follow ps.dropLast
  if !fs.isDirectory place then throw .noDirectory
  checkName name
  match place with
  | .within location =>
    let target := location ++ [name]
    if fs.get? target = some .directory then throw .isDirectory
    return fs.put target (.file (.text text))
  | .outside (some names) =>
    if names ++ [name] ∈ commonDirectories then throw .isDirectory
    return fs
  | _ => return fs

/-- Have something at a path below the working directory, and directories on the way. -/
def make (fs : Files) (path : String) (e : Entry) : Files :=
  let location := (Path.parts path).filter fun part => !Path.isIdle part
  let outer := (List.range location.length).map fun n => location.take n
  (outer.foldl (fun fs above => if above.isEmpty then fs else fs.put above .directory) fs).put
    location e

/-- The texts of the files that are new or have changed, by their paths in ascending order. -/
def changes (before after : Files) : List (String × String) :=
  (Dict.ofList <| after.entries.filterMap fun (location, e) =>
    match e with
    | .file (.text value) =>
      if before.get? location = some e then none else some (Path.join location, value)
    | _ => none).entries

end Files

end PassGraph
