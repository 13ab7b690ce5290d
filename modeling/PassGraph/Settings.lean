import PassGraph.Hierarchy.Induce
import PassGraph.Toml.Text

/-!
# Settings

What a user may set in a file, with the values that hold where nothing is set. A file that sets
something else, or something to a value of another kind, is refused as a whole.

## Main definitions

* `Settings`, `Settings.parse`
* `LogFormat`, `Settings.effectiveLogFormat`
-/

namespace PassGraph

/-- How messages for the log are written. -/
inductive LogFormat where
  | text
  | json
  deriving DecidableEq, Repr, Inhabited

namespace LogFormat

/-- The name of a format. -/
def name : LogFormat → String
  | text => "text"
  | json => "json"

/-- The format of a name. -/
def named? (s : String) : Option LogFormat :=
  [text, json].find? fun f => f.name = s

/-- The format that an environment asks for. It is text unless the word is `json` in letters of any
case. -/
def ofEnvironment (word : String) : LogFormat :=
  if word.toList.map Char.toLower = json.name.toList then json else text

end LogFormat

/-- What a user may set. -/
structure Settings where
  /-- The number of cliques that may be folded. -/
  maxIterations : Nat := Graph.defaultLimit
  /-- Whether documents are written with annotations. -/
  includeAnnotations : Bool := true
  /-- How messages for the log are written. -/
  logFormat : LogFormat := .text
  /-- Whether documents are written in the pretty layout. -/
  pretty : Bool := true
  deriving DecidableEq, Repr, Inhabited

namespace Settings

/-- A number that fits 64 bits. -/
def natOf : Toml.Item → Option Nat
  | .whole n => if 0 ≤ n ∧ n < UInt64.size then some n.toNat else none
  | _ => none

/-- A truth value. -/
def boolOf : Toml.Item → Option Bool
  | .truth b => some b
  | _ => none

/-- A log format: its name, or a table in which only its name stands and leads to nothing. -/
def logFormatOf : Toml.Item → Option LogFormat
  | .text s => LogFormat.named? s
  | .table _ [(k, .emptyList)] => LogFormat.named? k
  | .table _ [(k, .table _ [])] => LogFormat.named? k
  | _ => none

/-- Set one thing. -/
def set (s : Settings) (entry : String × Toml.Item) : Option Settings :=
  match entry.1 with
  | "max_iterations" => (natOf entry.2).map fun maxIterations => { s with maxIterations }
  | "include_annotations" =>
    (boolOf entry.2).map fun includeAnnotations => { s with includeAnnotations }
  | "log_format" => (logFormatOf entry.2).map fun logFormat => { s with logFormat }
  | "pretty" => (boolOf entry.2).map fun pretty => { s with pretty }
  | _ => none

/-- The settings of a text. -/
def parse (text : String) : Except Fault Settings :=
  match (Toml.parse text).bind fun es => es.foldlM set {} with
  | some s => .ok s
  | none => .error .badSettings

/-- How messages for the log are written when an environment may ask for a format. -/
def effectiveLogFormat (s : Settings) (environment : Option String) : LogFormat :=
  (environment.map LogFormat.ofEnvironment).getD s.logFormat

end Settings

end PassGraph
