/-!
# Commands

What can be asked of the program on its command line.

## Main definitions

* `Command` — one thing to do with the graph of a file
* `Invocation` — a command with what holds for every command
-/

namespace PassGraph

/-- One thing to do with the graph of a file. -/
inductive Command where
  /-- Show counts, and the outline if asked. -/
  | inspect (file : String) (outline : Bool)
  /-- Show the next clique, or the immediate ones. -/
  | cliques (file : String) (immediate : Bool)
  /-- Fold the cliques and show the hierarchy. -/
  | induce (file : String) (output : Option String) (limit : Option Nat)
  /-- Fold the cliques, flatten the hierarchy, and compare. -/
  | flattenCheck (file : String) (limit : Option Nat)
  /-- Write the document of the graph. -/
  | roundtrip (file : String) (output : Option String) (annotated compact : Bool)
  deriving DecidableEq, Repr

/-- A command with what holds for every command. -/
structure Invocation where
  /-- The command. -/
  command : Command
  /-- Whether the log tells more. -/
  verbose : Bool := false
  /-- Whether the log tells less. -/
  quiet : Bool := false
  /-- The path of the settings. -/
  settings : Option String := none
  /-- Whether a command answers with a JSON value. -/
  json : Bool := false
  deriving DecidableEq, Repr

end PassGraph
