import PassGraph.Command.Basic
import PassGraph.Command.Report
import PassGraph.Files.Host
import PassGraph.Hierarchy.Flatten
import PassGraph.Record.Json
import PassGraph.Settings

/-!
# Running commands

An invocation is run in two steps: the settings are loaded, and the command is run with them. A
command loads the graph of its file and answers with a report or a document. The first fault ends
the run; what was printed before it stays printed.

## Main definitions

* `Run` — what happens on a host, unless a fault ends it
* `Run.settings`, `Run.graph`, `Run.emit` — settings, graphs and answers
* `Command.run`, `Invocation.run`
-/

namespace PassGraph

/-- What happens on a host, unless a fault ends it. -/
abbrev Run (m : Type → Type) := ExceptT Fault m

namespace Run

variable {m : Type → Type} [Monad m] [Host m]

/-- The result, or else the fault that a file fault comes to. -/
def orFault {α : Type} (fault : FileFault → Fault) (r : Except FileFault α) : Run m α :=
  match r with
  | .ok a => pure a
  | .error f => throw (fault f)

/-- What is at a path. -/
def look (path : String) (fault : FileFault → Fault) : Run m Files.Found := do
  orFault fault (← ExceptT.lift (Host.look path))

/-- The text at a path. -/
def read (path : String) (fault : FileFault → Fault) : Run m String := do
  orFault fault (← ExceptT.lift (Host.read path))

/-- Print a text. -/
def print (text : String) : Run m Unit :=
  ExceptT.lift (Host.print text)

/-- Print a value. -/
def printJson (v : Json) : Run m Unit :=
  print (Report.ofJson v)

/-! ### Settings -/

/-- The path of the settings where none is given. -/
def settingsPath : String :=
  "ihgraph.toml"

/-- The largest number of bytes that settings may have. -/
def settingsLimit : Nat := 1024 * 1024

/-- The settings at a path, which is asked for as a whole. -/
def settingsAt (path : String) : Run m Settings := do
  let fault := Fault.settingsFile path
  orFault fault (Files.checkWhole path)
  if let .file bytes ← look path fault then
    if settingsLimit < bytes then throw (.tooLarge .settings bytes settingsLimit)
  ExceptT.mk (pure (Settings.parse (← read path fault)))

/-- The settings at a path. Where none is given, the usual path is taken if a file is there. -/
def settings (path? : Option String) : Run m Settings := do
  match path? with
  | some path => settingsAt path
  | none =>
    match ← ExceptT.lift (Host.look settingsPath) with
    | .ok (.file _) => settingsAt settingsPath
    | _ => return {}

/-! ### Graphs -/

/-- The graph of the document at a path. -/
def graph (path : String) : Run m Graph := do
  match ← look path (.badInputPath path) with
  | .file bytes =>
    if documentLimit < bytes then throw (.tooLarge .file bytes documentLimit)
    ExceptT.mk (pure (Graph.ofText (← read path .inputFile)))
  | .directory | .device => throw (.noFile path)

/-! ### Answers -/

/-- Have a text at a path, in a directory that exists. -/
def save (path text : String) : Run m Unit := do
  let directory := Path.directory path
  match ← look directory (.badOutputPath directory) with
  | .directory => pure ()
  | .file _ | .device => throw (.noOutputDirectory directory)
  let some name := Path.fileName? path | throw .noFileName
  orFault .outputFile (← ExceptT.lift (Host.write (Path.inside directory name) text))

/-- Have a text at a path, or else print it. -/
def emit (text : String) (output : Option String) : Run m Unit :=
  match output with
  | some path => save path text
  | none => print text

end Run

/-! ### Commands -/

variable {m : Type → Type} [Monad m] [Host m]

open Run in
/-- Run a command. A hierarchy is not saved anywhere if it is shown as a value, and a document is a
JSON text anyway. -/
def Command.run (s : Settings) (json : Bool) : Command → Run m Unit
  | .inspect file outline => do
    let g ← graph file
    if json then printJson (Report.inspectionJson g)
    else print (Report.inspection g file outline)
  | .cliques file immediate => do
    let g ← graph file
    let ss ← ExceptT.mk (pure (g.summaries immediate))
    if json then printJson (Report.cliquesJson ss) else print (Report.cliques ss)
  | .induce file output limit => do
    let g ← graph file
    let h ← ExceptT.mk (pure (g.induceWithin (limit.getD s.maxIterations)))
    if json then printJson (Report.hierarchyJson h) else emit h.outline output
  | .flattenCheck file limit => do
    let g ← graph file
    let h ← ExceptT.mk (pure (g.induceWithin (limit.getD s.maxIterations)))
    let flat ← ExceptT.mk (pure h.flatten)
    let ds := flat.differences g
    if json then printJson (Report.comparisonJson ds) else print (Report.comparison ds)
    if !ds.isEmpty then throw (.differs ds.length)
  | .roundtrip file output annotated compact => do
    let g ← graph file
    let layout := if s.pretty && !compact then Json.Layout.pretty else .compact
    emit (g.toFileText (s.includeAnnotations && annotated) layout) output

/-- Run an invocation. -/
def Invocation.run (i : Invocation) : Run m Unit := do
  let s ← Run.settings i.settings
  i.command.run s i.json

end PassGraph
