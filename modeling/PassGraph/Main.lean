import PassGraph.Command.Arguments
import PassGraph.Command.Run

/-!
# The program

The machine as a host, and the command line. A fault is told on the error stream. Arguments that ask
for nothing that can be done end the program with code 2, any other fault with code 1.

## Main definitions

* `Machine.host` — the machine as a host
* `main`
-/

namespace PassGraph

namespace Machine

/-- What is wrong with a file, as the machine tells it. -/
def faultOf : IO.Error → FileFault
  | .noFileOrDirectory .. => .missing
  | .inappropriateType _ 20 _ => .noDirectory
  | .inappropriateType _ 21 _ => .isDirectory
  | .invalidArgument _ 36 _ => .nameTooLong
  | e => .other (toString e)

/-- The result of an operation, or what is wrong with the file. -/
def attempt {α : Type} (operation : IO α) : IO (Except FileFault α) := do
  match ← operation.toBaseIO with
  | .ok a => return .ok a
  | .error e => return .error (faultOf e)

/-- The bytes at the end of a path. -/
def bytes (path : String) : IO ByteArray :=
  IO.FS.withFile path .read fun h => h.readBinToEnd

/-- What is at the end of a path. A directory is what refuses to be read because it is one. -/
def look (path : String) : IO (Except FileFault Files.Found) := do
  match ← attempt (bytes path) with
  | .ok found => return .ok (.file found.size)
  | .error .isDirectory => return .ok .directory
  | .error f => return .error f

/-- The text at the end of a path. -/
def read (path : String) : IO (Except FileFault String) := do
  match ← attempt (bytes path) with
  | .ok found =>
    match String.fromUTF8? found with
    | some text => return .ok text
    | none => return .error .noText
  | .error f => return .error f

instance host : Host IO where
  look := look
  read := read
  write path text := attempt (IO.FS.writeFile path text)
  print text := IO.print text

end Machine

/-- The name of the program and its version. -/
def versionLine : String :=
  "ihgraph 0.4.0"

/-- How the program is called. -/
def usage : String :=
  "Usage: ihgraph [OPTIONS] <COMMAND>\n\nCommands:\n"
    ++ Report.ofLines (Task.all.map fun t => "  " ++ t.name)
    ++ "\nEvery command takes its document with --file <FILE>."

/-- Why arguments ask for nothing, in words. -/
def UsageFault.message : UsageFault → String
  | help => usage
  | version => versionLine
  | nothing => usage
  | noCommand => "a command is missing"
  | unknownCommand => "no such command"
  | noFile => "--file <FILE> is missing"
  | unknownArgument => "unexpected argument"
  | noValue => "a value is missing"
  | noNumber => "a value is not a whole number that fits 64 bits"
  | repeated => "an argument is given twice"
  | needlessValue => "a value is given to an argument that takes none"

/-- Whether arguments ask for something to be told. -/
def UsageFault.isAnswer : UsageFault → Bool
  | help | version => true
  | _ => false

end PassGraph

open PassGraph in
/-- Run the program. -/
def main (arguments : List String) : IO UInt32 := do
  match Invocation.ofArguments arguments with
  | .error f =>
    if f.isAnswer then
      IO.println f.message
      return 0
    IO.eprintln ("error: " ++ f.message)
    return 2
  | .ok i =>
    match ← (i.run : Run IO Unit).run with
    | .ok () => return 0
    | .error f =>
      IO.eprintln ("Error: " ++ f.message)
      return 1
