import PassGraph.Element
import PassGraph.Json.Fault

/-!
# What can go wrong

One type holds every way in which an operation can fail, named by its cause. The wording is in one
place, `Fault.message`.

## Main definitions

* `ElementKind` — what was looked for
* `Fault`, `Fault.message`
-/

namespace PassGraph

/-- What was looked for. -/
inductive ElementKind where
  | node
  | level
  | edge
  | edgeType
  deriving DecidableEq, Repr

/-- The name of a kind. -/
def ElementKind.name : ElementKind → String
  | node => "node"
  | level => "graph level"
  | edge => "edge"
  | edgeType => "edge type"

/-- A reference in an edge record. -/
inductive Reference where
  | source
  | target
  | type
  deriving DecidableEq, Repr

/-- The name of a reference. -/
def Reference.name : Reference → String
  | source => "source node"
  | target => "target node"
  | type => "edge type"

/-- What is wrong with a file. -/
inductive FileFault where
  | missing
  | noDirectory
  | isDirectory
  | noText
  /-- A name, or a path that is asked for as a whole, has too many bytes. -/
  | nameTooLong
  /-- A path holds the character zero, which cannot be asked for. -/
  | zeroCharacter
  /-- Something else, in the words of the machine. -/
  | other (words : String)
  deriving DecidableEq, Repr

/-- A file fault in words. -/
def FileFault.message : FileFault → String
  | missing => "No such file or directory (os error 2)"
  | noDirectory => "Not a directory (os error 20)"
  | isDirectory => "Is a directory (os error 21)"
  | noText => "stream did not contain valid UTF-8"
  | nameTooLong => "File name too long (os error 36)"
  | zeroCharacter => "file name contained an unexpected NUL byte"
  | other words => words

/-- What something that is too large is. -/
inductive Sized where
  | input
  | file
  | settings
  deriving DecidableEq, Repr

/-- The name of something that is too large. -/
def Sized.name : Sized → String
  | input => "Input"
  | file => "File"
  | settings => "Config"

/-- Why an operation failed. -/
inductive Fault where
  /-- A priority was asked for where there is no edge. -/
  | noEdges
  /-- No element of that name. -/
  | unnamed (kind : ElementKind) (identifier : String)
  /-- No element behind that handle. -/
  | stale (kind : ElementKind) (index : Nat)
  /-- A copy met an edge that ends on another level. -/
  | leavesLevel (edge : EdgeTriple) (level : String)
  /-- The cliques were not all folded within the limit. -/
  | nonConvergent (limit : Nat)
  /-- An edge record refers to something that is not there. -/
  | dangling (reference : Reference) (identifier : String)
  /-- The root was to be removed. -/
  | removesRoot
  /-- An edge was to join nodes of different levels. -/
  | notSiblings
  /-- An edge was to get a type of another level. -/
  | foreignType
  /-- The root was to seed a clique. -/
  | rootSeed
  /-- Flattening did not give back the input. -/
  | differs (count : Nat)
  /-- A document that does not read. -/
  | unreadable (fault : Json.Fault)
  /-- Settings that do not read. -/
  | badSettings
  /-- Something of more bytes than allowed. -/
  | tooLarge (what : Sized) (bytes limit : Nat)
  /-- An input path that leads nowhere. -/
  | badInputPath (path : String) (fault : FileFault)
  /-- An input path that leads to something that is no file. -/
  | noFile (path : String)
  /-- An input file that cannot be read. -/
  | inputFile (fault : FileFault)
  /-- An output path in no directory. -/
  | badOutputPath (path : String) (fault : FileFault)
  /-- An output path in something that is no directory. -/
  | noOutputDirectory (path : String)
  /-- An output path without the name of a file. -/
  | noFileName
  /-- An output file that cannot be written. -/
  | outputFile (fault : FileFault)
  /-- A settings file that cannot be read. -/
  | settingsFile (path : String) (fault : FileFault)
  deriving DecidableEq, Repr

namespace Fault

/-- What an error of a reader, a limit or the settings starts with. -/
def serialization (words : String) : String :=
  "Serialization error: " ++ words

/-- What an error of a file starts with. -/
def io (words : String) : String :=
  "I/O error: " ++ words

/-- A fault in words. -/
def message : Fault → String
  | noEdges => "graph has no edges"
  | unnamed kind identifier => kind.name ++ " not found: " ++ identifier
  | stale kind index => kind.name ++ " not found: handle " ++ toString index
  | leavesLevel edge level =>
    "corrupted mapping: edge " ++ edge.text ++ " leaves level " ++ level
  | nonConvergent limit =>
    "induction did not converge within " ++ toString limit ++ " iterations"
  | dangling reference identifier =>
    "malformed input: " ++ reference.name ++ " with identifier '" ++ identifier
      ++ "' does not exist"
  | removesRoot => "invalid operation: the root level cannot be removed"
  | notSiblings => "invalid operation: edge endpoints must be siblings of one level"
  | foreignType => "invalid operation: edge type does not belong to the level of the edge"
  | rootSeed => "invalid operation: the root level cannot seed a clique"
  | differs count =>
    "invalid operation: " ++ toString count ++ " structural differences after flattening"
  | unreadable fault => serialization fault.message
  | badSettings => serialization "Invalid config"
  | tooLarge what bytes limit =>
    serialization (what.name ++ " size " ++ toString bytes ++ " bytes exceeds maximum allowed "
      ++ toString limit ++ " bytes")
  | badInputPath path fault => io ("Invalid file path '" ++ path ++ "': " ++ fault.message)
  | noFile path => io ("Path '" ++ path ++ "' is not a regular file")
  | inputFile fault => io ("Read file: " ++ fault.message)
  | badOutputPath path fault =>
    io ("Invalid output directory '" ++ path ++ "': " ++ fault.message)
  | noOutputDirectory path => io ("Output directory '" ++ path ++ "' is not a valid directory")
  | noFileName => io "Output path has no filename"
  | outputFile fault => io ("Write file: " ++ fault.message)
  | settingsFile path fault => io ("Cannot read config '" ++ path ++ "': " ++ fault.message)

end Fault

end PassGraph
