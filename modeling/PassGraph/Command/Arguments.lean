import PassGraph.Command.Basic

/-!
# Command line arguments

Arguments come in two parts. The first part holds switches for every command and ends at the name of
a command; the second part holds the switches of that command and, again, those for every command. A
switch given in both parts counts in the second one.

A value that follows its switch as an argument of its own is looked at only when the next switch is
taken up, or when its part is over. So `Given` holds at most one switch that is pending, and which
of two faults is reported follows from that.

## Main definitions

* `Switch`, `Task` — what may be given
* `Argument.ofText` — the shapes of an argument
* `Given`, `Given.settle`, `Given.read` — the switches of a part
* `UsageFault` — why arguments ask for nothing that can be done
* `Invocation.ofArguments`
-/

namespace PassGraph

/-! ### What may be given -/

/-- A switch. -/
inductive Switch where
  | verbose
  | quiet
  | settings
  | json
  | file
  | outline
  | immediate
  | output
  | limit
  | bare
  | compact
  | help
  | version
  deriving DecidableEq, Repr

/-- What a switch takes. -/
inductive Operand where
  | nothing
  | path
  | number
  deriving DecidableEq, Repr

namespace Switch

/-- The word of a switch, which two dashes precede. -/
def word : Switch → String
  | verbose => "verbose"
  | quiet => "quiet"
  | settings => "config"
  | json => "json-mode"
  | file => "file"
  | outline => "tree"
  | immediate => "immediate"
  | output => "output"
  | limit => "max-iterations"
  | bare => "no-annotations"
  | compact => "compact"
  | help => "help"
  | version => "version"

/-- The letter of a switch, which one dash precedes. -/
def letter? : Switch → Option Char
  | verbose => some 'v'
  | quiet => some 'q'
  | settings => some 'c'
  | file => some 'f'
  | outline => some 't'
  | immediate => some 'i'
  | output => some 'o'
  | limit => some 'm'
  | help => some 'h'
  | version => some 'V'
  | json | bare | compact => none

/-- What a switch takes. -/
def operand : Switch → Operand
  | settings | file | output => .path
  | limit => .number
  | _ => .nothing

/-- The switches for every command. -/
def common : List Switch :=
  [verbose, quiet, settings, json, help]

end Switch

/-- A command by its name alone. -/
inductive Task where
  | inspect
  | cliques
  | induce
  | flattenCheck
  | roundtrip
  deriving DecidableEq, Repr

namespace Task

/-- All tasks. -/
def all : List Task :=
  [inspect, cliques, induce, flattenCheck, roundtrip]

/-- The name of a task. -/
def name : Task → String
  | inspect => "inspect"
  | cliques => "cliques"
  | induce => "induce"
  | flattenCheck => "flatten-check"
  | roundtrip => "roundtrip"

/-- The task of a name. -/
def named? (s : String) : Option Task :=
  all.find? fun t => t.name = s

/-- The switches of a task. -/
def switches : Task → List Switch
  | inspect => [.file, .outline]
  | cliques => [.file, .immediate]
  | induce => [.file, .output, .limit]
  | flattenCheck => [.file, .limit]
  | roundtrip => [.file, .output, .bare, .compact]

end Task

/-- The word that asks for help in the place of a command. -/
def helpWord : String :=
  "help"

/-- What may be given in a part. -/
structure Grammar where
  /-- The switches. -/
  switches : List Switch
  /-- The words that end the part. -/
  stops : List String

namespace Grammar

/-- The grammar of the first part. -/
def opening : Grammar :=
  ⟨Switch.common ++ [.version], helpWord :: Task.all.map Task.name⟩

/-- The grammar of the part of a task. -/
def ofTask (t : Task) : Grammar :=
  ⟨Switch.common ++ t.switches, []⟩

end Grammar

/-! ### Faults -/

/-- Why arguments ask for nothing that can be done. Asking for help is one of the reasons. -/
inductive UsageFault where
  /-- Help was asked for. -/
  | help
  /-- The version was asked for. -/
  | version
  /-- There are no arguments. -/
  | nothing
  /-- There are switches, but no command. -/
  | noCommand
  /-- No command has that name. -/
  | unknownCommand
  /-- No file was given. -/
  | noFile
  /-- No switch of the part, or a word where there is no place for one. -/
  | unknownArgument
  /-- A switch lacks its value, or has an empty path. -/
  | noValue
  /-- A number was to be given. -/
  | noNumber
  /-- A switch was given twice in a part. -/
  | repeated
  /-- A value was tied to a switch that takes none. -/
  | needlessValue
  deriving DecidableEq, Repr

/-- What is wrong with a word for which there is no place. -/
def Grammar.stray (k : Grammar) : UsageFault :=
  if k.stops.isEmpty then .unknownArgument else .unknownCommand

/-! ### Values -/

/-- A number that fits 64 bits. A plus may precede it. -/
def limit? (s : String) : Option Nat :=
  let digits := match s.toList with
    | '+' :: cs => cs
    | cs => cs
  if digits.isEmpty ∨ !digits.all Char.isDigit then none
  else
    let n := digits.foldl (fun n c => n * 10 + (c.toNat - '0'.toNat)) 0
    if n < UInt64.size then some n else none

/-- What is wrong with a value of a switch. -/
def Switch.objection? (s : Switch) (value : String) : Option UsageFault :=
  match s.operand with
  | .nothing => none
  | .path => if value = "" then some .noValue else none
  | .number => if (limit? value).isNone then some .noNumber else none

/-! ### The shapes of an argument -/

/-- An argument. -/
inductive Argument where
  /-- Two dashes: what follows are no switches. -/
  | separator
  /-- The word of a switch, with the value that an equals sign ties to it. -/
  | word (name : String) (value : Option String)
  /-- Letters of switches, of which the last one may have a value tied to it. -/
  | letters (letters : List Char)
  /-- Anything else. -/
  | plain (text : String)
  deriving DecidableEq, Repr

/-- The shape of an argument. A dash alone is nothing special. -/
def Argument.ofText (s : String) : Argument :=
  match s.toList with
  | ['-', '-'] => .separator
  | '-' :: '-' :: cs =>
    let value := match cs.dropWhile (· ≠ '=') with
      | [] => none
      | _ :: value => some (String.ofList value)
    .word (String.ofList (cs.takeWhile (· ≠ '='))) value
  | '-' :: c :: cs => .letters (c :: cs)
  | _ => .plain s

/-! ### The switches of a part -/

/-- The switches given so far in a part. -/
structure Given where
  /-- The switches that were looked at, with their values. -/
  settled : List (Switch × String) := []
  /-- The switch to be looked at next, with its value if there is one yet. -/
  pending : Option (Switch × Option String) := none
  deriving Repr

namespace Given

/-- The value of a switch. -/
def value? (g : Given) (s : Switch) : Option String :=
  g.settled.lookup s

/-- Whether a switch was given. -/
def has (g : Given) (s : Switch) : Bool :=
  (g.value? s).isSome

/-- Whether the next argument is the value of a switch, unless it has the shape of one. -/
def awaited? (g : Given) : Option Switch :=
  match g.pending with
  | some (s, none) => some s
  | _ => none

/-- Take up a switch with its value. -/
def take (g : Given) (s : Switch) (value : String) : Except UsageFault Given :=
  if g.has s then .error .repeated
  else
    match s.objection? value with
    | some f => .error f
    | none => .ok { g with settled := g.settled ++ [(s, value)] }

/-- Look at the switch that is pending. -/
def settle (g : Given) : Except UsageFault Given :=
  match g.pending with
  | none => .ok g
  | some (_, none) => .error .noValue
  | some (s, some value) => { g with pending := none }.take s value

/-- Take up a switch, with the value that is tied to it. -/
def turn (g : Given) (s : Switch) (tied : Option String) : Except UsageFault Given := do
  let g ← g.settle
  match s, tied with
  | .help, _ => throw .help
  | .version, _ => throw .version
  | s, some value => g.take s value
  | s, none =>
    if s.operand = .nothing then g.take s "" else return { g with pending := some (s, none) }

/-- Take up letters. The rest after a switch that takes a value is its value. -/
def turnLetters (k : Grammar) : Given → List Char → Except UsageFault Given
  | g, [] => .ok g
  | g, c :: cs =>
    match k.switches.find? fun s => s.letter? = some c with
    | none => .error .unknownArgument
    | some s =>
      if s.operand = .nothing then do turnLetters k (← g.turn s none) cs
      else
        match cs with
        | [] => g.turn s none
        | '=' :: value => g.turn s (some (String.ofList value))
        | value => g.turn s (some (String.ofList value))

/-- Take up a word. -/
def turnWord (k : Grammar) (g : Given) (name : String) (tied : Option String) :
    Except UsageFault Given :=
  match k.switches.find? fun s => s.word = name with
  | none => .error .unknownArgument
  | some s =>
    if s.operand = .nothing ∧ tied.isSome then .error .needlessValue else g.turn s tied

/-- Take up the arguments of a part, up to a word that ends it. -/
def read (k : Grammar) : Given → List String → Except UsageFault (Given × List String)
  | g, [] => .ok (g, [])
  | g, a :: rest =>
    if g.awaited?.isNone ∧ a ∈ k.stops then .ok (g, a :: rest)
    else
      match Argument.ofText a with
      | .separator =>
        match rest with
        | [] => .ok (g, [])
        | b :: _ => .error (if b ∈ k.stops then .unknownArgument else k.stray)
      | .word name tied => do read k (← g.turnWord k name tied) rest
      | .letters cs => do read k (← g.turnLetters k cs) rest
      | .plain text =>
        match g.awaited? with
        | some s => read k { g with pending := some (s, some text) } rest
        | none => .error k.stray

/-- The command of a task. -/
def command (g : Given) (file : String) : Task → Command
  | .inspect => .inspect file (g.has .outline)
  | .cliques => .cliques file (g.has .immediate)
  | .induce => .induce file (g.value? .output) ((g.value? .limit).bind limit?)
  | .flattenCheck => .flattenCheck file ((g.value? .limit).bind limit?)
  | .roundtrip => .roundtrip file (g.value? .output) (!g.has .bare) (g.has .compact)

end Given

/-! ### All arguments -/

/-- What the words after the one that asks for help come to: at most one, the name of a command. -/
def helpOn : List String → UsageFault
  | [] => .help
  | [name] => if name ∈ Grammar.opening.stops then .help else .unknownCommand
  | _ => .unknownCommand

/-- What the arguments ask for. -/
def Invocation.ofArguments (arguments : List String) : Except UsageFault Invocation := do
  let (first, rest) ← Given.read .opening {} arguments
  match rest with
  | [] =>
    let first ← first.settle
    throw (if first.settled.isEmpty then .nothing else .noCommand)
  | name :: rest =>
    if name = helpWord then throw (helpOn rest)
    let some task := Task.named? name | throw .unknownCommand
    let (own, _) ← Given.read (.ofTask task) {} rest
    let own ← own.settle
    let some file := own.value? .file | throw .noFile
    let first ← first.settle
    let has (s : Switch) : Bool := first.has s || own.has s
    return {
      command := own.command file task
      verbose := has .verbose
      quiet := has .quiet
      settings := own.value? .settings <|> first.value? .settings
      json := has .json }

end PassGraph
