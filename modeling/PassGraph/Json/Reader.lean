import PassGraph.Json.Token

/-!
# Reading tokens

A reader takes a value of a wanted shape off the front of a list of tokens. It is told how many
containers may still be opened, so that a document cannot nest without bound, and it either returns
the value with the tokens after it or the first fault.

A record may be written as an object or as the array of its fields in their declared order. What was
read of it is a *draft*, in which each field may be missing; only a complete draft becomes a record.

Members that nobody asked for are skipped. Skipping checks the outline and knows no depth limit.

## Main definitions

* `Json.Reader` — tokens and room to a value and the tokens after it
* `Reader.array`, `Reader.object`, `Reader.record` — containers
* `Reader.value` — any value
* `Reader.skip` — any value, not kept
* `Reader.run`, `Json.parse` — a whole document
-/

namespace PassGraph.Json

/-- Takes a value off the front of the tokens. The number says how many containers may be opened
inside each other. -/
abbrev Reader (α : Type) := Nat → List Token → Except Fault (α × List Token)

namespace Reader

/-! ### Scalars -/

/-- The fault of a value that is not of the kind wanted. A value that is misspelled is that first.
-/
def mismatch (wanted : String) : List Token → Fault
  | [] => .endInValue
  | .null spelled :: _ => orMisspelled spelled fun _ => .null
  | .bool b spelled :: _ => orMisspelled spelled fun _ => .bool b
  | .number kept _ :: _ => orMisspelled kept .number
  | .string kept _ :: _ => orMisspelled kept .string
  | .openArray :: _ => .wrongType .sequence wanted
  | .openObject :: _ => .wrongType .map wanted
  | _ :: _ => .noValue
where
  /-- The fault in a spelling, or else the fault of its kind. -/
  orMisspelled {α : Type} (spelled : Except Fault α) (found : α → Found) : Fault :=
    match spelled with
    | .error f => f
    | .ok a => .wrongType (found a) wanted

/-- A string. -/
def string : Reader String
  | _, .string kept _ :: rest => kept.map fun s => (s, rest)
  | _, ts => .error (mismatch "a string" ts)

/-- A truth value. -/
def bool : Reader Bool
  | _, .bool b spelled :: rest => spelled.map fun _ => (b, rest)
  | _, ts => .error (mismatch "a boolean" ts)

/-- A whole number of 64 bits with sign. -/
def int64 : Reader Int
  | _, .number (.ok (.int n)) _ :: rest =>
    if Numeral.int64Min ≤ n ∧ n ≤ Numeral.int64Max then .ok (n, rest)
    else .error (.wrongRange n "i64")
  | _, ts => .error (mismatch "i64" ts)

/-- Nothing at all, or a value. -/
def optional {α : Type} (value : Reader α) : Reader (Option α)
  | _, .null spelled :: rest => spelled.map fun _ => (none, rest)
  | room, ts => (value room ts).map fun (a, rest) => (some a, rest)

/-! ### Arrays -/

/-- Where the next item of an array starts; nothing if the array ends instead. -/
def nextItem? (first : Bool) : List Token → Except Fault (Option (List Token))
  | [] => .error .endInList
  | .closeArray :: _ => .ok none
  | t :: rest =>
    if first then .ok (some (t :: rest))
    else match t, rest with
      | .comma, [] => .error .endInValue
      | .comma, .closeArray :: _ => .error .trailingComma
      | .comma, rest => .ok (some rest)
      | _, _ => .error .noListEnd

/-- The items of an array and the tokens after its end. The number bounds the items. -/
def items {α : Type} (item : List Token → Except Fault (α × List Token)) :
    Nat → Bool → List Token → Except Fault (List α × List Token)
  | 0, _, _ => .error .endInList
  | n + 1, first, ts => do
    match ← nextItem? first ts with
    | none => return ([], ts.tail)
    | some ts =>
      let (x, ts) ← item ts
      let (xs, ts) ← items item n false ts
      return (x :: xs, ts)

/-- An array of values of one shape. -/
def array {α : Type} (item : Reader α) : Reader (List α)
  | 0, .openArray :: _ => .error .tooDeep
  | room + 1, .openArray :: rest => items (item room) (rest.length + 1) true rest
  | _, ts => .error (mismatch "a sequence" ts)

/-! ### Objects -/

/-- The next key of an object and the tokens after it; nothing if the object ends instead. -/
def nextKey? (first : Bool) : List Token → Except Fault (Option (String × List Token))
  | [] => .error .endInObject
  | .closeObject :: _ => .ok none
  | t :: rest =>
    if first then key (t :: rest)
    else match t, rest with
      | .comma, [] => .error .endInValue
      | .comma, .closeObject :: _ => .error .trailingComma
      | .comma, rest => key rest
      | _, _ => .error .noObjectEnd
where
  /-- A key and the tokens after it. -/
  key : List Token → Except Fault (Option (String × List Token))
    | .string kept _ :: rest => kept.map fun k => some (k, rest)
    | _ => .error .keyNoString

/-- Go past a colon. -/
def colon : List Token → Except Fault (List Token)
  | [] => .error .endInObject
  | .colon :: rest => .ok rest
  | _ :: _ => .error .noColon

/-- A value after a colon. -/
def afterColon {α : Type} (value : List Token → Except Fault (α × List Token)) (ts : List Token) :
    Except Fault (α × List Token) := do
  value (← colon ts)

/-- Take up the members of an object one by one, and return the tokens after its end. A member is
taken up by its key, in front of the colon. The number bounds the members. -/
def members {σ : Type} (member : σ → String → List Token → Except Fault (σ × List Token)) :
    Nat → Bool → σ → List Token → Except Fault (σ × List Token)
  | 0, _, _, _ => .error .endInObject
  | n + 1, first, s, ts => do
    match ← nextKey? first ts with
    | none => return (s, ts.tail)
    | some (k, ts) =>
      let (s, ts) ← member s k ts
      members member n false s ts

/-- An object whose members all have values of one shape. -/
def object {α : Type} (value : Reader α) : Reader (List (String × α))
  | 0, .openObject :: _ => .error .tooDeep
  | room + 1, .openObject :: rest =>
    (members (entry room) (rest.length + 1) true [] rest).map fun (ms, rest) => (ms.reverse, rest)
  | _, ts => .error (mismatch "a map" ts)
where
  /-- Take up one member. -/
  entry (room : Nat) (done : List (String × α)) (k : String) (ts : List Token) :
      Except Fault (List (String × α) × List Token) := do
    let (v, ts) ← afterColon (value room) ts
    return ((k, v) :: done, ts)

/-! ### Any value -/

/-- Any value. A repeated key keeps its first place and takes its last value. -/
def value : Reader Json
  | _, [] => .error .endInValue
  | _, .null spelled :: rest => spelled.map fun _ => (.null, rest)
  | _, .bool b spelled :: rest => spelled.map fun _ => (.bool b, rest)
  | _, .number kept _ :: rest => kept.map fun n => (.number n, rest)
  | _, .string kept _ :: rest => kept.map fun s => (.string s, rest)
  | 0, .openArray :: _ | 0, .openObject :: _ => .error .tooDeep
  | room + 1, .openArray :: rest =>
    (array (fun _ => value room) (room + 1) (.openArray :: rest)).map fun (xs, rest) =>
      (.array xs, rest)
  | room + 1, .openObject :: rest =>
    (object (fun _ => value room) (room + 1) (.openObject :: rest)).map fun (ms, rest) =>
      (ofMembers ms, rest)
  | _, _ :: _ => .error .noValue

/-! ### Skipping -/

/-- A container that is being skipped. -/
inductive Frame where
  | array
  | object
  deriving DecidableEq, Repr

/-- What has to follow while skipping. -/
inductive Want where
  /-- A value. -/
  | value
  /-- The first item of an array, or its end. -/
  | firstItem
  /-- A key. -/
  | key
  /-- The first key of an object, or its end. -/
  | firstKey
  /-- A colon. -/
  | colon
  /-- A comma, or the end of the innermost container. -/
  | next
  deriving DecidableEq, Repr

/-- The fault of a text that ends while skipping. -/
def Want.atEnd : Want → List Frame → Fault
  | .value, _ => .endInValue
  | .firstItem, _ => .endInList
  | .next, .array :: _ => .endInList
  | _, _ => .endInObject

/-- Skip what is wanted and then all containers that are open, and return the tokens after them. -/
def skipFrom : Want → List Frame → List Token → Except Fault (List Token)
  | want, open_, [] => .error (want.atEnd open_)
  | want, open_, t :: rest =>
    -- What comes after a value or a container.
    let done (open_ : List Frame) : Except Fault (List Token) :=
      if open_.isEmpty then .ok rest else skipFrom .next open_ rest
    match want, open_, t with
    | .colon, _, .colon => skipFrom .value open_ rest
    | .colon, _, _ => .error .noColon
    | .firstKey, _ :: outer, .closeObject => done outer
    | .firstKey, _, .string _ skipped | .key, _, .string _ skipped => do
      skipped
      skipFrom .colon open_ rest
    | .firstKey, _, _ | .key, _, _ => .error .keyNoString
    | .next, .array :: _, .comma => skipFrom .value open_ rest
    | .next, .array :: outer, .closeArray => done outer
    | .next, .object :: _, .comma => skipFrom .key open_ rest
    | .next, .object :: outer, .closeObject => done outer
    | .next, .array :: _, _ => .error .noListEnd
    | .next, _, _ => .error .noObjectEnd
    | .firstItem, _ :: outer, .closeArray => done outer
    | _, _, .null spelled | _, _, .bool _ spelled => do
      spelled
      done open_
    | _, _, .number _ skipped | _, _, .string _ skipped => do
      skipped
      done open_
    | _, _, .openArray => skipFrom .firstItem (.array :: open_) rest
    | _, _, .openObject => skipFrom .firstKey (.object :: open_) rest
    | _, _, _ => .error .noValue

/-- Skip a value. -/
def skip (ts : List Token) : Except Fault (List Token) :=
  skipFrom .value [] ts

/-! ### Records and variants -/

/-- The next field of a record that is written as an array; nothing if the array ends instead. -/
def slot {α : Type} (first : Bool) (item : List Token → Except Fault (α × List Token))
    (ts : List Token) : Except Fault (Option α × List Token) := do
  match ← nextItem? first ts with
  | none => return (none, ts)
  | some ts =>
    let (x, ts) ← item ts
    return (some x, ts)

/-- The end of a record that is written as an array. -/
def endOfSlots : List Token → Except Fault (List Token)
  | [] => .error .endInList
  | .closeArray :: rest => .ok rest
  | .comma :: .closeArray :: _ => .error .trailingComma
  | _ :: _ => .error .trailingCharacters

/-- Take up a field that may occur once. -/
def once {α : Type} (name : String) (sofar : Option α)
    (value : List Token → Except Fault (α × List Token)) (ts : List Token) :
    Except Fault (Option α × List Token) :=
  if sofar.isSome then .error (.duplicateField name)
  else (afterColon value ts).map fun (a, ts) => (some a, ts)

/-- Take up a field that nobody asked for. -/
def unknown {σ : Type} (s : σ) (ts : List Token) : Except Fault (σ × List Token) := do
  return (s, ← skip (← colon ts))

/-- How a record is read: its draft is filled member by member or slot by slot. -/
structure Shape (δ : Type) where
  /-- What the record is called when something else stands in its place. -/
  wanted : String
  /-- The draft without any field. -/
  empty : δ
  /-- Take up a member. -/
  member : Nat → δ → String → List Token → Except Fault (δ × List Token)
  /-- Take up the slots of an array. -/
  slots : Nat → List Token → Except Fault (δ × List Token)

/-- A record. A complete draft becomes the value; what is missing is judged by whether the record
was written as an object. -/
def record {δ α : Type} (shape : Shape δ) (complete : Bool → δ → Except Fault α) : Reader α
  | 0, .openArray :: _ | 0, .openObject :: _ => .error .tooDeep
  | room + 1, .openArray :: rest => do
    let (draft, rest) ← shape.slots room rest
    let a ← complete false draft
    return (a, ← endOfSlots rest)
  | room + 1, .openObject :: rest => do
    let (draft, rest) ← members (shape.member room) (rest.length + 1) true shape.empty rest
    return (← complete true draft, rest)
  | _, ts => .error (mismatch shape.wanted ts)

/-- The choice of a name. -/
def choose {α : Type} (choices : List (String × α)) (name : String) : Except Fault α :=
  match choices.find? fun c => c.1 = name with
  | some c => .ok c.2
  | none => .error (.unknownVariant name (choices.map (·.1)))

/-- The key of an object that has one member. -/
def soleKey : List Token → Except Fault (String × List Token)
  | [] => .error .endInObject
  | .string kept _ :: rest => kept.map fun k => (k, rest)
  | .closeObject :: _ => .error .noValue
  | _ :: _ => .error .keyNoString

/-- One of several names, or an object in which that name leads to nothing. -/
def variant {α : Type} (choices : List (String × α)) : Reader α
  | _, [] => .error .endInValue
  | _, .string kept _ :: rest => do return (← choose choices (← kept), rest)
  | 0, .openObject :: _ => .error .tooDeep
  | _ + 1, .openObject :: rest => do
    let (name, rest) ← soleKey rest
    let a ← choose choices name
    match ← colon rest with
    | .null spelled :: rest =>
      spelled
      match rest with
      | [] => throw .endInObject
      | .closeObject :: rest => return (a, rest)
      | _ :: _ => throw .noValue
    | ts => throw (mismatch "unit" ts)
  | _, _ :: _ => .error .noValue

/-! ### Documents -/

/-- The number of containers that may be opened inside each other. -/
def room : Nat := 127

/-- Read a whole document. -/
def run {α : Type} (reader : Reader α) (s : String) : Except Fault α := do
  match ← reader room (tokens s) with
  | (a, []) => return a
  | (_, _ :: _) => throw .trailingCharacters

end Reader

/-- Read a document of any shape. -/
def parse (s : String) : Except Fault Json :=
  Reader.value.run s

end PassGraph.Json
