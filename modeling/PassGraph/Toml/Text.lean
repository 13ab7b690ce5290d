import PassGraph.Toml.Tree

/-!
# Reading TOML text

A TOML text is a list of lines, each of them a heading, a key with its value, or empty. A reader of
a part takes the characters of the part off the front of the text and returns what it says with the
characters after it, or nothing if the part is not well formed or says something that settings
cannot use.

## Main definitions

* `Toml.key`, `Toml.path` — a key, and keys with dots between them
* `Toml.value` — a string, a whole number, a truth value, an empty list or a table between braces
* `Toml.parse` — a whole text
-/

namespace PassGraph.Toml

/-- Takes a part of a text off its front. -/
abbrev Part (α : Type) := List Char → Option (α × List Char)

/-! ### Blanks, comments and line ends -/

/-- Whether a character is a blank inside a line. -/
def isBlank (c : Char) : Bool :=
  c = ' ' || c = '\t'

/-- Go past blanks. -/
def skipBlanks (cs : List Char) : List Char :=
  cs.dropWhile isBlank

/-- Whether a character may stand in a comment or a string as itself. -/
def isPlain (c : Char) : Bool :=
  c = '\t' || (0x20 ≤ c.toNat && c.toNat ≠ 0x7F)

/-- Go past a line end. -/
def lineEnd? : List Char → Option (List Char)
  | '\n' :: rest => some rest
  | '\r' :: '\n' :: rest => some rest
  | _ => none

/-- Go past blanks and a comment, to the line end or the end of the text. -/
def skipComment (cs : List Char) : List Char :=
  match skipBlanks cs with
  | '#' :: rest => rest.dropWhile isPlain
  | rest => rest

/-- Go past the rest of a line in which nothing more may stand. -/
def endOfLine? (cs : List Char) : Option (List Char) :=
  match skipComment cs with
  | [] => some []
  | rest => lineEnd? rest

/-- Go past blanks, comments and line ends. The number bounds the lines. -/
def skipLines : Nat → List Char → List Char
  | 0, cs => cs
  | n + 1, cs =>
    let rest := skipComment cs
    match lineEnd? rest with
    | some rest => skipLines n rest
    | none => rest

/-- Go past blanks, comments and line ends. -/
def skipFiller (cs : List Char) : List Char :=
  skipLines cs.length cs

/-! ### Strings -/

/-- The value of a digit in a base up to sixteen. -/
def digit? (base : Nat) (c : Char) : Option Nat :=
  let d :=
    if '0' ≤ c ∧ c ≤ '9' then c.toNat - '0'.toNat
    else if 'a' ≤ c ∧ c ≤ 'f' then c.toNat - 'a'.toNat + 10
    else if 'A' ≤ c ∧ c ≤ 'F' then c.toNat - 'A'.toNat + 10
    else base
  if d < base then some d else none

/-- A number of so many hexadecimal digits. -/
def hexDigits : Nat → Nat → Part Nat
  | 0, n, cs => some (n, cs)
  | _ + 1, _, [] => none
  | k + 1, n, c :: cs => do
    let d ← digit? 16 c
    hexDigits k (n * 16 + d) cs

/-- The character of a number, if there is one. -/
def scalar? (n : Nat) : Option Char :=
  if n.isValidChar then some (Char.ofNat n) else none

/-- The character that the part after a backslash stands for. -/
def escaped : Part Char
  | 'b' :: cs => some ('\x08', cs)
  | 't' :: cs => some ('\t', cs)
  | 'n' :: cs => some ('\n', cs)
  | 'f' :: cs => some ('\x0c', cs)
  | 'r' :: cs => some ('\r', cs)
  | 'e' :: cs => some ('\x1b', cs)
  | '"' :: cs => some ('"', cs)
  | '\\' :: cs => some ('\\', cs)
  | 'x' :: cs => numbered 2 cs
  | 'u' :: cs => numbered 4 cs
  | 'U' :: cs => numbered 8 cs
  | _ => none
where
  /-- The character of a number of so many hexadecimal digits. -/
  numbered (k : Nat) (cs : List Char) : Option (Char × List Char) := do
    let (n, rest) ← hexDigits k 0 cs
    return (← scalar? n, rest)

/-- Go past blanks and line ends. The number bounds the lines. -/
def skipBreaks : Nat → List Char → List Char
  | 0, cs => cs
  | n + 1, cs =>
    let rest := skipBlanks cs
    match lineEnd? rest with
    | some rest => skipBreaks n rest
    | none => rest

/-- How a string is delimited. -/
structure Quotes where
  /-- The quote. -/
  mark : Char
  /-- Whether a backslash starts an escape. -/
  escapes : Bool
  /-- Whether the string may go over several lines, between three quotes. -/
  lines : Bool

/-- What the end of a string of several lines says: up to two quotes may stand before its three. -/
def closeLines (mark : Char) (cs : List Char) : Option (List Char × List Char) :=
  let run := (cs.takeWhile (· = mark)).length
  if 3 ≤ run ∧ run ≤ 5 then some (List.replicate (run - 3) mark, cs.drop run) else none

/-- The characters of a string up to its end. The number bounds the steps. -/
def stringBody (q : Quotes) : Nat → List Char → Part (List Char)
  | 0, _, _ => none
  | _ + 1, _, [] => none
  | n + 1, done, c :: cs =>
    if c = q.mark then
      if !q.lines then some (done.reverse, cs)
      else if (c :: cs).take 3 = [q.mark, q.mark, q.mark] then do
        let (more, rest) ← closeLines q.mark (c :: cs)
        return (done.reverse ++ more, rest)
      else stringBody q n (c :: done) cs
    else if c = '\\' ∧ q.escapes then
      if q.lines ∧ (lineEnd? (skipBlanks cs)).isSome then
        -- A backslash at the end of a line removes all blanks and line ends after it.
        stringBody q n done (skipBreaks cs.length cs)
      else do
        let (e, rest) ← escaped cs
        stringBody q n (e :: done) rest
    else if isPlain c then stringBody q n (c :: done) cs
    else if q.lines then do
      let rest ← lineEnd? (c :: cs)
      stringBody q n ('\n' :: done) rest
    else none

/-- A string after its opening quotes. -/
def stringAfter (q : Quotes) (cs : List Char) : Option (String × List Char) := do
  let (chars, rest) ← stringBody q (cs.length + 1) [] cs
  return (String.ofList chars, rest)

/-- A string of one line. -/
def lineString : Part String
  | '"' :: cs => stringAfter ⟨'"', true, false⟩ cs
  | '\'' :: cs => stringAfter ⟨'\'', false, false⟩ cs
  | _ => none

/-- Any string. A line end right after three opening quotes does not count. -/
def string : Part String
  | '"' :: '"' :: '"' :: cs => stringAfter ⟨'"', true, true⟩ ((lineEnd? cs).getD cs)
  | '\'' :: '\'' :: '\'' :: cs => stringAfter ⟨'\'', false, true⟩ ((lineEnd? cs).getD cs)
  | cs => lineString cs

/-! ### Keys -/

/-- Whether a character may stand in a key without quotes. -/
def isBare (c : Char) : Bool :=
  c.isAlphanum || c = '_' || c = '-'

/-- A key. -/
def key : Part String
  | '"' :: cs => lineString ('"' :: cs)
  | '\'' :: cs => lineString ('\'' :: cs)
  | cs =>
    let name := cs.takeWhile isBare
    if name.isEmpty then none else some (String.ofList name, cs.dropWhile isBare)

/-- Keys with dots between them. The number bounds the keys. -/
def pathOf : Nat → Part (List String)
  | 0, _ => none
  | n + 1, cs => do
    let (k, rest) ← key (skipBlanks cs)
    match skipBlanks rest with
    | '.' :: rest =>
      let (ks, rest) ← pathOf n rest
      return (k :: ks, rest)
    | rest => return ([k], rest)

/-- Keys with dots between them, and the blanks around them. -/
def path (cs : List Char) : Option (List String × List Char) :=
  pathOf (cs.length + 1) cs

/-! ### Numbers -/

/-- The digits of a number. An underscore may stand between two of them. -/
def digitRun (base : Nat) : (value : Nat) → (afterDigit : Bool) → Part Nat
  | n, afterDigit, [] => if afterDigit then some (n, []) else none
  | n, afterDigit, c :: cs =>
    if c = '_' ∧ afterDigit then digitRun base n false cs
    else
      match digit? base c with
      | some d => digitRun base (n * base + d) true cs
      | none => if afterDigit then some (n, c :: cs) else none

/-- A decimal number. It does not start with a zero unless it is zero. -/
def decimal : Part Nat
  | '0' :: c :: cs => if (digit? 10 c).isSome ∨ c = '_' then none else some (0, c :: cs)
  | cs => digitRun 10 0 false cs

/-- A whole number. Only a decimal one may have a sign. -/
def whole : Part Int
  | '0' :: 'x' :: cs => natural (digitRun 16 0 false cs)
  | '0' :: 'o' :: cs => natural (digitRun 8 0 false cs)
  | '0' :: 'b' :: cs => natural (digitRun 2 0 false cs)
  | '+' :: cs => natural (decimal cs)
  | '-' :: cs => (decimal cs).map fun (n, rest) => (-(n : Int), rest)
  | cs => natural (decimal cs)
where
  /-- A number without sign. -/
  natural (part : Option (Nat × List Char)) : Option (Int × List Char) :=
    part.map fun (n, rest) => ((n : Int), rest)

/-! ### Values -/

/-- The entries of a table between braces, up to its end. A line may end anywhere between their
parts, but not inside a key. The number bounds the entries, and a comma may follow the last one. -/
def entriesWith (value : Part Item) : Nat → Entries → Part Entries
  | 0, _, _ => none
  | n + 1, es, cs =>
    match skipFiller cs with
    | '}' :: rest => some (es, rest)
    | cs => do
      let (ks, rest) ← path cs
      match skipFiller rest with
      | '=' :: rest =>
        let (item, rest) ← value (skipFiller rest)
        let es ← assign item ks es
        match skipFiller rest with
        | ',' :: rest => entriesWith value n es rest
        | '}' :: rest => some (es, rest)
        | _ => none
      | _ => none

/-- A value with at most `depth` tables inside each other. -/
def valueWithin : (depth : Nat) → Part Item
  | _, 't' :: 'r' :: 'u' :: 'e' :: rest => some (.truth true, rest)
  | _, 'f' :: 'a' :: 'l' :: 's' :: 'e' :: rest => some (.truth false, rest)
  | _, '[' :: rest =>
    match skipFiller rest with
    | ']' :: rest => some (.emptyList, rest)
    | _ => none
  | 0, '{' :: _ => none
  | depth + 1, '{' :: rest => do
    let (es, rest) ← entriesWith (valueWithin depth) (rest.length + 1) [] rest
    return (.table .closed es, rest)
  | _, cs =>
    match cs with
    | '"' :: _ | '\'' :: _ => (string cs).map fun (s, rest) => (.text s, rest)
    | _ => (whole cs).map fun (n, rest) => (.whole n, rest)

/-- A value. -/
def value (cs : List Char) : Option (Item × List Char) :=
  valueWithin cs.length cs

/-! ### Texts -/

/-- What was read of a text so far: its tables, and the path of the last heading. -/
structure Document where
  /-- The tables. -/
  entries : Entries := []
  /-- The path of the last heading. -/
  heading : List String := []

/-- Take up a line that is not empty. -/
def line (d : Document) : Part Document
  | '[' :: cs => do
    let (ks, rest) ← path cs
    match rest with
    | ']' :: rest => return (⟨← declare ks d.entries, ks⟩, rest)
    | _ => none
  | cs => do
    let (ks, rest) ← path cs
    match rest with
    | '=' :: rest =>
      let (item, rest) ← value (skipBlanks rest)
      return ({ d with entries := ← within (assign item ks) d.heading d.entries }, rest)
    | _ => none

/-- Take up the lines of a text. The number bounds the lines. -/
def linesOf : Nat → Document → List Char → Option Document
  | 0, _, _ => none
  | n + 1, d, cs =>
    match skipFiller cs with
    | [] => some d
    | cs => do
      let (d, rest) ← line d cs
      linesOf n d (← endOfLine? rest)

/-- The tables of a text. A byte order mark in front does not count. -/
def parse (s : String) : Option Entries :=
  let cs := match s.toList with
    | '\ufeff' :: cs => cs
    | cs => cs
  (linesOf (cs.length + 1) {} cs).map (·.entries)

end PassGraph.Toml
