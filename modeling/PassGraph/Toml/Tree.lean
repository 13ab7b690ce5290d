/-!
# TOML trees

What a settings file says, as far as settings can use it: strings, whole numbers, truth values, and
tables of these. An empty list is told apart from everything else; dates, fractions and lists with
something in them are not represented, since no setting takes them.

A table remembers how it came to be, because that decides what may still be added to it. Every key
is given once: nothing is ever overwritten.

## Main definitions

* `Toml.Item`, `Toml.Origin`, `Toml.Entries`
* `Toml.assign` — a key path is given a value
* `Toml.declare` — a heading opens a table
* `Toml.within` — change the table that a heading opened
-/

namespace PassGraph.Toml

/-- How a table came to be. -/
inductive Origin where
  /-- By a heading of its own. -/
  | heading
  /-- As a part of the heading of an inner table. -/
  | implied
  /-- As a part of a dotted key. -/
  | dotted
  /-- Between braces, where nothing can be added later. -/
  | closed
  deriving DecidableEq, Repr

/-- What a key is given. -/
inductive Item where
  | text (value : String)
  | whole (value : Int)
  | truth (value : Bool)
  | emptyList
  | table (origin : Origin) (entries : List (String × Item))
  deriving Repr

/-- The keys of a table with what they are given, in the order of the text. -/
abbrev Entries := List (String × Item)

namespace Entries

/-- What a key is given. -/
def item? (es : Entries) (k : String) : Option Item :=
  (es.find? fun e => e.1 = k).map (·.2)

/-- Give a key that is there something else. -/
def change (es : Entries) (k : String) (item : Item) : Entries :=
  es.map fun e => if e.1 = k then (k, item) else e

end Entries

/-- Give a dotted key a value. The tables on the way are made, or were made by dotted keys. -/
def assign (item : Item) : (path : List String) → Entries → Option Entries
  | [], _ => none
  | [k], es => if (es.item? k).isSome then none else some (es ++ [(k, item)])
  | k :: path, es =>
    match es.item? k with
    | none => (assign item path []).map fun inner => es ++ [(k, .table .dotted inner)]
    | some (.table .dotted inner) =>
      (assign item path inner).map fun inner => es.change k (.table .dotted inner)
    | some _ => none

/-- Open the table of a heading. It may have been implied before, but not opened. -/
def declare : (path : List String) → Entries → Option Entries
  | [], _ => none
  | [k], es =>
    match es.item? k with
    | none => some (es ++ [(k, .table .heading [])])
    | some (.table .implied inner) => some (es.change k (.table .heading inner))
    | some _ => none
  | k :: path, es =>
    match es.item? k with
    | none => (declare path []).map fun inner => es ++ [(k, .table .implied inner)]
    | some (.table .closed _) => none
    | some (.table origin inner) =>
      (declare path inner).map fun inner => es.change k (.table origin inner)
    | some _ => none

/-- Change the table at a path that exists. -/
def within (f : Entries → Option Entries) : (path : List String) → Entries → Option Entries
  | [], es => f es
  | k :: path, es =>
    match es.item? k with
    | some (.table origin inner) =>
      (within f path inner).map fun inner => es.change k (.table origin inner)
    | _ => none

end PassGraph.Toml
