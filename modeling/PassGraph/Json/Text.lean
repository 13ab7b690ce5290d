import PassGraph.Json.Numeral

/-!
# Writing JSON text

A value is written in front of the characters that follow it, so that writing a list of values is
composition and no text is copied twice.

Two layouts exist. The compact one has no blanks. The pretty one puts every item and member on a
line of its own, indented by two spaces for each container around it, and one space after each
colon; empty containers stay closed up in both.

## Main definitions

* `Json.Layout` — compact or pretty
* `Json.quote` — a string with its quotes and escapes
* `Json.write`, `Json.text` — a value in a layout
-/

namespace PassGraph.Json

/-- How the parts of a value are set apart. -/
inductive Layout where
  | compact
  | pretty
  deriving DecidableEq, Repr

/-! ### Strings -/

/-- A hexadecimal digit, in lower case. -/
def hexDigit (n : Nat) : Char :=
  Nat.digitChar n

/-- A character inside quotes: the quote, the backslash and the controls are escaped, the controls
without a short form by their number. -/
def escape (c : Char) : List Char :=
  if c = '"' then ['\\', '"']
  else if c = '\\' then ['\\', '\\']
  else if c = '\x08' then ['\\', 'b']
  else if c = '\x0c' then ['\\', 'f']
  else if c = '\n' then ['\\', 'n']
  else if c = '\r' then ['\\', 'r']
  else if c = '\t' then ['\\', 't']
  else if c.toNat < 0x20 then
    ['\\', 'u', '0', '0', hexDigit (c.toNat / 16), hexDigit (c.toNat % 16)]
  else [c]

/-- Write a string with its quotes and escapes. -/
def quote (s : String) (rest : List Char) : List Char :=
  '"' :: s.toList.foldr (fun c r => escape c ++ r) ('"' :: rest)

/-! ### Values -/

/-- Go to a new line at a depth, if the layout has lines. -/
def Layout.newline : Layout → Nat → List Char → List Char
  | .compact, _, rest => rest
  | .pretty, depth, rest => '\n' :: List.replicate (2 * depth) ' ' ++ rest

/-- Write the colon between a key and its value. -/
def Layout.colon : Layout → List Char → List Char
  | .compact, rest => ':' :: rest
  | .pretty, rest => ':' :: ' ' :: rest

mutual

/-- Write a value that stands `depth` containers deep in front of `rest`. -/
def write (l : Layout) (depth : Nat) : Json → List Char → List Char
  | .null, rest => 'n' :: 'u' :: 'l' :: 'l' :: rest
  | .bool true, rest => 't' :: 'r' :: 'u' :: 'e' :: rest
  | .bool false, rest => 'f' :: 'a' :: 'l' :: 's' :: 'e' :: rest
  | .number n, rest => n.chars ++ rest
  | .string s, rest => quote s rest
  | .array [], rest => '[' :: ']' :: rest
  | .array (x :: xs), rest =>
    '[' :: l.newline (depth + 1) (write l (depth + 1) x (writeItems l depth xs rest))
  | .object [], rest => '{' :: '}' :: rest
  | .object ((k, x) :: ms), rest =>
    '{' :: l.newline (depth + 1)
      (quote k (l.colon (write l (depth + 1) x (writeMembers l depth ms rest))))

/-- Write the items after the first and close the array. -/
def writeItems (l : Layout) (depth : Nat) : List Json → List Char → List Char
  | [], rest => l.newline depth (']' :: rest)
  | x :: xs, rest =>
    ',' :: l.newline (depth + 1) (write l (depth + 1) x (writeItems l depth xs rest))

/-- Write the members after the first and close the object. -/
def writeMembers (l : Layout) (depth : Nat) : List (String × Json) → List Char → List Char
  | [], rest => l.newline depth ('}' :: rest)
  | (k, x) :: ms, rest =>
    ',' :: l.newline (depth + 1)
      (quote k (l.colon (write l (depth + 1) x (writeMembers l depth ms rest))))

end

/-- The text of a value. -/
def text (l : Layout) (v : Json) : String :=
  String.ofList (v.write l 0 [])

end PassGraph.Json
