import PassGraph.Json.Fault

/-!
# JSON tokens

A text is cut into tokens before anything is made of it; blanks disappear in the process. Cutting
never fails. What is misspelled becomes a token that carries its fault, and the fault comes to light
only if the reader gets that far and wants a value there.

There are two ways to want a value. A value that is *kept* has to be spelled well in every detail. A
value that is *skipped* is only checked for its outline: a number may be out of range, a string may
hold half a surrogate pair. So numbers and strings carry two results. A text that cannot be followed
even in outline has no tokens after the fault.

## Main definitions

* `Json.Token` — brackets, separators, constants, numbers, strings, and what is none of them
* `Json.scanString`, `Json.scanNumber` — the two tokens with an inner structure
* `Json.tokens` — all tokens of a text

## Main results

* `Json.characters_eq` — which characters of a text are looked at
-/

namespace PassGraph.Json

/-- The result of a scan: what the token is worth if kept, whether it may be skipped, and the
characters after it. -/
structure Scan (α : Type) where
  /-- The value, for a reader that keeps it. -/
  kept : Except Fault α
  /-- The fault, for a reader that skips it. -/
  skipped : Except Fault Unit
  /-- The characters after the token. -/
  rest : List Char

/-- A scan that went wrong for either reader. -/
def Scan.fail {α : Type} (kept skipped : Fault) : Scan α :=
  ⟨.error kept, .error skipped, []⟩

/-- A token of a JSON text. -/
inductive Token where
  | openArray
  | closeArray
  | openObject
  | closeObject
  | comma
  | colon
  /-- A word that starts like `null`, and whether it is spelled so. -/
  | null (spelled : Except Fault Unit)
  /-- A word that starts like `true` or `false`, and whether it is spelled so. -/
  | bool (value : Bool) (spelled : Except Fault Unit)
  | number (kept : Except Fault Number) (skipped : Except Fault Unit)
  | string (kept : Except Fault String) (skipped : Except Fault Unit)
  /-- A character that starts no token. -/
  | stray

/-! ### Strings -/

/-- The value of a hexadecimal digit. -/
def hexValue? (c : Char) : Option Nat :=
  if '0' ≤ c ∧ c ≤ '9' then some (c.toNat - '0'.toNat)
  else if 'a' ≤ c ∧ c ≤ 'f' then some (c.toNat - 'a'.toNat + 10)
  else if 'A' ≤ c ∧ c ≤ 'F' then some (c.toNat - 'A'.toNat + 10)
  else none

/-- The number that four hexadecimal digits spell. -/
def hexWord? (a b c d : Char) : Option Nat := do
  let a ← hexValue? a
  let b ← hexValue? b
  let c ← hexValue? c
  let d ← hexValue? d
  return ((a * 16 + b) * 16 + c) * 16 + d

/-- The character that a backslash and `c` stand for. -/
def unescape? (c : Char) : Option Char :=
  if c = '"' then some '"'
  else if c = '\\' then some '\\'
  else if c = '/' then some '/'
  else if c = 'b' then some '\x08'
  else if c = 'f' then some '\x0c'
  else if c = 'n' then some '\n'
  else if c = 'r' then some '\r'
  else if c = 't' then some '\t'
  else none

/-- What was read of a string so far. -/
structure Partial where
  /-- The characters, last one first. -/
  done : List Char := []
  /-- The first half of a surrogate pair, if the second half has to follow. -/
  half : Option Nat := none
  /-- The first fault for a reader that keeps the string. -/
  fault : Option Fault := none

namespace Partial

/-- Note a fault, unless there was one before. -/
def blame (p : Partial) (f : Fault) : Partial :=
  { p with half := none, fault := some (p.fault.getD f) }

/-- Append a character. It may not follow the first half of a surrogate pair. -/
def add (p : Partial) (c : Char) : Partial :=
  if p.half.isSome then p.blame .halfEscape else { p with done := c :: p.done }

/-- Append the character or half character of an escape by number. -/
def addWord (p : Partial) (n : Nat) : Partial :=
  let low : Bool := 0xDC00 ≤ n ∧ n ≤ 0xDFFF
  let high : Bool := 0xD800 ≤ n ∧ n ≤ 0xDBFF
  match p.half with
  | some h =>
    if low then
      let c := Char.ofNat (0x10000 + (h - 0xD800) * 0x400 + (n - 0xDC00))
      { p with done := c :: p.done, half := none }
    else p.blame .loneSurrogate
  | none =>
    if low then p.blame .loneSurrogate
    else if high then (if p.fault.isSome then p else { p with half := some n })
    else { p with done := Char.ofNat n :: p.done }

/-- The string, when its closing quote or its last fault is reached. -/
def close (p : Partial) : Except Fault String :=
  let p := if p.half.isSome then p.blame .halfEscape else p
  match p.fault with
  | some f => .error f
  | none => .ok (String.ofList p.done.reverse)

/-- The scan that ends with a fault for either reader. A pair that is still open is a fault before
it, unless the text is at its end. -/
def stop (p : Partial) (f : Fault) : Scan String :=
  let kept := if p.half.isSome ∧ f ≠ .endInString then (p.blame .halfEscape) else p.blame f
  ⟨kept.close, .error f, []⟩

end Partial

/-- The number of bytes that a text takes. -/
def byteCount (cs : List Char) : Nat :=
  cs.foldl (fun n c => n + c.utf8Size) 0

/-- Scan a string after its opening quote. -/
def scanString (p : Partial) : List Char → Scan String
  | [] => p.stop .endInString
  | '"' :: rest => ⟨p.close, .ok (), rest⟩
  | '\\' :: [] => p.stop .endInString
  | '\\' :: 'u' :: a :: b :: c :: d :: rest =>
    match hexWord? a b c d with
    | some n => scanString (p.addWord n) rest
    | none => { p with half := none }.stop .badEscape
  | '\\' :: 'u' :: rest =>
    -- An escape by number takes four bytes, whatever they are.
    { p with half := none }.stop (if byteCount rest < 4 then .endInString else .badEscape)
  | '\\' :: c :: rest =>
    match unescape? c with
    | some u => scanString (p.add u) rest
    | none => p.stop .badEscape
  | c :: rest => if c.toNat < 0x20 then p.stop .control else scanString (p.add c) rest

/-! ### Numbers -/

/-- Whether a character is a decimal digit. -/
def isDigit (c : Char) : Bool :=
  '0' ≤ c ∧ c ≤ '9'

/-- The digits at the start of a text, and what follows them. -/
def digits (cs : List Char) : List Nat × List Char :=
  ((cs.takeWhile isDigit).map fun c => c.toNat - '0'.toNat, cs.dropWhile isDigit)

/-- A scan of a number that misses a digit. At the end of the text a reader that keeps numbers
misses the rest of the value. -/
def missingDigit (rest : List Char) : Scan Number :=
  .fail (if rest.isEmpty then .endInValue else .badNumber) .badNumber

/-- Scan the part of a number from its exponent on. -/
def scanExponent (negative : Bool) (whole : List Nat) (fraction : Option (List Nat))
    (cs : List Char) : Scan Number :=
  let done (exponent : Option (Bool × Nat)) (rest : List Char) : Scan Number :=
    match (Numeral.mk negative whole fraction exponent).value? with
    | some n => ⟨.ok n, .ok (), rest⟩
    | none => ⟨.error .numberRange, .ok (), rest⟩
  match cs with
  | c :: rest =>
    if c = 'e' ∨ c = 'E' then
      let (below, rest) := match rest with
        | '+' :: rest => (false, rest)
        | '-' :: rest => (true, rest)
        | rest => (false, rest)
      let (ds, rest) := digits rest
      if ds.isEmpty then missingDigit rest
      else done (some (below, ds.foldl (fun n d => n * 10 + d) 0)) rest
    else done none cs
  | [] => done none []

/-- Scan the part of a number from its point on. -/
def scanFraction (negative : Bool) (whole : List Nat) : List Char → Scan Number
  | '.' :: rest =>
    let (ds, rest) := digits rest
    if ds.isEmpty then missingDigit rest else scanExponent negative whole (some ds) rest
  | cs => scanExponent negative whole none cs

/-- Scan a number after its sign. -/
def scanNumber (negative : Bool) (cs : List Char) : Scan Number :=
  match digits cs with
  | ([], rest) => missingDigit rest
  | (0 :: _ :: _, _) => .fail .badNumber .badNumber
  | (whole, rest) => scanFraction negative whole rest

/-! ### Texts -/

/-- Whether a character separates tokens. -/
def isBlank (c : Char) : Bool :=
  c = ' ' || c = '\t' || c = '\n' || c = '\r'

/-- Go past a word, or find out that it is another one. -/
def scanWord : (word cs : List Char) → Scan Unit
  | [], cs => ⟨.ok (), .ok (), cs⟩
  | _ :: _, [] => .fail .endInValue .endInValue
  | w :: word, c :: cs => if w = c then scanWord word cs else .fail .noWord .noWord

/-- The tokens of a text of at most `n` characters. -/
def tokensOf : Nat → List Char → List Token
  | 0, _ => []
  | _ + 1, [] => []
  | n + 1, c :: cs =>
    if isBlank c then tokensOf n cs
    else if c = '[' then .openArray :: tokensOf n cs
    else if c = ']' then .closeArray :: tokensOf n cs
    else if c = '{' then .openObject :: tokensOf n cs
    else if c = '}' then .closeObject :: tokensOf n cs
    else if c = ',' then .comma :: tokensOf n cs
    else if c = ':' then .colon :: tokensOf n cs
    else if c = '"' then
      let s := scanString {} cs
      .string s.kept s.skipped :: tokensOf n s.rest
    else if c = '-' then
      let s := scanNumber true cs
      .number s.kept s.skipped :: tokensOf n s.rest
    else if isDigit c then
      let s := scanNumber false (c :: cs)
      .number s.kept s.skipped :: tokensOf n s.rest
    else if c = 'n' then
      let s := scanWord ['u', 'l', 'l'] cs
      .null s.kept :: tokensOf n s.rest
    else if c = 't' then
      let s := scanWord ['r', 'u', 'e'] cs
      .bool true s.kept :: tokensOf n s.rest
    else if c = 'f' then
      let s := scanWord ['a', 'l', 's', 'e'] cs
      .bool false s.kept :: tokensOf n s.rest
    else [.stray]

/-- The characters of a text. Of the spaces at its end only four are kept: no token can tell more of
them apart, since an escape by number asks for four. -/
def characters (s : String) : List Char :=
  s.foldr keep []
where
  /-- A character in front of those kept. -/
  keep (c : Char) (rest : List Char) : List Char :=
    match c, rest with
    | ' ', [' ', ' ', ' ', ' '] => rest
    | c, rest => c :: rest

theorem characters_eq (s : String) : characters s = s.toList.foldr characters.keep [] :=
  String.foldr_eq_foldr_toList

/-- The tokens of a text. -/
def tokens (s : String) : List Token :=
  let cs := characters s
  tokensOf cs.length cs

end PassGraph.Json
