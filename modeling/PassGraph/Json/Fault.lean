import PassGraph.Json.Numeral
import PassGraph.Text.Debug

/-!
# What can be wrong with a JSON document

A document is read from left to right against the shape that is wanted, and the first thing that
does not fit ends the reading. It may be a matter of spelling (a quote that is missing) or of shape
(a number where a string is wanted); both kinds are faults of one type, since the first one wins.

## Main definitions

* `Json.Found` — what stands where something else was wanted
* `Json.Fault`, `Json.Fault.message`
-/

namespace PassGraph.Json

/-- What stands where something else was wanted. -/
inductive Found where
  | null
  | bool (value : Bool)
  | number (value : Number)
  | string (value : String)
  | sequence
  | map
  deriving DecidableEq, Repr

/-- How a value is called in a fault. -/
def Found.text : Found → String
  | .null => "null"
  | .bool b => "boolean `" ++ (if b then "true" else "false") ++ "`"
  | .number (.int n) => "integer `" ++ String.ofList (intChars n) ++ "`"
  | .number (.float d) => "floating point `" ++ String.ofList d.chars ++ "`"
  | .string s => "string " ++ Text.debug s
  | .sequence => "sequence"
  | .map => "map"

/-- The value as something found. -/
def found : Json → Found
  | .null => .null
  | .bool b => .bool b
  | .number n => .number n
  | .string s => .string s
  | .array _ => .sequence
  | .object _ => .map

/-- The first thing that is wrong with a document. -/
inductive Fault where
  /-- The text ends where a value should stand. -/
  | endInValue
  /-- The text ends inside a string. -/
  | endInString
  /-- The text ends inside an array. -/
  | endInList
  /-- The text ends inside an object. -/
  | endInObject
  /-- Something else stands where a value should start. -/
  | noValue
  /-- A word starts like a constant and is none. -/
  | noWord
  /-- No colon after a key. -/
  | noColon
  /-- Neither comma nor end after a member. -/
  | noObjectEnd
  /-- Neither comma nor end after an item. -/
  | noListEnd
  /-- A comma with nothing after it. -/
  | trailingComma
  /-- The document goes on after its end. -/
  | trailingCharacters
  /-- A key is no string. -/
  | keyNoString
  /-- A number is misspelled. -/
  | badNumber
  /-- A number is too large for a double. -/
  | numberRange
  /-- An escape does not exist. -/
  | badEscape
  /-- The first half of a surrogate pair is not followed by an escape. -/
  | halfEscape
  /-- Half of a surrogate pair. -/
  | loneSurrogate
  /-- A control character inside a string. -/
  | control
  /-- Too many containers inside each other. -/
  | tooDeep
  /-- A value of another kind than wanted. -/
  | wrongType (found : Found) (wanted : String)
  /-- A whole number that does not fit. -/
  | wrongRange (value : Int) (wanted : String)
  /-- A field that occurs twice. -/
  | duplicateField (name : String)
  /-- A field that does not occur. -/
  | missingField (name : String)
  /-- A record written as an array that is too short. -/
  | tooShort (length : Nat) (wanted : String)
  /-- A name that is none of the choices. -/
  | unknownVariant (name : String) (choices : List String)
  deriving DecidableEq, Repr

/-- The choices of a variant in words. -/
def choicesText : List String → String
  | [a, b] => "expected `" ++ a ++ "` or `" ++ b ++ "`"
  | choices => "expected one of " ++ ", ".intercalate (choices.map fun c => "`" ++ c ++ "`")

/-- A fault in words. -/
def Fault.message : Fault → String
  | endInValue => "EOF while parsing a value"
  | endInString => "EOF while parsing a string"
  | endInList => "EOF while parsing a list"
  | endInObject => "EOF while parsing an object"
  | noValue => "expected value"
  | noWord => "expected ident"
  | noColon => "expected `:`"
  | noObjectEnd => "expected `,` or `\x7d`"
  | noListEnd => "expected `,` or `]`"
  | trailingComma => "trailing comma"
  | trailingCharacters => "trailing characters"
  | keyNoString => "key must be a string"
  | badNumber => "invalid number"
  | numberRange => "number out of range"
  | badEscape => "invalid escape"
  | halfEscape => "unexpected end of hex escape"
  | loneSurrogate => "lone leading surrogate in hex escape"
  | control => "control character (\\u0000-\\u001F) found while parsing a string"
  | tooDeep => "recursion limit exceeded"
  | wrongType f wanted => "invalid type: " ++ f.text ++ ", expected " ++ wanted
  | wrongRange n wanted =>
    "invalid value: integer `" ++ String.ofList (intChars n) ++ "`, expected " ++ wanted
  | duplicateField name => "duplicate field `" ++ name ++ "`"
  | missingField name => "missing field `" ++ name ++ "`"
  | tooShort length wanted =>
    "invalid length " ++ toString length ++ ", expected " ++ wanted
  | unknownVariant name choices => "unknown variant `" ++ name ++ "`, " ++ choicesText choices

end PassGraph.Json
