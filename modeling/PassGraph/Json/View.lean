import PassGraph.Json.Fault

/-!
# Views of values

What a value is worth to someone who expects a value of one kind. A value of another kind, or a
whole number outside the range expected, is a fault.

## Main definitions

* `Json.asNat32`, `Json.asInt64`, `Json.asBool`, `Json.asString`, `Json.asStrings`
-/

namespace PassGraph.Json

/-- A whole number in a range. -/
def asIntIn (low high : Int) (wanted : String) : Json → Except Fault Int
  | .number (.int n) => if low ≤ n ∧ n ≤ high then .ok n else .error (.wrongRange n wanted)
  | v => .error (.wrongType v.found wanted)

/-- A whole number of 32 bits without sign. -/
def asNat32 : Json → Except Fault Int :=
  asIntIn 0 0xFFFFFFFF "u32"

/-- A whole number of 64 bits with sign. -/
def asInt64 : Json → Except Fault Int :=
  asIntIn Numeral.int64Min Numeral.int64Max "i64"

/-- A truth value. -/
def asBool : Json → Except Fault Bool
  | .bool b => .ok b
  | v => .error (.wrongType v.found "a boolean")

/-- A string. -/
def asString : Json → Except Fault String
  | .string s => .ok s
  | v => .error (.wrongType v.found "a string")

/-- A list of strings. -/
def asStrings : Json → Except Fault (List String)
  | .array items => items.mapM asString
  | v => .error (.wrongType v.found "a sequence")

end PassGraph.Json
