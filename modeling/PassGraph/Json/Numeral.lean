import PassGraph.Json.Basic

/-!
# Numerals

How a JSON number is spelled, what number a spelling denotes, and how a number is spelled in turn.

A spelling without fraction and exponent denotes a whole number as long as it fits 64 bits: up to
`wordMax` without a sign and down to `int64Min` with one. Everything else, `-0` included, denotes a
double. A double is computed from the longest run of leading digits that fits 64 bits and a power of
ten, with one rounding for each step, so it may be off the nearest double in its last place.

## Main definitions

* `Numeral` — the parts of a spelling
* `Numeral.value?` — what it denotes; nothing if that is too large for a double
* `Number.chars` — the spelling of a number
-/

namespace PassGraph

/-- The parts of the spelling of a number. -/
structure Numeral where
  /-- Whether it starts with a minus sign. -/
  negative : Bool
  /-- The digits before the point. -/
  whole : List Nat
  /-- The digits after the point, if there is one. -/
  fraction : Option (List Nat)
  /-- The exponent, if there is one: whether it is negative, and its magnitude. -/
  exponent : Option (Bool × Nat)
  deriving DecidableEq, Repr

namespace Numeral

/-- The largest whole number of 64 bits without sign. -/
def wordMax : Nat := 0xFFFFFFFFFFFFFFFF

/-- The least whole number of 64 bits with sign. -/
def int64Min : Int := -0x8000000000000000

/-- The largest whole number of 64 bits with sign. -/
def int64Max : Int := 0x7FFFFFFFFFFFFFFF

/-- The largest magnitude of an exponent that is still counted. -/
def exponentMax : Nat := 0x7FFFFFFF

/-- Append digits to a number while the result fits 64 bits; the digits left over follow. -/
def absorb : Nat → List Nat → Nat × List Nat
  | n, [] => (n, [])
  | n, d :: rest => if n * 10 + d ≤ wordMax then absorb (n * 10 + d) rest else (n, d :: rest)

/-- The largest power of ten that a double is multiplied with at once. -/
def powerMax : Nat := 308

/-- The double of a power of ten. -/
def power (k : Nat) : Nat :=
  Double.nearest (Double.tenTo k) 1

/-- Divide by the largest power as often as told, or until nothing is left. -/
def sink : Nat → Nat → Nat
  | 0, c => c
  | k + 1, c => if c = 0 then 0 else sink k (Double.div c (power powerMax))

/-- The double code of `digits * 10 ^ exponent`; nothing if it is too large. -/
def scaled? (digits : Nat) (exponent : Int) : Option Nat :=
  let c := Double.nearest digits 1
  if 0 ≤ exponent then
    let k := exponent.toNat
    if k ≤ powerMax then
      let r := Double.mul c (power k)
      if r < Double.infinity then some r else none
    else if c = 0 then some 0
    else none
  else
    let k := (-exponent).toNat
    -- All but the last step, which divides by a power no larger than the largest.
    let steps := (k - 1) / powerMax
    let c := sink steps c
    some (if c = 0 then 0 else Double.div c (power (k - steps * powerMax)))

/-- What the spelling denotes. -/
def value? (n : Numeral) : Option Number :=
  let (digits, left) := absorb 0 n.whole
  if left.isEmpty ∧ n.fraction.isNone ∧ n.exponent.isNone ∧
      (¬n.negative ∨ 0 < digits ∧ int64Min ≤ -digits) then
    some (.int (if n.negative then -digits else digits))
  else
    let fraction := n.fraction.getD []
    let (digits, leftFraction) := absorb digits fraction
    let taken := fraction.length - leftFraction.length
    let shift : Int := (left.length : Int) - taken
    let code? :=
      match n.exponent with
      | none => scaled? digits shift
      | some (negative, e) =>
        if e ≤ exponentMax then scaled? digits (if negative then shift - e else shift + e)
        else if digits = 0 ∨ negative then some 0
        else none
    code?.map fun c => .float ⟨n.negative, c⟩

end Numeral

/-! ### Spelling a number -/


namespace Double

/-- Doubles of at least `10 ^ leastPlain` and less than `10 ^ (mostPlain + 1)` are spelled without
an exponent. -/
def leastPlain : Int := -5

/-- See `leastPlain`. -/
def mostPlain : Int := 15

/-- Spell a decimal number: with a point and no exponent in the middle range, else with one digit
before the point and an exponent that shows its sign. -/
def Decimal.chars (d : Decimal) : List Char :=
  let ds := Nat.toDigits 10 d.digits
  if leastPlain ≤ d.exponent ∧ d.exponent ≤ mostPlain then
    if d.exponent < 0 then
      '0' :: '.' :: List.replicate (-d.exponent - 1).toNat '0' ++ ds
    else
      let before := d.exponent.toNat + 1
      let whole := ds.take before ++ List.replicate (before - ds.length) '0'
      let rest := ds.drop before
      whole ++ '.' :: (if rest.isEmpty then ['0'] else rest)
  else
    let power := Nat.toDigits 10 d.exponent.natAbs
    let sign := if d.exponent < 0 then '-' else '+'
    let head := match ds with
      | [] => []
      | [c] => [c]
      | c :: rest => c :: '.' :: rest
    head ++ 'e' :: sign :: power

/-- Spell a double with the fewest digits that read back as it. -/
def chars (d : Double) : List Char :=
  (if d.negative then ['-'] else []) ++ (shortest d.code).chars

end Double

/-- Spell a whole number. -/
def intChars (n : Int) : List Char :=
  (if n < 0 then ['-'] else []) ++ Nat.toDigits 10 n.natAbs

/-- Spell a number. -/
def Number.chars : Number → List Char
  | .int n => intChars n
  | .float d => d.chars

end PassGraph
