/-!
# Double-precision numbers

A finite double is a sign and a *code*: the 63 low bits of its IEEE 754 pattern. The codes count the
non-negative doubles in ascending order, so comparing codes compares magnitudes, and the double
after the largest finite one would have the code `Double.infinity`.

All arithmetic is exact arithmetic on fractions of natural numbers, followed by one rounding to the
nearest double, ties to the even code.

## Main definitions

* `Double` — a sign and a code
* `Double.ratio` — the magnitude as a fraction
* `Double.nearest` — the code nearest to a fraction
* `Double.shortest` — the fewest decimal digits that read back as the same double
-/

namespace PassGraph

/-- A finite double-precision number. -/
structure Double where
  /-- Whether the sign bit is set. -/
  negative : Bool
  /-- The magnitude: exponent and fraction bits, read as one number. -/
  code : Nat
  deriving DecidableEq, Repr, Inhabited

namespace Double

/-- A power of two. -/
def twoTo (k : Nat) : Nat := Nat.pow 2 k

/-- A power of ten. -/
def tenTo (k : Nat) : Nat := Nat.pow 10 k

/-- The number of fraction bits. -/
def fractionBits : Nat := 52

/-- The code that stands for infinity: all exponent bits set, no fraction bit. -/
def infinity : Nat := 0x7FF * twoTo fractionBits

/-- The least power of two that doubles are multiples of is `2 ^ (-lowestPower)`. -/
def lowestPower : Nat := 1074

/-- `m` and `e` such that the magnitude of code `c` is `m * 2 ^ e / 2 ^ lowestPower`. -/
def significand (c : Nat) : Nat × Nat :=
  let e := c / twoTo fractionBits
  let f := c % twoTo fractionBits
  if e = 0 then (f, 0) else (f + twoTo fractionBits, e - 1)

/-- The magnitude of code `c` as numerator and denominator. -/
def ratio (c : Nat) : Nat × Nat :=
  let (m, e) := significand c
  if lowestPower ≤ e then (m * twoTo (e - lowestPower), 1) else (m, twoTo (lowestPower - e))

/-- `num / den`, rounded to the nearest whole number, ties to the even one. -/
def roundHalfEven (num den : Nat) : Nat :=
  let q := num / den
  let r := num % den
  if 2 * r < den then q
  else if den < 2 * r then q + 1
  else if q % 2 = 0 then q else q + 1

/-- The exponent `e` of `significand` for the doubles around `num / den`: the least one for which
the quotient by `2 ^ e / 2 ^ lowestPower` has no more than 53 bits before the point. -/
def scale (num den : Nat) : Nat :=
  let whole := num * twoTo lowestPower / den
  whole.log2 - fractionBits

/-- The code nearest to `num / den`, ties to the even code. Rounding up past 53 bits carries into
the exponent, which is where it belongs. From `infinity` on the result is not finite. -/
def nearest (num den : Nat) : Nat :=
  let e := scale num den
  let m := roundHalfEven (num * twoTo lowestPower) (den * twoTo e)
  e * twoTo fractionBits + m

/-- The product of two magnitudes, rounded once. -/
def mul (c d : Nat) : Nat :=
  let (cn, cd) := ratio c
  let (dn, dd) := ratio d
  nearest (cn * dn) (cd * dd)

/-- The quotient of two magnitudes, rounded once. -/
def div (c d : Nat) : Nat :=
  let (cn, cd) := ratio c
  let (dn, dd) := ratio d
  nearest (cn * dd) (cd * dn)

/-! ### Decimal digits -/

/-- A decimal number: digits and the power of ten of the first one. -/
structure Decimal where
  /-- The digits as one number. -/
  digits : Nat
  /-- The power of ten that the first digit counts. -/
  exponent : Int
  deriving DecidableEq, Repr

/-- The power of ten of the leading digit of a positive fraction no smaller than `10 ^ (-400)`. -/
def leadingPower (num den : Nat) : Int :=
  (Nat.toDigits 10 (num * tenTo 400 / den)).length - 401

/-- Whether `num / den` lies between the two halfway points around code `c`. The halfway points
themselves count when `c` is even, because ties go to even codes. -/
def rounds (c num den : Nat) : Bool :=
  let (m, e) := significand c
  -- Four times the magnitude, so that a quarter step is whole.
  let unit := twoTo e
  let low := 4 * m - (if m = twoTo fractionBits ∧ e ≠ 0 then 1 else 2)
  let high := 4 * m + 2
  let x := 4 * num * twoTo lowestPower
  if c % 2 = 0 then low * unit * den ≤ x ∧ x ≤ high * unit * den
  else low * unit * den < x ∧ x < high * unit * den

/-- The decimals of at most `n` digits next to `num / den`, from below and from above. -/
def neighbours (num den : Nat) (power : Int) (n : Nat) : Nat × Nat :=
  -- `10 ^ shift` is the weight of the last digit.
  let shift := power + 1 - n
  let q :=
    if 0 ≤ shift then num / (den * tenTo shift.toNat) else num * tenTo (-shift).toNat / den
  (q, q + 1)

/-- The numerator and denominator of `digits * 10 ^ shift`. -/
def decimalRatio (digits : Nat) (shift : Int) : Nat × Nat :=
  if 0 ≤ shift then (digits * tenTo shift.toNat, 1) else (digits, tenTo (-shift).toNat)

/-- The decimal of `n` digits that reads back as code `c`, if there is one: of two the nearer, of
two equally near the even one. -/
def withDigits (c : Nat) (n : Nat) : Option Nat :=
  let (num, den) := ratio c
  let power := leadingPower num den
  let shift := power + 1 - n
  let (low, high) := neighbours num den power n
  let fits (d : Nat) : Bool :=
    let (dn, dd) := decimalRatio d shift
    rounds c dn dd
  match fits low, fits high with
  | false, false => none
  | true, false => some low
  | false, true => some high
  | true, true =>
    -- Compare the middle of the two with the magnitude.
    let (sn, sd) := decimalRatio (low + high) shift
    let middle := sn * den
    let twice := 2 * num * sd
    if twice < middle then some low
    else if middle < twice then some high
    else if low % 2 = 0 then some low else some high

/-- Drop zeros at the end. -/
def trimZeros : Nat → Nat → Nat
  | 0, d => d
  | k + 1, d => if d % 10 = 0 ∧ d ≠ 0 then trimZeros k (d / 10) else d

/-- Try `n` digits, then more, up to seventeen. -/
def shortestFrom (c : Nat) : Nat → Nat → Decimal
  | 0, _ => ⟨0, 0⟩
  | tries + 1, n =>
    match withDigits c n with
    | some d =>
      let (num, den) := ratio c
      let power := leadingPower num den
      -- Rounding up may have made one more digit.
      let carried : Int := if d = tenTo n then 1 else 0
      ⟨trimZeros n d, power + carried⟩
    | none => shortestFrom c tries (n + 1)

/-- The fewest decimal digits that read back as the magnitude of code `c`. -/
def shortest (c : Nat) : Decimal :=
  if c = 0 then ⟨0, 0⟩ else shortestFrom c 17 1

end Double

end PassGraph
