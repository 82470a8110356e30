import StepScript.Number.Power

/-!
# Binary64 — double-precision numbers

A `Binary64` is one of the `2 ^ 64` words of the double-precision format.  Every operation is
defined on the exact value of its operands, a dyadic rational, and rounded once to the nearest
representable number, ties to the even coefficient.  Nothing here uses the machine's floating-point
unit, so closed statements about these numbers can be decided by evaluation.

* `Binary64.ofRatio` is the only place where a value is rounded;
* `Binary64.magnitude` is the exact value of a finite word, as a coefficient and a power of two;
* `Binary64.compare?` orders the numbers, with no order for a NaN.
-/

namespace StepScript

/-- A double-precision number, given by its word. -/
structure Binary64 where
  bits : UInt64
  deriving DecidableEq

namespace Binary64

/-! ## The fields of a word -/

def isNegative (x : Binary64) : Bool :=
  x.bits.toNat ≥ twoPow 63

def exponentField (x : Binary64) : Nat :=
  x.bits.toNat / twoPow 52 % twoPow 11

def fraction (x : Binary64) : Nat :=
  x.bits.toNat % twoPow 52

/-- All exponent bits set marks infinities and NaNs. -/
def isFinite (x : Binary64) : Bool :=
  x.exponentField != 2047

def isNaN (x : Binary64) : Bool :=
  !x.isFinite && x.fraction != 0

def isZero (x : Binary64) : Bool :=
  x.bits.toNat % twoPow 63 == 0

/-- The coefficient `m` and the power `e` with `|x| = m * 2 ^ e`, for a finite `x`. -/
def magnitude (x : Binary64) : Nat × Int :=
  if x.exponentField = 0 then (x.fraction, -1074)
  else (x.fraction + twoPow 52, (x.exponentField : Int) - 1075)

def withSign (negative : Bool) (low : Nat) : Binary64 :=
  ⟨UInt64.ofNat (if negative then low + twoPow 63 else low)⟩

def zero (negative : Bool) : Binary64 :=
  withSign negative 0

def infinity (negative : Bool) : Binary64 :=
  withSign negative (2047 * twoPow 52)

/-- The NaN that operations without a value yield. -/
def nan : Binary64 :=
  withSign false (2047 * twoPow 52 + twoPow 51)

/-! ## Rounding -/

/-- Divide and round to the nearest integer, ties to the even one. -/
def divideToEven (num den : Nat) : Nat :=
  let q := num / den
  let r := num % den
  if 2 * r > den || (2 * r == den && q % 2 == 1) then q + 1 else q

/-- `num * 2 ^ (-e) / den`, rounded to the nearest integer, ties to the even one. -/
def scaledQuotient (num den : Nat) (e : Int) : Nat :=
  if e ≥ 0 then divideToEven num (den * twoPow e.toNat)
  else divideToEven (num * twoPow (-e).toNat) den

/-- The word of a rounded coefficient `q ≤ 2 ^ 53` at the power `e ≥ -1074`.  A coefficient that
rounded up to `2 ^ 53` carries into the exponent field, and past the largest power the result is
infinite. -/
def ofCoefficient (negative : Bool) (q : Nat) (e : Int) : Binary64 :=
  if q < twoPow 52 then withSign negative q
  else
    let low := (e + 1074).toNat * twoPow 52 + q
    if low ≥ 2047 * twoPow 52 then infinity negative else withSign negative low

/-- The number nearest to `num / den`, with the given sign.

The power is chosen so that the rounded coefficient has fifty-three bits, or is the least one when
the quotient is subnormal. -/
def ofRatio (negative : Bool) (num den : Nat) : Binary64 :=
  if num = 0 then zero negative
  else
    -- told from the lengths of both numbers, the power is right or one too high
    let guess : Int := (num.log2 : Int) - den.log2 - 52
    let fits (e : Int) : Bool :=
      if e ≥ 0 then num < den * twoPow (e.toNat + 53)
      else num * twoPow (-e).toNat < den * twoPow 53
    let e := if fits (guess - 1) then guess - 1 else guess
    let e := max e (-1074)
    ofCoefficient negative (scaledQuotient num den e) e

def ofDyadic (negative : Bool) (coefficient : Nat) (power : Int) : Binary64 :=
  if power ≥ 0 then ofRatio negative (coefficient * twoPow power.toNat) 1
  else ofRatio negative coefficient (twoPow (-power).toNat)

def ofInt (n : Int) : Binary64 :=
  ofRatio (n < 0) n.natAbs 1

/-- The number nearest to `digits * 10 ^ power`.  Powers far outside the range of the format are
settled without computing them: `size` bounds the number of digits. -/
def ofDecimal (negative : Bool) (digits : Nat) (power : Int) : Binary64 :=
  let size : Int := digits.log2 / 3 + 1
  if digits = 0 then zero negative
  else if power > 400 then infinity negative
  else if power + size < -400 then zero negative
  else if power ≥ 0 then ofRatio negative (digits * tenPow power.toNat) 1
  else ofRatio negative digits (tenPow (-power).toNat)

/-! ## Arithmetic -/

def neg (x : Binary64) : Binary64 :=
  withSign (!x.isNegative) (x.bits.toNat % twoPow 63)

/-- The coefficient of a finite number at the power `e`, which is at most its own. -/
def coefficientAt (x : Binary64) (e : Int) : Int :=
  let (m, p) := x.magnitude
  let n : Int := m * twoPow (p - e).toNat
  if x.isNegative then -n else n

/-- The sum.  An exact zero is positive unless both operands are negative zeros. -/
def add (x y : Binary64) : Binary64 :=
  if x.isNaN || y.isNaN then nan
  else if !x.isFinite then
    if !y.isFinite && x.isNegative != y.isNegative then nan else x
  else if !y.isFinite then y
  else
    let e := min x.magnitude.2 y.magnitude.2
    -- at the smaller power both operands are integers
    let sum := x.coefficientAt e + y.coefficientAt e
    if sum = 0 then zero (x.isNegative && y.isNegative)
    else ofDyadic (sum < 0) sum.natAbs e

def sub (x y : Binary64) : Binary64 :=
  x.add y.neg

def mul (x y : Binary64) : Binary64 :=
  let negative := x.isNegative != y.isNegative
  if x.isNaN || y.isNaN then nan
  else if !x.isFinite || !y.isFinite then
    if x.isZero || y.isZero then nan else infinity negative
  else
    let (m, e) := x.magnitude
    let (n, f) := y.magnitude
    ofDyadic negative (m * n) (e + f)

/-- The quotient.  A number divided by zero is infinite, zero by zero has no value. -/
def div (x y : Binary64) : Binary64 :=
  let negative := x.isNegative != y.isNegative
  if x.isNaN || y.isNaN then nan
  else if !x.isFinite then
    if !y.isFinite then nan else infinity negative
  else if !y.isFinite then zero negative
  else if y.isZero then
    if x.isZero then nan else infinity negative
  else
    let (m, e) := x.magnitude
    let (n, f) := y.magnitude
    if e ≥ f then ofRatio negative (m * twoPow (e - f).toNat) n
    else ofRatio negative m (n * twoPow (f - e).toNat)

/-! ## Order -/

/-- Infinities order above and below every finite number, NaNs have no order, and the two zeros
are equal. -/
def compare? (x y : Binary64) : Option Ordering :=
  if x.isNaN || y.isNaN then none
  else if !x.isFinite || !y.isFinite then
    let rank (z : Binary64) : Int :=
      if z.isFinite then 0 else if z.isNegative then -1 else 1
    some (compare (rank x) (rank y))
  else
    let e := min x.magnitude.2 y.magnitude.2
    some (compare (x.coefficientAt e) (y.coefficientAt e))

/-- Numeric equality: a NaN differs from everything, the two zeros are equal. -/
def eqv (x y : Binary64) : Bool :=
  x.compare? y == some .eq

/-! ## Integers -/

def truncate (x : Binary64) : Int :=
  let (m, e) := x.magnitude
  let n : Nat := if e ≥ 0 then m * twoPow e.toNat else m / twoPow (-e).toNat
  if x.isNegative then -(n : Int) else n

/-- The integer part brought into the range from `low` to `high`; a NaN counts as zero. -/
def clamp (x : Binary64) (low high : Int) : Int :=
  if x.isNaN then 0
  else if !x.isFinite then if x.isNegative then low else high
  else max low (min high x.truncate)

end Binary64

end StepScript
