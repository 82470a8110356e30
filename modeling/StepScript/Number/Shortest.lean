import StepScript.Number.Binary64

/-!
# Shortest — the fewest decimal digits that read back

`Binary64.shortest` writes a positive finite number with the fewest significant decimal digits such
that the decimal is nearer to the number than to any other, and takes the nearest decimal of that
length.  The search tries one digit, then two, and so on up to seventeen, which always suffice; for
each length only the two neighbours of the number on that decimal grid can qualify.
-/

namespace StepScript

/-- Significant decimal digits and the place of the point: the value is `0.d₁d₂…` times ten to the
power `point`. -/
structure Decimal where
  digits : List Char
  point : Int
  deriving DecidableEq

namespace Binary64

/-- Positive rationals are compared across denominators. -/
private def ratioLe (a b : Nat × Nat) : Bool :=
  a.1 * b.2 ≤ b.1 * a.2

private def tenfold (n : Nat) (p : Int) : Nat × Nat :=
  if p ≥ 0 then (n * tenPow p.toNat, 1) else (n, tenPow (-p).toNat)

private def twofold (n : Nat) (e : Int) : Nat × Nat :=
  if e ≥ 0 then (n * twoPow e.toNat, 1) else (n, twoPow (-e).toNat)

def leadingPower (v : Nat × Nat) : Int :=
  let guess : Int := Int.fdiv (((v.1.log2 : Int) - v.2.log2) * 30103) 100000
  let up := if ratioLe (tenfold 1 (guess + 1)) v then guess + 1 else guess
  if ratioLe (tenfold 1 up) v then up else up - 1

/-- The reals that round to a positive finite number, in units of a quarter of its last place: the
lower end, the number itself and the upper end, with the power of two of the unit.  Below a power
of two the spacing halves. -/
def roundingInterval (x : Binary64) : Nat × Nat × Nat × Int :=
  let (m, e) := x.magnitude
  let lower := if x.fraction = 0 && x.exponentField > 1 then 4 * m - 1 else 4 * m - 2
  (lower, 4 * m, 4 * m + 2, e - 2)

/-- The best decimal with its last digit at the power `p`, if one reads back as the number. -/
private def onGrid (x : Binary64) (p : Int) : Option Nat :=
  let (low, value, high, unit) := x.roundingInterval
  let even := x.magnitude.1 % 2 == 0
  let v := twofold value unit
  let step := tenfold 1 p
  let below := (v.1 * step.2) / (v.2 * step.1)
  let inside (n : Nat) : Bool :=
    let c := tenfold n p
    let l := twofold low unit
    let h := twofold high unit
    -- the ends of the interval round to the even coefficient
    if even then ratioLe l c && ratioLe c h else !ratioLe c l && !ratioLe h c
  let above := below + 1
  match inside below && below != 0, inside above with
  | true, true =>
    -- the nearer neighbour: twice the number against the sum of both
    let twice := (2 * v.1, v.2)
    let sum := tenfold (below + above) p
    if ratioLe twice sum then some below else some above
  | true, false => some below
  | false, true => some above
  | false, false => none

private def search (x : Binary64) (lead : Int) : Nat → Nat → Nat × Int
  | 0, size => ((onGrid x (lead - size)).getD 0, lead - size)
  | fuel + 1, size =>
    match onGrid x (lead - size) with
    | some n => (n, lead - size)
    | none => search x lead fuel (size + 1)

private def trimZeros (digits : List Char) : List Char :=
  (digits.reverse.dropWhile (· == '0')).reverse

def shortest (x : Binary64) : Decimal :=
  let (m, e) := x.magnitude
  let (n, p) := search x (leadingPower (twofold m e)) 17 0
  let digits := Nat.toDigits 10 n
  { digits := trimZeros digits, point := p + digits.length }

end Binary64

end StepScript
