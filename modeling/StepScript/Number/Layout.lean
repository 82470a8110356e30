import StepScript.Number.Shortest

/-!
# Layout — how a decimal is laid out as text

The same shortest digits appear in four layouts: in JSON text, in YAML text, as plain decimal text
and in the listings of expression errors.  A `Layout` says for which exponents the point is written
in place, whether a whole number keeps a `.0`, and how an exponent is written otherwise.
-/

namespace StepScript

/-- The decisions of one number format. -/
structure Layout where
  /-- The least and greatest exponent of the leading digit that are written in place, if bounded. -/
  positional : Option (Int × Int)
  /-- Whole numbers end in `.0`. -/
  keepPoint : Bool
  /-- Positive exponents carry a plus sign. -/
  plusSign : Bool
  /-- The texts of an infinity (without its sign) and of a NaN. -/
  infinite : String
  notANumber : String

namespace Layout

/-- Numbers in JSON text: in place from `1e-5` to below `1e16`, then `1e+16`. -/
def json : Layout := ⟨some (-5, 15), true, true, "null", "null"⟩

/-- Numbers in YAML text: in place over the same range, then `1e16`. -/
def yaml : Layout := ⟨some (-5, 15), true, false, ".inf", ".nan"⟩

/-- Numbers in the listings of expression errors: in place from `1e-4` to below `1e16`. -/
def listing : Layout := ⟨some (-4, 15), true, false, "inf", "NaN"⟩

/-- Numbers turned into text by an expression: always in place, whole numbers without a point. -/
def plain : Layout := ⟨none, false, false, "inf", "NaN"⟩

def placed (l : Layout) (d : Decimal) : List Char :=
  let size : Int := d.digits.length
  let fractionless := if l.keepPoint then ['.', '0'] else []
  if d.point ≤ 0 then
    ['0', '.'] ++ List.replicate (-d.point).toNat '0' ++ d.digits
  else if d.point ≥ size then
    d.digits ++ List.replicate (d.point - size).toNat '0' ++ fractionless
  else
    d.digits.take d.point.toNat ++ ['.'] ++ d.digits.drop d.point.toNat

def scientific (l : Layout) (d : Decimal) : List Char :=
  let exponent := d.point - 1
  let rest := d.digits.drop 1
  let sign := if exponent < 0 then ['-'] else if l.plusSign then ['+'] else []
  d.digits.take 1 ++ (if rest.isEmpty then [] else '.' :: rest) ++ ['e'] ++ sign ++
    Nat.toDigits 10 exponent.natAbs

def decimal (l : Layout) (d : Decimal) : List Char :=
  match l.positional with
  | none => l.placed d
  | some (least, greatest) =>
    if least ≤ d.point - 1 && d.point - 1 ≤ greatest then l.placed d else l.scientific d

def render (l : Layout) (x : Binary64) : String :=
  if x.isNaN then l.notANumber
  else
    let sign := if x.isNegative then "-" else ""
    if !x.isFinite then sign ++ l.infinite
    else if x.isZero then sign ++ (if l.keepPoint then "0.0" else "0")
    else sign ++ String.ofList (l.decimal x.shortest)

end Layout

end StepScript
