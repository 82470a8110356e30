import StepScript.Number.Binary64

/-!
# Reading — numbers from decimal text

Integers are an optional sign and digits of a radix, and have to fit a range.  Floats are an
optional sign and either one of the words for infinities and NaNs, in any case, or digits with at
most one point and an optional exponent.  No blanks and no separators are allowed.
-/

namespace StepScript

namespace Reading

inductive ReadError where
  | emptyInteger
  | invalidDigit
  | tooLarge
  | tooSmall
  | emptyFloat
  | invalidFloat
  deriving DecidableEq

def ReadError.message : ReadError → String
  | .emptyInteger => "cannot parse integer from empty string"
  | .invalidDigit => "invalid digit found in string"
  | .tooLarge => "number too large to fit in target type"
  | .tooSmall => "number too small to fit in target type"
  | .emptyFloat => "cannot parse float from empty string"
  | .invalidFloat => "invalid float literal"

/-! ## Integers -/

def digit? (radix : Nat) (c : Char) : Option Nat :=
  let d? :=
    if '0' ≤ c && c ≤ '9' then some (c.toNat - '0'.toNat)
    else if 'a' ≤ c && c ≤ 'f' then some (c.toNat - 'a'.toNat + 10)
    else if 'A' ≤ c && c ≤ 'F' then some (c.toNat - 'A'.toNat + 10)
    else none
  d?.filter (· < radix)

/-- The value of a run of digits; `none` if some character is not a digit. -/
def digits? (radix : Nat) : Nat → List Char → Option Nat
  | n, [] => some n
  | n, c :: rest =>
    match digit? radix c with
    | some d => digits? radix (n * radix + d) rest
    | none => none

/-- Read an integer between `low` and `high`.  A minus sign is a bad digit where no negative
number is allowed. -/
def integer (radix : Nat) (low high : Int) (cs : List Char) : Except ReadError Int :=
  let finish (negative : Bool) (cs : List Char) : Except ReadError Int :=
    match cs with
    | [] => .error .invalidDigit
    | _ =>
      match digits? radix 0 cs with
      | none => .error .invalidDigit
      | some n =>
        let value : Int := if negative then -(n : Int) else n
        if value > high then .error .tooLarge
        else if value < low then .error .tooSmall
        else .ok value
  match cs with
  | [] => .error .emptyInteger
  | '+' :: rest => finish false rest
  | '-' :: rest => if low < 0 then finish true rest else .error .invalidDigit
  | cs => finish false cs

def signed64 (radix : Nat) (cs : List Char) : Except ReadError Int :=
  integer radix (-twoPow 63) (twoPow 63 - 1) cs

def unsigned64 (radix : Nat) (cs : List Char) : Except ReadError Int :=
  integer radix 0 (twoPow 64 - 1) cs

/-! ## Floats -/

/-- The digits, in order, of a run of decimal digits as a number. -/
def decimalValue (cs : List Char) : Nat :=
  cs.foldl (fun n c => n * 10 + (c.toNat - '0'.toNat)) 0

def exponent? (cs : List Char) : Option Int :=
  let (negative, cs) := match cs with
    | '+' :: rest => (false, rest)
    | '-' :: rest => (true, rest)
    | cs => (false, cs)
  if cs.isEmpty || !cs.all Char.isDigit then none
  else some (if negative then -(decimalValue cs : Int) else decimalValue cs)

def unsignedFloat? (negative : Bool) (cs : List Char) : Option Binary64 :=
  let whole := cs.takeWhile Char.isDigit
  let rest := cs.dropWhile Char.isDigit
  let (fraction, rest) := match rest with
    | '.' :: rest => (rest.takeWhile Char.isDigit, rest.dropWhile Char.isDigit)
    | rest => ([], rest)
  if whole.isEmpty && fraction.isEmpty then none
  else
    let exponent? := match rest with
      | [] => some 0
      | 'e' :: rest => exponent? rest
      | 'E' :: rest => exponent? rest
      | _ => none
    exponent?.map fun e =>
      Binary64.ofDecimal negative (decimalValue (whole ++ fraction)) (e - fraction.length)

def float (cs : List Char) : Except ReadError Binary64 :=
  let (negative, body) := match cs with
    | '+' :: rest => (false, rest)
    | '-' :: rest => (true, rest)
    | cs => (false, cs)
  let word := String.ofList (body.map Char.toLower)
  if cs.isEmpty then .error .emptyFloat
  else if word == "inf" || word == "infinity" then .ok (Binary64.infinity negative)
  else if word == "nan" then .ok Binary64.nan
  else
    match unsignedFloat? negative body with
    | some x => .ok x
    | none => .error .invalidFloat

end Reading

end StepScript
