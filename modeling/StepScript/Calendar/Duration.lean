import StepScript.Number.Reading
import StepScript.Text.Listing

/-!
# Duration — signed lengths of time

A duration is a number of nanoseconds.  It is read from numbers with units (`1h30m`, `-1.5ms`),
the sum of all of them, and written with the largest units first, without units that are zero.
-/

namespace StepScript

structure Duration where
  nanos : Int
  deriving DecidableEq

namespace Duration

def perSecond : Int := tenPow 9

/-- The longest duration on either side: the milliseconds of a signed 64-bit word. -/
def limit : Int := (twoPow 63 - 1) * tenPow 6

/-- The duration of `nanos` nanoseconds, unless it is too long. -/
def ofNanos? (nanos : Int) : Option Duration :=
  if -limit ≤ nanos && nanos ≤ limit then some ⟨nanos⟩ else none

/-- The whole number of units of a duration, rounded toward zero. -/
def whole (d : Duration) (unit : Int) : Int :=
  d.nanos.tdiv unit

/-! ## Reading -/

/-- Why a text is not a duration, with what is left of the text. -/
inductive ReadError where
  | noNumber (rest : String)
  | noUnit (rest : String)
  | noExponent (rest : String)
  deriving DecidableEq

def ReadError.message : ReadError → String
  | .noNumber rest => report "Error" rest "Float"
  | .noUnit rest => report "Error" rest "Char"
  | .noExponent rest => report "Failure" rest "Digit"
where
  /-- What failed, where, and what was expected there. -/
  report (what rest expected : String) : String :=
    "Parsing " ++ what ++ ": Error \x7b input: " ++ Listing.quote rest ++ ", code: " ++ expected ++
      " \x7d"

def afterWord? (word cs : List Char) : Option (List Char) :=
  if (cs.take word.length).map Char.toLower = word then some (cs.drop word.length) else none

def exponentLength (cs : List Char) : Except ReadError Nat :=
  match cs with
  | c :: rest =>
    if c = 'e' || c = 'E' then
      let sign := match rest with
        | s :: _ => if s = '+' || s = '-' then 1 else 0
        | [] => 0
      let digits := (rest.drop sign).takeWhile Char.isDigit
      if digits.isEmpty then .error (.noExponent (String.ofList (rest.drop sign)))
      else .ok (1 + sign + digits.length)
    else .ok 0
  | [] => .ok 0

/-- The length of the digits and the point at the front of a text; zero if there are none. -/
def coefficientLength (cs : List Char) : Nat :=
  let whole := cs.takeWhile Char.isDigit
  match cs.dropWhile Char.isDigit with
  | '.' :: rest =>
    let fraction := rest.takeWhile Char.isDigit
    if whole.isEmpty && fraction.isEmpty then 0 else whole.length + 1 + fraction.length
  | _ => whole.length

def number (cs : List Char) : Except ReadError (Binary64 × List Char) := do
  let sign := match cs with
    | s :: _ => if s = '+' || s = '-' then 1 else 0
    | [] => 0
  let size := coefficientLength (cs.drop sign)
  if size = 0 then
    match afterWord? ['n', 'a', 'n'] cs, afterWord? ['i', 'n', 'f'] cs with
    | some rest, _ => return (Binary64.nan, rest)
    | none, some rest => return (Binary64.infinity false, rest)
    | none, none => throw (.noNumber (String.ofList cs))
  else
    let more ← exponentLength (cs.drop (sign + size))
    match Reading.float (cs.take (sign + size + more)) with
    | .ok x => return (x, cs.drop (sign + size + more))
    | .error _ => throw (.noNumber (String.ofList (cs.drop (sign + size + more))))

def unit? : List Char → Option (Int × List Char)
  | 'm' :: 's' :: rest => some (tenPow 6, rest)
  | 'u' :: 's' :: rest => some (tenPow 3, rest)
  | 'n' :: 's' :: rest => some (1, rest)
  | 'h' :: rest => some (3600 * perSecond, rest)
  | 'm' :: rest => some (60 * perSecond, rest)
  | 's' :: rest => some (perSecond, rest)
  | _ => none

/-- Read a number and its unit.  The product is cut to whole nanoseconds and to a signed word. -/
def part (cs : List Char) : Except ReadError (Int × List Char) := do
  let (x, rest) ← number cs
  match unit? rest with
  | some (unit, rest) => return ((x.mul (Binary64.ofInt unit)).clamp (-twoPow 63) (twoPow 63 - 1), rest)
  | none => throw (.noUnit (String.ofList rest))

/-- Add up the parts that follow, as long as there are any.  Every part takes characters, so the
length of the text bounds `fuel`. -/
def moreParts : Nat → Int → List Char → Except ReadError Int
  | 0, sum, _ => .ok sum
  | fuel + 1, sum, cs =>
    match part cs with
    | .ok (n, rest) => moreParts fuel (sum + n) rest
    | .error (.noExponent rest) => .error (.noExponent rest)
    | .error _ => .ok sum

/-- Read a duration.  What follows the last part is not looked at. -/
def read (text : String) : Except ReadError Duration := do
  let (negative, cs) := match text.toList with
    | '-' :: rest => (true, rest)
    | cs => (false, cs)
  if cs = ['0'] then return ⟨0⟩
  let (first, rest) ← part cs
  let sum ← moreParts rest.length first rest
  return ⟨if negative then -sum else sum⟩

/-! ## Writing -/

def fractionDigits (n places : Nat) : List Char :=
  let digits := Nat.toDigits 10 (n % tenPow places)
  let padded := List.replicate (places - digits.length) '0' ++ digits
  (padded.reverse.dropWhile (· == '0')).reverse

def decimal (n places : Nat) : String :=
  let fraction := fractionDigits n places
  toString (n / tenPow places) ++ (if fraction.isEmpty then "" else "." ++ String.ofList fraction)

/-- The text of a duration: less than a second in one unit, more than that in hours, minutes and
seconds, starting with the first that is not zero. -/
def text (d : Duration) : String :=
  let n := d.nanos.natAbs
  let sign := if d.nanos < 0 then "-" else ""
  if n = 0 then "0s"
  else if n < tenPow 3 then sign ++ toString n ++ "ns"
  else if n < tenPow 6 then sign ++ decimal n 3 ++ "us"
  else if n < tenPow 9 then sign ++ decimal n 6 ++ "ms"
  else
    let seconds := n / tenPow 9
    let last := decimal (n % (60 * tenPow 9)) 9 ++ "s"
    if seconds < 60 then sign ++ last
    else if seconds < 3600 then sign ++ toString (seconds / 60) ++ "m" ++ last
    else sign ++ toString (seconds / 3600) ++ "h" ++ toString (seconds / 60 % 60) ++ "m" ++ last

def period (d : Duration) : String :=
  let n := d.nanos.natAbs
  if n = 0 then "P0D"
  else (if d.nanos < 0 then "-" else "") ++ "PT" ++ decimal n 9 ++ "S"

/-- The fields shown in an error: whole seconds rounded down, and the nanoseconds above them. -/
def listing (d : Duration) : String :=
  "TimeDelta \x7b secs: " ++ toString (d.nanos / perSecond) ++ ", nanos: " ++
    toString (d.nanos % perSecond) ++ " \x7d"

end Duration

end StepScript
