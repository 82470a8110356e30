import StepScript.Number.Layout

/-!
# Number — the numbers of test files

A number is an integer of the joint range of signed and unsigned 64-bit words, or a finite
double-precision number.  The two kinds stay apart: `2` and `2.0` are different numbers, print
differently and are never equal.
-/

namespace StepScript

/-- A number as test files, variables and results hold it. -/
inductive Number where
  /-- An integer that fits a signed or an unsigned 64-bit word. -/
  | integer (value : Int) (lower : -twoPow 63 ≤ value) (upper : value < twoPow 64)
  /-- A double-precision number that is neither infinite nor a NaN. -/
  | float (value : Binary64) (finite : value.isFinite = true)
  deriving DecidableEq

namespace Number

def ofInt? (n : Int) : Option Number :=
  if h : -twoPow 63 ≤ n ∧ n < twoPow 64 then some (.integer n h.1 h.2) else none

def ofBinary64? (x : Binary64) : Option Number :=
  if h : x.isFinite = true then some (.float x h) else none

def toBinary64 : Number → Binary64
  | .integer n _ _ => Binary64.ofInt n
  | .float x _ => x

/-- The number as an unsigned word: integers that are not negative only. -/
def natural? : Number → Option Nat
  | .integer n _ _ => if n ≥ 0 then some n.toNat else none
  | .float _ _ => none

/-- Zero of either kind is the one falsy number. -/
def isTruthy (n : Number) : Bool :=
  !n.toBinary64.isZero

/-- Numbers of the same kind compare by value; an integer never equals a float. -/
def equals : Number → Number → Bool
  | .integer m _ _, .integer n _ _ => m == n
  | .float x _, .float y _ => x.eqv y
  | _, _ => false

def render (l : Layout) : Number → String
  | .integer n _ _ => toString n
  | .float x _ => l.render x

def text (n : Number) : String :=
  n.render Layout.json

end Number

end StepScript
