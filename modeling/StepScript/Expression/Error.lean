import StepScript.Expression.Datum

/-!
# Expression errors

Why an expression has no value.  Each constructor is a cause with the values it concerns;
`EvalError.message` words it.  A crash is not an error of the expression: the whole run ends there.
-/

namespace StepScript

inductive EvalError where
  | undeclared (name : String)
  | noSuchOverload
  | noSuchKey (key : String)
  | divisionByZero (value : Datum)
  | remainderByZero (value : Datum)
  | overflow (operator : String) (left right : Datum)
  | unsupportedBinary (operator : String) (left right : Datum)
  | unsupportedUnary (operator : String) (operand : Datum)
  | notComparable (left right : Datum)
  | indexOutOfBounds (index : Datum)
  | badListIndex (index : Datum)
  | badMapIndex (index : Datum)
  | badIndex (value index : Datum)
  | badKey (value : Datum)
  | argumentCount (expected actual : Nat)
  | missingTarget
  | unexpectedType (found wanted : String)
  | function (name reason : String)
  /-- There is no answer at all, not even an error. -/
  | crash

def EvalError.message : EvalError → String
  | .undeclared name => "Undeclared reference to '" ++ name ++ "'"
  | .noSuchOverload => "No such overload"
  | .noSuchKey key => "No such key: " ++ key
  | .divisionByZero v => "Division by zero of " ++ v.listing
  | .remainderByZero v => "Remainder by zero of " ++ v.listing
  | .overflow op l r =>
    "Overflow from binary operator '" ++ op ++ "': " ++ l.listing ++ ", " ++ r.listing
  | .unsupportedBinary op l r =>
    "Unsupported binary operator '" ++ op ++ "': " ++ l.listing ++ ", " ++ r.listing
  | .unsupportedUnary op v => "Unsupported unary operator '" ++ op ++ "': " ++ v.listing
  | .notComparable l r => l.listing ++ " can not be compared to " ++ r.listing
  | .indexOutOfBounds i => "Index out of bounds: " ++ i.listing
  | .badListIndex i => "Cannot use value as list index: " ++ i.listing
  | .badMapIndex i => "Cannot use value as map index: " ++ i.listing
  | .badIndex v i => "Cannot use value " ++ v.listing ++ " to index " ++ i.listing
  | .badKey v => "Unable to use value '" ++ v.listing ++ "' as a key"
  | .argumentCount expected actual =>
    "Invalid argument count: expected " ++ toString expected ++ ", got " ++ toString actual
  | .missingTarget => "Missing argument or target"
  | .unexpectedType found wanted =>
    "Unexpected type: got '" ++ found ++ "', want '" ++ wanted ++ "'"
  | .function name reason => "Error executing function '" ++ name ++ "': " ++ reason
  | .crash => "crash"

end StepScript
