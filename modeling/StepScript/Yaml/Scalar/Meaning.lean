import StepScript.Number.Basic
import StepScript.Number.Reading

/-!
# Meaning — what a plain scalar stands for

A plain scalar is null, a truth value, an integer, a float or text.  Integers are decimal,
hexadecimal after `0x`, octal after `0o` or binary after `0b`; digits with a needless zero before them
are text.  A tag can ask for one kind.
-/

namespace StepScript

namespace Yaml

inductive Meaning where
  | null
  | bool (value : Bool)
  | integer (value : Int)
  | float (value : Binary64)
  | text
  deriving DecidableEq

namespace Meaning

def startsSigned : List Char → Bool
  | '+' :: _ => true
  | '-' :: _ => true
  | _ => false

def afterPlus : List Char → List Char
  | '+' :: rest => rest
  | cs => cs

/-- Whether a text is nothing but digits after an optional sign, the first a needless zero. -/
def hasNeedlessZero (cs : List Char) : Bool :=
  let body := if startsSigned cs then cs.drop 1 else cs
  match body with
  | '0' :: rest => !rest.isEmpty && rest.all Char.isDigit
  | _ => false

def isNullWord (s : String) : Bool :=
  ["null", "Null", "NULL", "~"].contains s

def bool? (s : String) : Option Bool :=
  if ["true", "True", "TRUE"].contains s then some true
  else if ["false", "False", "FALSE"].contains s then some false
  else none

def unsigned? (high : Int) (cs : List Char) : Option Int :=
  let inRadix (radix : Nat) (digits : List Char) : Option Int :=
    if startsSigned digits then none else (Reading.integer radix 0 high digits).toOption
  let body := afterPlus cs
  match body with
  | '0' :: 'x' :: digits => inRadix 16 digits
  | '0' :: 'o' :: digits => inRadix 8 digits
  | '0' :: 'b' :: digits => inRadix 2 digits
  | body => if hasNeedlessZero cs then none else inRadix 10 body

def signed? (low high : Int) (cs : List Char) : Option Int :=
  let inRadix (radix : Nat) (cs : List Char) : Option Int :=
    (Reading.integer radix low high cs).toOption
  match cs with
  | '-' :: '0' :: 'x' :: digits => inRadix 16 ('-' :: digits)
  | '-' :: '0' :: 'o' :: digits => inRadix 8 ('-' :: digits)
  | '-' :: '0' :: 'b' :: digits => inRadix 2 ('-' :: digits)
  | cs => if hasNeedlessZero cs then none else inRadix 10 cs

def integer? (s : String) : Option Int :=
  let cs := s.toList
  unsigned? (twoPow 128 - 1) cs <|> signed? (-twoPow 127) (twoPow 127 - 1) cs

/-- A float: one of the words for infinities and NaNs, or a finite decimal number. -/
def float? (s : String) : Option Binary64 :=
  let cs := s.toList
  let body := afterPlus cs
  let word := String.ofList body
  if cs.head? == some '+' && startsSigned body then none
  else if [".inf", ".Inf", ".INF"].contains word then some (Binary64.infinity false)
  else if ["-.inf", "-.Inf", "-.INF"].contains s then some (Binary64.infinity true)
  else if [".nan", ".NaN", ".NAN"].contains s then some Binary64.nan
  else
    match Reading.float body with
    | .ok x => if x.isFinite then some x else none
    | .error _ => none

def ofPlain (s : String) : Meaning :=
  if s.isEmpty || isNullWord s then .null
  else
    match bool? s with
    | some b => .bool b
    | none =>
      match integer? s with
      | some n => .integer n
      | none =>
        match if hasNeedlessZero s.toList then none else float? s with
        | some x => .float x
        | none => .text

/-- The beginning of the tags for the standard kinds. -/
def standardTag (kind : String) : String :=
  "tag:yaml.org,2002:" ++ kind

def isLocalTag (tag : Option String) : Bool :=
  match tag with
  | some t => t.startsWith "!"
  | none => false

/-- What a scalar with a tag stands for; `none` if the text is not of the kind that the tag asks
for. -/
def ofTagged? (tag s : String) : Option Meaning :=
  if tag == standardTag "bool" then (bool? s).map .bool
  else if tag == standardTag "int" then (integer? s).map .integer
  else if tag == standardTag "float" then (float? s).map .float
  else if tag == standardTag "null" then (if isNullWord s then some .null else none)
  else some .text

end Meaning

end Yaml

end StepScript
