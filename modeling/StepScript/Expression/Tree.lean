import StepScript.Expression.Literal

/-!
# Expression tree

An expression is a tree of constants, variables, operators, calls, and macros that run over the
items of a list or the keys of a map.  `Expr.mentions` says which variables it names; evaluation
looks at no others.
-/

namespace StepScript

inductive UnaryOp where
  | not
  | minus
  deriving DecidableEq

/-- Operators with two operands that are always both evaluated. -/
inductive BinaryOp where
  | add | subtract | multiply | divide | remainder
  | equal | notEqual | less | lessEqual | greater | greaterEqual
  | within
  | index
  deriving DecidableEq

inductive LogicalOp where
  | and
  | or
  deriving DecidableEq

inductive Macro where
  | all
  | any
  | exactlyOne
  | map
  | filter
  deriving DecidableEq

/-- An expression. -/
inductive Expr where
  | literal (value : Literal)
  | reference (name : String)
  | select (operand : Expr) (field : String)
  /-- Whether an operand has a field. -/
  | has (operand : Expr) (field : String)
  | unary (op : UnaryOp) (operand : Expr)
  | binary (op : BinaryOp) (left right : Expr)
  | logical (op : LogicalOp) (left right : Expr)
  | conditional (test yes no : Expr)
  | call (function : String) (args : List Expr)
  | method (target : Expr) (function : String) (args : List Expr)
  | list (items : List Expr)
  | map (entries : List (Expr × Expr))
  /-- A message of a named type, which this language has no values for. -/
  | message (name : String)
  /-- A macro over `range`.  Items that `keep` rejects are passed over. -/
  | fold (kind : Macro) (range : Expr) (item : String) (keep : Option Expr) (body : Expr)

namespace Expr

mutual

/-- The variables an expression names, those that its macros bind included. -/
def names : Expr → List String
  | .literal _ => []
  | .reference name => [name]
  | .select operand _ => operand.names
  | .has operand _ => operand.names
  | .unary _ operand => operand.names
  | .binary _ left right => left.names ++ right.names
  | .logical _ left right => left.names ++ right.names
  | .conditional test yes no => test.names ++ yes.names ++ no.names
  | .call _ args => namesOfAll args
  | .method target _ args => target.names ++ namesOfAll args
  | .list items => namesOfAll items
  | .map entries => namesOfEntries entries
  | .message _ => []
  | .fold _ range item keep body =>
    range.names ++ item :: (namesOfOption keep ++ body.names)

def namesOfAll : List Expr → List String
  | [] => []
  | e :: rest => e.names ++ namesOfAll rest

def namesOfEntries : List (Expr × Expr) → List String
  | [] => []
  | (k, v) :: rest => k.names ++ v.names ++ namesOfEntries rest

def namesOfOption : Option Expr → List String
  | none => []
  | some e => e.names

end

def mentions (e : Expr) (name : String) : Bool :=
  e.names.contains name

end Expr

end StepScript
