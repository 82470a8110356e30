import StepScript.Expression.Alias
import StepScript.Expression.Token
import StepScript.Expression.Tree

/-!
# Expression reader — trees from tokens

A rule takes tokens and returns a tree and the tokens after it.  The rules for the levels of
precedence are built over a rule for whole expressions, which stands for everything between
brackets; `expression` ties the knot, and its argument is the number of expressions that may still be
nested in each other.

* `Expr.read` reads a whole text, aliases written out;
* a chain of one logical operator becomes a balanced tree;
* a run of `!` or of `-` counts as one operator.
-/

namespace StepScript

namespace ExpressionReader

open Token (SyntaxError)

abbrev Rule (α : Type) := List Token → Except SyntaxError (α × List Token)

/-- The number of expressions that may be nested in each other. -/
def maxDepth : Nat := 96

def expect (m : Mark) : List Token → Except SyntaxError (List Token)
  | .mark n :: rest => if m = n then .ok rest else .error .unexpected
  | _ => .error .unexpected

def chainFrom (op : Mark) (item : Rule Expr) : Nat → Rule (List Expr)
  | 0, tokens => .ok ([], tokens)
  | fuel + 1, tokens =>
    match tokens with
    | .mark m :: rest =>
      if m = op then do
        let (e, rest) ← item rest
        let (more, rest) ← chainFrom op item fuel rest
        return (e :: more, rest)
      else .ok ([], tokens)
    | _ => .ok ([], tokens)

/-- Join the operands of a chain: the left half takes the odd one. -/
def balance (op : LogicalOp) : Nat → Expr → List Expr → Expr
  | _, first, [] => first
  | 0, first, _ => first
  | fuel + 1, first, rest =>
    let size := rest.length / 2
    match rest.drop size with
    | [] => first
    | middle :: right =>
      .logical op (balance op fuel first (rest.take size)) (balance op fuel middle right)

def chain (op : LogicalOp) (mark : Mark) (item : Rule Expr) : Rule Expr := fun tokens => do
  let (first, rest) ← item tokens
  let (more, rest) ← chainFrom mark item rest.length rest
  return (balance op more.length first more, rest)

def leftFrom (operator? : Token → Option BinaryOp) (item : Rule Expr) : Nat → Expr → Rule Expr
  | 0, left, tokens => .ok (left, tokens)
  | fuel + 1, left, tokens =>
    match tokens with
    | token :: rest =>
      match operator? token with
      | some op => do
        let (right, rest) ← item rest
        leftFrom operator? item fuel (.binary op left right) rest
      | none => .ok (left, tokens)
    | [] => .ok (left, [])

def leftLevel (operator? : Token → Option BinaryOp) (item : Rule Expr) : Rule Expr :=
  fun tokens => do
    let (first, rest) ← item tokens
    leftFrom operator? item rest.length first rest

def relation? : Token → Option BinaryOp
  | .mark .equal => some .equal
  | .mark .notEqual => some .notEqual
  | .mark .less => some .less
  | .mark .lessEqual => some .lessEqual
  | .mark .greater => some .greater
  | .mark .greaterEqual => some .greaterEqual
  | .within => some .within
  | _ => none

def additive? : Token → Option BinaryOp
  | .mark .plus => some .add
  | .mark .minus => some .subtract
  | _ => none

def multiplicative? : Token → Option BinaryOp
  | .mark .times => some .multiply
  | .mark .over => some .divide
  | .mark .remainder => some .remainder
  | _ => none

/-! ## Macros -/

def boundVariable : Expr → Except SyntaxError String
  | .reference name => .ok name
  | _ => .error .badMacro

def methodCall (target : Expr) (function : String) (args : List Expr) :
    Except SyntaxError Expr :=
  let fold (kind : Macro) (item : Expr) (keep : Option Expr) (body : Expr) := do
    return Expr.fold kind target (← boundVariable item) keep body
  match args with
  | [v, p] =>
    if function == "all" then fold .all v none p
    else if function == "exists" then fold .any v none p
    else if function == "exists_one" || function == "existsOne" then fold .exactlyOne v none p
    else if function == "map" then fold .map v none p
    else if function == "filter" then fold .filter v none p
    else .ok (.method target function args)
  | [v, p, f] =>
    if function == "map" then fold .map v (some p) f
    else .ok (.method target function args)
  | _ => .ok (.method target function args)

def plainCall (function : String) (args : List Expr) : Except SyntaxError Expr :=
  match args with
  | [arg] =>
    if function == "has" then
      match arg with
      | .select operand field => .ok (.has operand field)
      | _ => .error .badMacro
    else .ok (.call function args)
  | _ => .ok (.call function args)

/-! ## Lists between brackets -/

def items {α : Type} (item : Rule α) : Nat → Rule (List α)
  | 0, _ => .error .unexpected
  | fuel + 1, tokens => do
    let (first, rest) ← item tokens
    match rest with
    | .mark .comma :: rest' =>
      -- a comma before a closing bracket belongs to the bracket
      match rest' with
      | .mark .closeBracket :: _ => return ([first], rest)
      | .mark .closeBrace :: _ => return ([first], rest)
      | _ =>
        let (more, rest) ← items item fuel rest'
        return (first :: more, rest)
    | _ => return ([first], rest)

/-- Items up to a closing bracket; a last comma may stand before it. -/
def itemsUpTo {α : Type} (close : Mark) (item : Rule α) : Rule (List α) := fun tokens =>
  let finish (found : List α) (tokens : List Token) := do
    let tokens := match tokens with
      | .mark .comma :: rest => rest
      | tokens => tokens
    return (found, ← expect close tokens)
  match tokens with
  | .mark m :: _ =>
    if m = close || m = .comma then finish [] tokens
    else do
      let (found, rest) ← items item tokens.length tokens
      finish found rest
  | _ => do
    let (found, rest) ← items item tokens.length tokens
    finish found rest

def arguments (expression : Rule Expr) : Rule (List Expr) := fun tokens =>
  match tokens with
  | .mark .closeParen :: rest => .ok ([], rest)
  | _ => do
    let (args, rest) ← items expression tokens.length tokens
    return (args, ← expect .closeParen rest)

def entry (expression : Rule Expr) : Rule (Expr × Expr) := fun tokens => do
  let (key, rest) ← expression tokens
  let rest ← expect .colon rest
  let (value, rest) ← expression rest
  return ((key, value), rest)

def field (expression : Rule Expr) : Rule Unit := fun tokens =>
  let after (rest : List Token) := do
    let rest ← expect .colon rest
    let (_, rest) ← expression rest
    return ((), rest)
  match tokens with
  | .name _ :: rest => after rest
  | .quotedName _ :: rest => after rest
  | _ => .error .unexpected

/-- The tokens after the opening brace, if a name with dots and then a brace stand here. -/
def messageBrace? : List Token → Option (List Token)
  | .name _ :: .mark .openBrace :: rest => some rest
  | .name _ :: .mark .dot :: rest => messageBrace? rest
  | _ => none

/-! ## Levels of precedence -/

/-- An integer with its sign, which has to fit a signed word.  A sign and hexadecimal digits do not
go together. -/
def signedInteger (negative : Bool) (value : Nat) (hexadecimal : Bool) :
    Except SyntaxError Expr :=
  if negative then
    if hexadecimal || value > twoPow 63 then .error .badLiteral
    else .ok (.literal (.int (-(value : Int))))
  else if value < twoPow 63 then .ok (.literal (.int value))
  else .error .badLiteral

def named (expression : Rule Expr) (dotted : Bool) : Rule Expr := fun tokens =>
  match messageBrace? tokens with
  | some rest => do
    let (_, rest) ← itemsUpTo .closeBrace (field expression) rest
    return (.message "", rest)
  | none =>
    match tokens with
    | .name f :: .mark .openParen :: rest => do
      let (args, rest) ← arguments expression rest
      return (← plainCall (if dotted then "." ++ f else f) args, rest)
    | .name v :: rest => .ok (.reference v, rest)
    | _ => .error .unexpected

def primary (expression : Rule Expr) : Rule Expr := fun tokens =>
  match tokens with
  | .mark .dot :: rest => named expression true rest
  | .name _ :: _ => named expression false tokens
  | .mark .openParen :: rest => do
    let (e, rest) ← expression rest
    return (e, ← expect .closeParen rest)
  | .mark .openBracket :: rest => do
    let (found, rest) ← itemsUpTo .closeBracket expression rest
    return (.list found, rest)
  | .mark .openBrace :: rest => do
    let (found, rest) ← itemsUpTo .closeBrace (entry expression) rest
    return (.map found, rest)
  | .mark .minus :: .integer n hex :: rest => do return (← signedInteger true n hex, rest)
  | .mark .minus :: .float x :: rest => .ok (.literal (.double x.neg), rest)
  | .integer n hex :: rest => do return (← signedInteger false n hex, rest)
  | .unsigned n :: rest => .ok (.literal (.uint n), rest)
  | .float x :: rest => .ok (.literal (.double x), rest)
  | .string s :: rest => .ok (.literal (.string s), rest)
  | .bytes b :: rest => .ok (.literal (.bytes b), rest)
  | .truth b :: rest => .ok (.literal (.bool b), rest)
  | .null :: rest => .ok (.literal .null, rest)
  | _ => .error .unexpected

def suffixes (expression : Rule Expr) : Nat → Expr → Rule Expr
  | 0, e, tokens => .ok (e, tokens)
  | fuel + 1, e, tokens =>
    match tokens with
    | .mark .dot :: .name f :: .mark .openParen :: rest => do
      let (args, rest) ← arguments expression rest
      suffixes expression fuel (← methodCall e f args) rest
    | .mark .dot :: .name f :: rest => suffixes expression fuel (.select e f) rest
    | .mark .dot :: .quotedName f :: rest => suffixes expression fuel (.select e f) rest
    -- nothing but a name can follow a dot
    | .mark .dot :: _ => .error .unexpected
    | .mark .openBracket :: rest => do
      let (i, rest) ← expression rest
      let rest ← expect .closeBracket rest
      suffixes expression fuel (.binary .index e i) rest
    | _ => .ok (e, tokens)

def member (expression : Rule Expr) : Rule Expr := fun tokens => do
  let (e, rest) ← primary expression tokens
  suffixes expression rest.length e rest

def afterRun (m : Mark) : List Token → List Token
  | .mark n :: rest => if m = n then afterRun m rest else .mark n :: rest
  | tokens => tokens

/-- An operand after `!` or `-`.  A minus sign right before a number belongs to the number, unless
it is one of several. -/
def unary (expression : Rule Expr) : Rule Expr := fun tokens =>
  match tokens with
  | .mark .not :: rest => do
    let (e, rest) ← member expression (afterRun .not rest)
    return (.unary .not e, rest)
  -- the number takes the sign, and selections apply to the negative number
  | .mark .minus :: .integer _ _ :: _ => member expression tokens
  | .mark .minus :: .float _ :: _ => member expression tokens
  | .mark .minus :: rest => do
    let (e, rest) ← member expression (afterRun .minus rest)
    return (.unary .minus e, rest)
  | _ => member expression tokens

def disjunction (expression : Rule Expr) : Rule Expr :=
  let product := leftLevel multiplicative? (unary expression)
  let sum := leftLevel additive? product
  let relation := leftLevel relation? sum
  chain .or .or (chain .and .and relation)

/-- An expression of which at most `depth` may be nested in each other. -/
def expression : Nat → Rule Expr
  | 0, _ => .error .tooDeep
  | depth + 1, tokens => do
    let (test, rest) ← disjunction (expression depth) tokens
    match rest with
    | .mark .question :: rest => do
      -- between `?` and `:` a conditional needs parentheses
      let (yes, rest) ← disjunction (expression depth) rest
      let rest ← expect .colon rest
      let (no, rest) ← expression depth rest
      return (.conditional test yes no, rest)
    | _ => return (test, rest)

end ExpressionReader

/-- Read an expression from text in which the aliases are written out. -/
def Expr.ofText (text : String) : Except Token.SyntaxError Expr := do
  let tokens ← Token.scan text
  let (e, rest) ← ExpressionReader.expression ExpressionReader.maxDepth tokens
  if rest.isEmpty then return e else throw .unexpected

end StepScript
