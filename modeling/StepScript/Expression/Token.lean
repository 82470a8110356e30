import StepScript.Expression.Literal

/-!
# Token — the words of an expression

An expression is cut into names, literals and marks; blanks and comments between them are dropped.
The longest token wins.
-/

namespace StepScript

inductive Mark where
  | equal | notEqual | less | lessEqual | greater | greaterEqual
  | and | or | not
  | plus | minus | times | over | remainder
  | openParen | closeParen | openBracket | closeBracket | openBrace | closeBrace
  | dot | comma | colon | question
  deriving DecidableEq

inductive Token where
  | name (text : String)
  /-- A name between back quotes, which are part of the text. -/
  | quotedName (text : String)
  | integer (value : Nat) (hexadecimal : Bool)
  | unsigned (value : Nat)
  | float (value : Binary64)
  | string (value : String)
  | bytes (value : List UInt8)
  | mark (mark : Mark)
  /-- The word `in`. -/
  | within
  | truth (value : Bool)
  | null
  deriving DecidableEq

namespace Token

inductive SyntaxError where
  | badCharacter
  | badLiteral
  | unexpected
  | tooDeep
  | badMacro
  deriving DecidableEq

def startsName (c : Char) : Bool :=
  c.isAlpha || c == '_'

def continuesName (c : Char) : Bool :=
  c.isAlphanum || c == '_'

def isBlank (c : Char) : Bool :=
  c == ' ' || c == '\t' || c == '\r' || c == '\n' || c == '\x0c'

def ofName (text : String) : Token :=
  if text == "in" then .within
  else if text == "true" then .truth true
  else if text == "false" then .truth false
  else if text == "null" then .null
  else .name text

def markAt? : List Char → Option (Mark × Nat)
  | '=' :: '=' :: _ => some (.equal, 2)
  | '!' :: '=' :: _ => some (.notEqual, 2)
  | '<' :: '=' :: _ => some (.lessEqual, 2)
  | '>' :: '=' :: _ => some (.greaterEqual, 2)
  | '&' :: '&' :: _ => some (.and, 2)
  | '|' :: '|' :: _ => some (.or, 2)
  | '<' :: _ => some (.less, 1)
  | '>' :: _ => some (.greater, 1)
  | '!' :: _ => some (.not, 1)
  | '+' :: _ => some (.plus, 1)
  | '-' :: _ => some (.minus, 1)
  | '*' :: _ => some (.times, 1)
  | '/' :: _ => some (.over, 1)
  | '%' :: _ => some (.remainder, 1)
  | '(' :: _ => some (.openParen, 1)
  | ')' :: _ => some (.closeParen, 1)
  | '[' :: _ => some (.openBracket, 1)
  | ']' :: _ => some (.closeBracket, 1)
  | '\x7b' :: _ => some (.openBrace, 1)
  | '\x7d' :: _ => some (.closeBrace, 1)
  | '.' :: _ => some (.dot, 1)
  | ',' :: _ => some (.comma, 1)
  | ':' :: _ => some (.colon, 1)
  | '?' :: _ => some (.question, 1)
  | _ => none

def exponentLength (cs : List Char) : Nat :=
  match cs with
  | c :: rest =>
    if c = 'e' || c = 'E' then
      let sign := match rest with
        | s :: _ => if s = '+' || s = '-' then 1 else 0
        | [] => 0
      let digits := (rest.drop sign).takeWhile Char.isDigit
      if digits.isEmpty then 0 else 1 + sign + digits.length
    else 0
  | [] => 0

def floatToken (cs : List Char) : Except SyntaxError Token :=
  match Reading.float cs with
  | .ok x => if x.isFinite then .ok (.float x) else .error .badLiteral
  | .error _ => .error .badLiteral

/-- The token of an integer, whose range is looked at where its sign is known. -/
def integerToken (radix : Nat) (digits : List Char) (isUnsigned : Bool) :
    Except SyntaxError Token :=
  match Reading.digits? radix 0 digits with
  | none => .error .badLiteral
  | some n =>
    if !isUnsigned then .ok (.integer n (radix = 16))
    else if n < twoPow 64 then .ok (.unsigned n)
    else .error .badLiteral

def hasUnsignedMark (cs : List Char) : Bool :=
  cs.head? == some 'u' || cs.head? == some 'U'

def number (cs : List Char) : Except SyntaxError (Token × Nat) :=
  let hex := match cs with
    | '0' :: 'x' :: rest => rest.takeWhile Literal.isHex
    | _ => []
  if !hex.isEmpty then do
    let u := hasUnsignedMark (cs.drop (2 + hex.length))
    return (← integerToken 16 hex u, 2 + hex.length + (if u then 1 else 0))
  else
    let whole := cs.takeWhile Char.isDigit
    let rest := cs.drop whole.length
    let fraction := match rest with
      | '.' :: rest => (rest.takeWhile Char.isDigit).length
      | _ => 0
    -- a point without digits after it is no part of the number
    let point := if fraction = 0 then 0 else fraction + 1
    let exponent := exponentLength (rest.drop point)
    if point + exponent = 0 then do
      let u := hasUnsignedMark rest
      return (← integerToken 10 whole u, whole.length + (if u then 1 else 0))
    else do
      let size := whole.length + point + exponent
      return (← floatToken (cs.take size), size)

def fractionOnly (cs : List Char) : Except SyntaxError (Token × Nat) := do
  let fraction := (cs.drop 1).takeWhile Char.isDigit
  let size := 1 + fraction.length
  let exponent := exponentLength (cs.drop size)
  return (← floatToken (cs.take (size + exponent)), size + exponent)

def quoted? (cs : List Char) : Option (Except SyntaxError (Token × Nat)) :=
  let finish {α : Type} (make : α → Token) (value : Option α) (size : Nat) :
      Except SyntaxError (Token × Nat) :=
    match value with
    | some v => .ok (make v, size)
    | none => .error .badLiteral
  match Literal.stringLength? cs with
  | some n => some (finish .string (Literal.decodeString (cs.take n)) n)
  | none =>
    match cs with
    | c :: rest =>
      if c = 'b' || c = 'B' then
        (Literal.stringLength? rest).map fun n =>
          finish .bytes (Literal.decodeBytes (cs.take (n + 1))) (n + 1)
      else none
    | [] => none

def quotedName? (cs : List Char) : Option (Token × Nat) :=
  match cs with
  | c :: rest =>
    let inside := rest.takeWhile fun d =>
      d.isAlphanum || d == '_' || d == '.' || d == '-' || d == '/' || d == ' '
    if c = Char.ofNat 96 && !inside.isEmpty && rest[inside.length]? == some (Char.ofNat 96) then
      some (.quotedName (String.ofList (cs.take (inside.length + 2))), inside.length + 2)
    else none
  | [] => none

def first (cs : List Char) : Except SyntaxError (Token × Nat) :=
  match quoted? cs with
  | some result => result
  | none =>
    match cs with
    | [] => .error .badCharacter
    | c :: rest =>
      if c.isDigit then number cs
      else if c = '.' && ((rest.head?.map Char.isDigit).getD false) then fractionOnly cs
      else if startsName c then
        let text := cs.takeWhile continuesName
        .ok (ofName (String.ofList text), text.length)
      else
        match markAt? cs, quotedName? cs with
        | some (m, n), _ => .ok (.mark m, n)
        | none, some result => .ok result
        | none, none => .error .badCharacter

/-- Cut a text into tokens.  Every token takes a character, so the length of the text bounds
`fuel`. -/
def scanFrom : Nat → List Char → Except SyntaxError (List Token)
  | 0, _ => .ok []
  | _, [] => .ok []
  | fuel + 1, c :: rest =>
    if isBlank c then scanFrom fuel rest
    else if c = '/' && rest.head? == some '/' then
      scanFrom fuel (rest.dropWhile (· != '\n'))
    else do
      let (token, size) ← first (c :: rest)
      return token :: (← scanFrom fuel ((c :: rest).drop size))

def scan (code : String) : Except SyntaxError (List Token) :=
  let cs := code.toList
  scanFrom (cs.length + 1) cs

end Token

end StepScript
