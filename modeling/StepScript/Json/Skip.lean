import StepScript.Json.Reader

/-!
# Skip — passing over a value that nobody asks for

A value that is passed over has to be well formed, but its numbers may be of any size, its escapes may
name halves of characters, and it may be nested as deep as it likes.
-/

namespace StepScript

namespace Json

def skipDigits (cs : List Char) : Except SyntaxError (List Char) :=
  match cs with
  | [] => .error .unexpectedEnd
  | c :: _ => if c.isDigit then .ok (cs.dropWhile Char.isDigit) else .error .badNumber

def skipExponent (cs : List Char) : Except SyntaxError (List Char) :=
  match cs with
  | c :: rest =>
    if c == 'e' || c == 'E' then
      match rest with
      | '+' :: rest => skipDigits rest
      | '-' :: rest => skipDigits rest
      | rest => skipDigits rest
    else .ok cs
  | [] => .ok []

def skipNumber (cs : List Char) : Except SyntaxError (List Char) := do
  let rest ← match cs with
    | '0' :: c :: rest => if c.isDigit then throw .badNumber else pure (c :: rest)
    | cs => skipDigits cs
  match rest with
  | '.' :: rest => skipExponent (← skipDigits rest)
  | rest => skipExponent rest

def skipString : Nat → List Char → Except SyntaxError (List Char)
  | 0, _ => .error .unexpectedEnd
  | _, [] => .error .unexpectedEnd
  | fuel + 1, c :: rest =>
    if c = '"' then .ok rest
    else if c = '\\' then
      match rest with
      | [] => .error .unexpectedEnd
      | 'u' :: rest =>
        -- half of a character will do
        match hex4? rest with
        | some (_, rest) => skipString fuel rest
        | none => .error .badEscape
      | e :: rest => if (simpleEscape? e).isSome then skipString fuel rest else .error .badEscape
    else if c.toNat < 32 then .error .controlCharacter
    else skipString fuel rest

mutual

/-- Pass over one value after blanks.  Every call consumes a character, so the number of characters
bounds `fuel`. -/
def skip : Nat → List Char → Except SyntaxError (List Char)
  | 0, _ => .error .unexpectedEnd
  | fuel + 1, cs =>
    match skipBlanks cs with
    | [] => .error .unexpectedEnd
    | c :: rest =>
      if c = '"' then skipString (rest.length + 1) rest
      else if c = '[' then
        match skipBlanks rest with
        | ']' :: rest => .ok rest
        | rest => skipItems fuel rest
      else if c = '\x7b' then
        match skipBlanks rest with
        | '\x7d' :: rest => .ok rest
        | rest => skipFields fuel rest
      else if c = '-' then skipNumber rest
      else if c.isDigit then skipNumber (c :: rest)
      else
        match [['n', 'u', 'l', 'l'], ['t', 'r', 'u', 'e'], ['f', 'a', 'l', 's', 'e']].findSome?
            fun w => afterWord? w (c :: rest) with
        | some rest => .ok rest
        | none => .error .unexpectedCharacter

def skipItems : Nat → List Char → Except SyntaxError (List Char)
  | 0, _ => .error .unexpectedEnd
  | fuel + 1, cs => do
    match skipBlanks (← skip fuel cs) with
    | ']' :: rest => return rest
    | ',' :: rest => skipItems fuel rest
    | [] => throw .unexpectedEnd
    | _ => throw .unexpectedCharacter

def skipFields : Nat → List Char → Except SyntaxError (List Char)
  | 0, _ => .error .unexpectedEnd
  | fuel + 1, cs =>
    match skipBlanks cs with
    | '"' :: rest => do
      match skipBlanks (← skipString (rest.length + 1) rest) with
      | ':' :: rest =>
        match skipBlanks (← skip fuel rest) with
        | '\x7d' :: rest => return rest
        | ',' :: rest => skipFields fuel rest
        | [] => throw .unexpectedEnd
        | _ => throw .unexpectedCharacter
      | [] => throw .unexpectedEnd
      | _ => throw .unexpectedCharacter
    | [] => .error .unexpectedEnd
    | _ => .error .unexpectedCharacter

end

end Json

end StepScript
