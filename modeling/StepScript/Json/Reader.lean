import StepScript.Json.Basic

/-!
# Json reader — plain data from text

The reader works on the list of characters and returns what is left of it, so that a caller can
decide what may follow.  Nesting is limited to `maxDepth` levels.

A number without a point or an exponent is an integer as long as it fits a 64-bit word.  Any other
number is a float: its digits are gathered into a 64-bit coefficient and a power of ten, digits that
no longer fit only move the power, and the two are combined with one rounding each.  Numbers beyond
the range of a float are refused.
-/

namespace StepScript

namespace Json

inductive SyntaxError where
  | unexpectedEnd
  | unexpectedCharacter
  | badNumber
  | numberOutOfRange
  | badEscape
  | controlCharacter
  | tooDeep
  | trailingCharacters
  deriving DecidableEq

/-- The number of levels that arrays and objects may be nested, plus one. -/
def maxDepth : Nat := 128

def isBlank (c : Char) : Bool :=
  c == ' ' || c == '\n' || c == '\t' || c == '\r'

def skipBlanks (cs : List Char) : List Char :=
  cs.dropWhile isBlank

/-! ## Numbers -/

def powerOfTen (k : Nat) : Binary64 :=
  Binary64.ofDecimal false 1 k

/-- Divide a coefficient by a power of ten too large to be one number, in steps of `10 ^ 308`. -/
def divideDown : Nat → Binary64 → Nat → Binary64
  | 0, f, _ => f
  | rounds + 1, f, k =>
    if k ≤ 308 then f.div (powerOfTen k) else divideDown rounds (f.div (powerOfTen 308)) (k - 308)

def combine (negative : Bool) (coefficient : Nat) (power : Int) : Except SyntaxError Binary64 :=
  let f := Binary64.ofInt coefficient
  let signed (x : Binary64) := if negative then x.neg else x
  if power < 0 then .ok (signed (divideDown 4 f (-power).toNat))
  else if f.isZero then .ok (signed f)
  else if power > 308 then .error .numberOutOfRange
  else
    let x := f.mul (powerOfTen power.toNat)
    if x.isFinite then .ok (signed x) else .error .numberOutOfRange

def fits (coefficient digit : Nat) : Bool :=
  coefficient * 10 + digit < twoPow 64

def digitValue (c : Char) : Nat :=
  c.toNat - '0'.toNat

def exponentDigits : List Char → Nat → Option Nat × List Char
  | c :: rest, e =>
    if c.isDigit then
      let e' := e * 10 + digitValue c
      if e' < twoPow 31 then exponentDigits rest e' else (none, rest.dropWhile Char.isDigit)
    else (some e, c :: rest)
  | [], e => (some e, [])

def exponentPart (negative : Bool) (coefficient : Nat) (power : Int) (cs : List Char) :
    Except SyntaxError (Binary64 × List Char) :=
  let (down, cs) := match cs with
    | '+' :: rest => (false, rest)
    | '-' :: rest => (true, rest)
    | cs => (false, cs)
  match cs with
  | [] => .error .unexpectedEnd
  | c :: _ =>
    if !c.isDigit then .error .badNumber
    else
      match exponentDigits cs 0 with
      | (none, rest) =>
        -- zero stays zero, and what is too small becomes zero
        if coefficient != 0 && !down then .error .numberOutOfRange
        else .ok (Binary64.zero negative, rest)
      | (some e, rest) => do
        let x ← combine negative coefficient (if down then power - e else power + e)
        return (x, rest)

def finishFloat (negative : Bool) (coefficient : Nat) (power : Int) (cs : List Char) :
    Except SyntaxError (Binary64 × List Char) :=
  match cs with
  | 'e' :: rest => exponentPart negative coefficient power rest
  | 'E' :: rest => exponentPart negative coefficient power rest
  | cs => do
    let x ← combine negative coefficient power
    return (x, cs)

/-- Read the digits after the point.  Digits that do not fit the coefficient are dropped. -/
def fractionDigits : List Char → Nat → Int → Nat × Int × List Char
  | c :: rest, coefficient, power =>
    if c.isDigit then
      if fits coefficient (digitValue c) then
        fractionDigits rest (coefficient * 10 + digitValue c) (power - 1)
      else (coefficient, power, rest.dropWhile Char.isDigit)
    else (coefficient, power, c :: rest)
  | [], coefficient, power => (coefficient, power, [])

def fractionPart (negative : Bool) (coefficient : Nat) (power : Int) (cs : List Char) :
    Except SyntaxError (Binary64 × List Char) :=
  match cs with
  | [] => .error .unexpectedEnd
  | c :: _ =>
    if c.isDigit then
      let (coefficient, power, rest) := fractionDigits cs coefficient power
      finishFloat negative coefficient power rest
    else .error .badNumber

/-- Read the integer digits: the coefficient, the number of digits that did not fit, the rest. -/
def integerDigits : List Char → Nat → Nat × Nat × List Char
  | c :: rest, coefficient =>
    if c.isDigit then
      if fits coefficient (digitValue c) then
        integerDigits rest (coefficient * 10 + digitValue c)
      else
        -- from here on digits only move the point
        let more := (c :: rest).takeWhile Char.isDigit
        (coefficient, more.length, (c :: rest).dropWhile Char.isDigit)
    else (coefficient, 0, c :: rest)
  | [], coefficient => (coefficient, 0, [])

/-- The number of a float that is known to be finite; infinities are refused before. -/
def floatNumber (x : Binary64) : Except SyntaxError Json :=
  match Number.ofBinary64? x with
  | some n => .ok (.number n)
  | none => .error .numberOutOfRange

/-- The integer `±n`, or the float it has to become: minus zero, and integers below the range. -/
def integerNumber (negative : Bool) (n : Nat) : Except SyntaxError Json :=
  let asInteger : Int := if negative then -(n : Int) else n
  if negative && n == 0 then floatNumber (Binary64.zero true)
  else
    match Number.ofInt? asInteger with
    | some k => .ok (.number k)
    | none => floatNumber (Binary64.ofInt asInteger)

def unsignedNumber (negative : Bool) (cs : List Char) : Except SyntaxError (Json × List Char) :=
  match cs with
  | [] => .error .unexpectedEnd
  | c :: rest =>
    if !c.isDigit then .error .badNumber
    else if c == '0' && (rest.head?.map Char.isDigit).getD false then .error .badNumber
    else
      let (coefficient, dropped, rest) := integerDigits cs 0
      match rest with
      | '.' :: rest => do
        let (x, rest) ← fractionPart negative coefficient dropped rest
        return (← floatNumber x, rest)
      | rest =>
        let startsExponent := rest.head? == some 'e' || rest.head? == some 'E'
        if dropped == 0 && !startsExponent then do
          return (← integerNumber negative coefficient, rest)
        else do
          let (x, rest) ← finishFloat negative coefficient dropped rest
          return (← floatNumber x, rest)

/-! ## Strings -/

def hexValue? (c : Char) : Option Nat :=
  if c.isDigit then some (c.toNat - '0'.toNat)
  else if 'a' ≤ c && c ≤ 'f' then some (c.toNat - 'a'.toNat + 10)
  else if 'A' ≤ c && c ≤ 'F' then some (c.toNat - 'A'.toNat + 10)
  else none

def hex4? : List Char → Option (Nat × List Char)
  | a :: b :: c :: d :: rest => do
    let a ← hexValue? a
    let b ← hexValue? b
    let c ← hexValue? c
    let d ← hexValue? d
    return (((a * 16 + b) * 16 + c) * 16 + d, rest)
  | _ => none

/-- The character of a `\u` escape, which may take a second escape for its low half. -/
def unicodeEscape (cs : List Char) : Except SyntaxError (Char × List Char) :=
  match hex4? cs with
  | none => .error .badEscape
  | some (high, rest) =>
    if 0xDC00 ≤ high && high ≤ 0xDFFF then .error .badEscape
    else if 0xD800 ≤ high && high ≤ 0xDBFF then
      match rest with
      | '\\' :: 'u' :: rest =>
        match hex4? rest with
        | some (low, rest) =>
          if 0xDC00 ≤ low && low ≤ 0xDFFF then
            .ok (Char.ofNat (0x10000 + (high - 0xD800) * 0x400 + (low - 0xDC00)), rest)
          else .error .badEscape
        | none => .error .badEscape
      | _ => .error .badEscape
    else .ok (Char.ofNat high, rest)

def simpleEscape? (c : Char) : Option Char :=
  if c = '"' then some '"'
  else if c = '\\' then some '\\'
  else if c = '/' then some '/'
  else if c = 'b' then some '\x08'
  else if c = 'f' then some '\x0c'
  else if c = 'n' then some '\n'
  else if c = 'r' then some '\r'
  else if c = 't' then some '\t'
  else none

def stringBody : Nat → List Char → List Char → Except SyntaxError (String × List Char)
  | 0, _, _ => .error .unexpectedEnd
  | _, [], _ => .error .unexpectedEnd
  | fuel + 1, c :: rest, done =>
    if c = '"' then .ok (String.ofList done.reverse, rest)
    else if c = '\\' then
      match rest with
      | [] => .error .unexpectedEnd
      | 'u' :: rest => do
        let (c, rest) ← unicodeEscape rest
        stringBody fuel rest (c :: done)
      | e :: rest =>
        match simpleEscape? e with
        | some c => stringBody fuel rest (c :: done)
        | none => .error .badEscape
    else if c.toNat < 32 then .error .controlCharacter
    else stringBody fuel rest (c :: done)

/-! ## Values -/

def afterWord? : List Char → List Char → Option (List Char)
  | [], cs => some cs
  | w :: ws, c :: cs => if w = c then afterWord? ws cs else none
  | _ :: _, [] => none

mutual

/-- Read one value after blanks.  `depth` counts the levels that may still be opened; every call
consumes a character, so the number of characters bounds `fuel`. -/
def value : Nat → Nat → List Char → Except SyntaxError (Json × List Char)
  | 0, _, _ => .error .unexpectedEnd
  | fuel + 1, depth, cs =>
    match skipBlanks cs with
    | [] => .error .unexpectedEnd
    | c :: rest =>
      if c = '"' then do
        let (s, rest) ← stringBody (rest.length + 1) rest []
        return (.string s, rest)
      else if c = '[' then
        if depth ≤ 1 then .error .tooDeep
        else
          match skipBlanks rest with
          | ']' :: rest => .ok (.array [], rest)
          | rest => do
            let (items, rest) ← items fuel (depth - 1) rest
            return (.array items, rest)
      else if c = '\x7b' then
        if depth ≤ 1 then .error .tooDeep
        else
          match skipBlanks rest with
          | '\x7d' :: rest => .ok (.object [], rest)
          | rest => do
            let (fields, rest) ← fields fuel (depth - 1) rest
            return (.object fields, rest)
      else if c = '-' then unsignedNumber true rest
      else if c.isDigit then unsignedNumber false (c :: rest)
      else
        match afterWord? ['n', 'u', 'l', 'l'] (c :: rest) with
        | some rest => .ok (.null, rest)
        | none =>
          match afterWord? ['t', 'r', 'u', 'e'] (c :: rest) with
          | some rest => .ok (.bool true, rest)
          | none =>
            match afterWord? ['f', 'a', 'l', 's', 'e'] (c :: rest) with
            | some rest => .ok (.bool false, rest)
            | none => .error .unexpectedCharacter

def items : Nat → Nat → List Char → Except SyntaxError (List Json × List Char)
  | 0, _, _ => .error .unexpectedEnd
  | fuel + 1, depth, cs => do
    let (v, rest) ← value fuel depth cs
    match skipBlanks rest with
    | ']' :: rest => return ([v], rest)
    | ',' :: rest => do
      let (vs, rest) ← items fuel depth rest
      return (v :: vs, rest)
    | [] => throw .unexpectedEnd
    | _ => throw .unexpectedCharacter

def fields : Nat → Nat → List Char → Except SyntaxError (List (String × Json) × List Char)
  | 0, _, _ => .error .unexpectedEnd
  | fuel + 1, depth, cs =>
    match skipBlanks cs with
    | '"' :: rest => do
      let (k, rest) ← stringBody (rest.length + 1) rest []
      match skipBlanks rest with
      | ':' :: rest => do
        let (v, rest) ← value fuel depth rest
        match skipBlanks rest with
        | '\x7d' :: rest => return ([(k, v)], rest)
        | ',' :: rest => do
          let (more, rest) ← fields fuel depth rest
          return ((k, v) :: more, rest)
        | [] => throw .unexpectedEnd
        | _ => throw .unexpectedCharacter
      | [] => throw .unexpectedEnd
      | _ => throw .unexpectedCharacter
    | [] => .error .unexpectedEnd
    | _ => .error .unexpectedCharacter

end

mutual

/-- Keep one field a name: the last value, at the place of the first. -/
def distinctKeys : Json → Json
  | .array items => .array (distinctItems items)
  | .object fields => .object (Table.ofEntries (distinctFields fields))
  | .null => .null
  | .bool b => .bool b
  | .number n => .number n
  | .string s => .string s

def distinctItems : List Json → List Json
  | [] => []
  | j :: rest => j.distinctKeys :: distinctItems rest

def distinctFields : List (String × Json) → List (String × Json)
  | [] => []
  | (k, j) :: rest => (k, j.distinctKeys) :: distinctFields rest

end

/-- Read the first value of a text, fields as written, and return what follows it. -/
def readFirst (text : String) : Except SyntaxError (Json × List Char) :=
  let cs := text.toList
  value (2 * cs.length + 2) maxDepth cs

def atEnd (rest : List Char) : Bool :=
  (skipBlanks rest).isEmpty

def read (text : String) : Except SyntaxError Json := do
  let (v, rest) ← readFirst text
  if atEnd rest then return v.distinctKeys else throw .trailingCharacters

end Json

end StepScript
