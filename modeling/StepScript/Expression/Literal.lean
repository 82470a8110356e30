import StepScript.Number.Reading

/-!
# Literal — the constants of an expression

Besides numbers, truth values and null there are strings and byte strings.  Both are written between
quotes with escapes; this module finds where such a literal ends and what it stands for.

Quotes of either kind switch quoting on and off as a string is decoded, so a string between triple
quotes is quoted, unquoted and quoted again before its text begins.
-/

namespace StepScript

inductive Literal where
  | null
  | bool (value : Bool)
  | int (value : Int)
  | uint (value : Nat)
  | double (value : Binary64)
  | string (value : String)
  | bytes (value : List UInt8)
  deriving DecidableEq

namespace Literal

def isHex (c : Char) : Bool :=
  (Reading.digit? 16 c).isSome

def isOctal (c : Char) : Bool :=
  '0' ≤ c && c ≤ '7'

/-! ## Where a literal ends -/

/-- The number of characters of an escape after its backslash; `none` if there is no such escape. -/
def escapeLength? : List Char → Option Nat
  | [] => none
  | c :: rest =>
    let hex (n : Nat) : Option Nat :=
      if (rest.take n).length = n && (rest.take n).all isHex then some (n + 1) else none
    if c = 'x' || c = 'X' then hex 2
    else if c = 'u' then hex 4
    else if c = 'U' then hex 8
    else if '0' ≤ c && c ≤ '3' then
      if (rest.take 2).length = 2 && (rest.take 2).all isOctal then some 3 else none
    else if ['a', 'b', 'f', 'n', 'r', 't', 'v', '"', Char.ofNat 39, '\\', '?', Char.ofNat 96].contains c
    then some 1
    else none

/-- The length of a text up to and with its closing quotes, if escapes are written well up to there.
A literal in single quotes does not go over the end of a line. -/
def quotedLength? (close : List Char) : Nat → List Char → Nat → Option Nat
  | 0, _, _ => none
  | _, [], _ => none
  | fuel + 1, c :: rest, size =>
    if close.isPrefixOf (c :: rest) then some (size + close.length)
    else if c = '\\' then
      match escapeLength? rest with
      | some n => quotedLength? close fuel (rest.drop n) (size + 1 + n)
      | none => none
    else if close.length = 1 && (c = '\n' || c = '\r') then none
    else quotedLength? close fuel rest (size + 1)

/-- The length of a text without escapes up to and with its closing quotes. -/
def rawLength? (close : List Char) : List Char → Nat → Option Nat
  | [], _ => none
  | c :: rest, size =>
    if close.isPrefixOf (c :: rest) then some (size + close.length)
    else if close.length = 1 && (c = '\n' || c = '\r') then none
    else rawLength? close rest (size + 1)

/-- The length of the string literal at the front of a text.  Triple quotes are tried first: when
they are closed they make the longer literal. -/
def stringLength? (cs : List Char) : Option Nat :=
  let (raw, body) := match cs with
    | 'r' :: rest => (true, rest)
    | 'R' :: rest => (true, rest)
    | cs => (false, cs)
  match body with
  | q :: rest =>
    if q = '"' || q = Char.ofNat 39 then
      let lead := if raw then 1 else 0
      let find (close : List Char) (body : List Char) : Option Nat :=
        let size := lead + close.length
        if raw then rawLength? close body size
        else quotedLength? close (body.length + 1) body size
      let triple := if [q, q].isPrefixOf rest then find [q, q, q] (rest.drop 2) else none
      triple <|> find [q] rest
    else none
  | [] => none

/-! ## What a literal stands for -/

inductive Quoting where
  | none
  | single
  | double
  deriving DecidableEq

/-- The effect of a quote: it opens or closes, unless the other kind is open; then it is text. -/
def Quoting.toggle? (q : Quoting) (c : Char) : Option Quoting :=
  if c = '"' then
    match q with
    | .none => some .double
    | .double => some .none
    | .single => Option.none
  else if c = Char.ofNat 39 then
    match q with
    | .none => some .single
    | .single => some .none
    | .double => Option.none
  else Option.none

/-- Whether an escaped quote is of the kind that is not open, which keeps the backslash. -/
def Quoting.keepsBackslash (q : Quoting) (c : Char) : Bool :=
  (q == .single && c == '"') || (q == .double && c == Char.ofNat 39)

def simpleEscape? (c : Char) : Option Char :=
  if c = 'a' then some '\x07'
  else if c = 'b' then some '\x08'
  else if c = 'v' then some '\x0b'
  else if c = 'f' then some '\x0c'
  else if c = 'n' then some '\n'
  else if c = 'r' then some '\r'
  else if c = 't' then some '\t'
  else if c = '\\' || c = '?' || c = Char.ofNat 96 then some c
  else none

def scalar? (n : Nat) : Option Char :=
  if n < 0xD800 || (0xE000 ≤ n && n < 0x110000) then some (Char.ofNat n) else none

/-- The character of an escape by number, and the number of digits it takes after its letter. -/
def numberEscape? (c : Char) (rest : List Char) : Option (Char × Nat) :=
  let hex (n : Nat) : Option (Char × Nat) := do
    let value ← Reading.digits? 16 0 (rest.take n)
    let ch ← scalar? value
    if (rest.take n).length = n then some (ch, n) else none
  if c = 'x' then hex 2
  else if c = 'u' then hex 4
  else if c = 'U' then hex 8
  else if '0' ≤ c && c ≤ '3' then do
    let value ← Reading.digits? 8 0 (c :: rest.take 2)
    if (rest.take 2).length = 2 then some (Char.ofNat value, 2) else none
  else none

def decodeQuoted : Nat → Quoting → List Char → List Char → Option String
  | 0, _, _, _ => none
  | _, q, [], done => if q = .none then some (String.ofList done.reverse) else none
  | fuel + 1, q, c :: rest, done =>
    if c = '\\' && q != .none then
      match rest with
      | [] => none
      | e :: rest =>
        if e = '"' || e = Char.ofNat 39 then
          decodeQuoted fuel q rest (if q.keepsBackslash e then e :: '\\' :: done else e :: done)
        else
          match simpleEscape? e, numberEscape? e rest with
          | some ch, _ => decodeQuoted fuel q rest (ch :: done)
          | none, some (ch, n) => decodeQuoted fuel q (rest.drop n) (ch :: done)
          | none, none => none
    else
      match q.toggle? c with
      | some q => decodeQuoted fuel q rest done
      | none => if q = .none then none else decodeQuoted fuel q rest (c :: done)

/-- Decode a string without escapes, after its `r`.  A backslash before a quote of the open kind is
dropped, and the quote is text. -/
def decodeRaw : Quoting → List Char → List Char → Option String
  | _, [], done => some (String.ofList done.reverse)
  | q, '\\' :: e :: rest, done =>
    if q = .none then none
    else if (e = '"' || e = Char.ofNat 39) && !q.keepsBackslash e then decodeRaw q rest (e :: done)
    else decodeRaw q rest (e :: '\\' :: done)
  | q, c :: rest, done =>
    match q.toggle? c with
    | some q => decodeRaw q rest done
    | none => if q = .none then none else decodeRaw q rest (c :: done)

def decodeString (cs : List Char) : Option String :=
  match cs with
  | 'r' :: rest => decodeRaw .none rest []
  | 'R' :: rest => decodeRaw .none rest []
  | cs => decodeQuoted (cs.length + 1) .none cs []

/-- Decode the inside of a byte string.  Only escapes by number are known. -/
def decodeByteEscapes : Nat → List Char → Option (List UInt8)
  | 0, _ => none
  | _, [] => some []
  | fuel + 1, c :: rest =>
    if c = '\\' then
      match rest with
      | 'x' :: a :: b :: rest => do
        let n ← Reading.digits? 16 0 [a, b]
        return UInt8.ofNat n :: (← decodeByteEscapes fuel rest)
      | a :: b :: d :: rest => do
        if !('0' ≤ a && a ≤ '3') then none
        let n ← Reading.digits? 8 0 [a, b, d]
        return UInt8.ofNat n :: (← decodeByteEscapes fuel rest)
      | _ => none
    else do
      return String.utf8EncodeChar c ++ (← decodeByteEscapes fuel rest)

def decodeBytes (cs : List Char) : Option (List UInt8) :=
  let inside := (cs.drop 2).dropLast
  decodeByteEscapes (inside.length + 1) inside

end Literal

end StepScript
