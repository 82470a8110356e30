import StepScript.Json.Basic
import StepScript.Yaml.Scalar.Meaning
import StepScript.Yaml.Scalar.Quoted
import StepScript.Yaml.Tag

/-!
# Yaml writer — data as a block document

Collections are written in block form, one item or entry a line; empty ones as `[]` and `\{}`.  The
items of a sequence below a key are not indented.  Text is written plain where a reader takes it for
the same text, between single quotes otherwise, between double quotes if it has characters that need
an escape, and as a literal block if it has several lines.
-/

namespace StepScript

namespace Yaml

/-! ## Scalars -/

def isPrintable (c : Char) : Bool :=
  let n := c.toNat
  n == 0x0A || (0x20 ≤ n && n ≤ 0x7E) || (0xA0 ≤ n && n ≤ 0xFFFD && n != 0xFEFF) || 0x10000 ≤ n

structure Shape where
  several : Bool
  plain : Bool
  single : Bool
  block : Bool
  deriving DecidableEq

namespace Shape

def isLeadingIndicator (c : Char) : Bool :=
  ['#', ',', '[', ']', '\x7b', '\x7d', '&', '*', '!', '|', '>', Quoted.apostrophe, '"', '%', '@',
    Char.ofNat 96].contains c

/-- Whether the first character keeps a text from being plain. -/
def startsWrong : List Char → Bool
  | '-' :: '-' :: '-' :: _ => true
  | '.' :: '.' :: '.' :: _ => true
  | c :: rest =>
    isLeadingIndicator c || ((c == '?' || c == ':' || c == '-') && startsBlank rest)
  | [] => false

/-- Whether a later character keeps a text from being plain: a colon before a blank or a hash after
one. -/
def hasIndicator : List Char → Bool
  | c :: d :: rest =>
    (d == ':' && startsBlank rest) || (d == '#' && (isBlank c || isBreak c)) ||
      hasIndicator (d :: rest)
  | _ => false

def hasPair (first second : Char → Bool) : List Char → Bool
  | c :: d :: rest => (first c && second d) || hasPair first second (d :: rest)
  | _ => false

def isSpace (c : Char) : Bool :=
  c == ' '

/-- What a text allows.  Quotes would lose blanks around line breaks, and a literal block blanks at the
end. -/
def ofText (cs : List Char) : Shape :=
  let edge (test : Char → Bool) : Bool :=
    (cs.head?.map test).getD false || (cs.getLast?.map test).getD false
  let several := cs.any isBreak
  let afterBreak := hasPair isBreak isSpace cs
  let escaped := hasPair isSpace isBreak cs || !cs.all isPrintable
  let endsInSpace := (cs.getLast?.map isSpace).getD false
  { several := several
    plain := !(edge isSpace || several || escaped || startsWrong cs || hasIndicator cs)
    single := !(afterBreak || escaped)
    block := !(cs.isEmpty || endsInSpace || escaped) }

end Shape

def blanks (n : Nat) : List Char :=
  List.replicate n ' '

/-- The text between single quotes.  What follows a line break is indented. -/
def singleQuoted (indent : Nat) : Bool → List Char → List Char
  | broken, [] => if broken then blanks indent else []
  | broken, c :: rest =>
    if isBreak c then c :: singleQuoted indent true rest
    else
      (if broken then blanks indent else []) ++
        (if c == Quoted.apostrophe then [c, c] else [c]) ++ singleQuoted indent false rest

def hex (digits n : Nat) : List Char :=
  let cs := (Nat.toDigits 16 n).map Char.toUpper
  List.replicate (digits - cs.length) '0' ++ cs

def escapeLetter? (n : Nat) : Option Char :=
  match n with
  | 0x00 => some '0'
  | 0x07 => some 'a'
  | 0x08 => some 'b'
  | 0x09 => some 't'
  | 0x0A => some 'n'
  | 0x0B => some 'v'
  | 0x0C => some 'f'
  | 0x0D => some 'r'
  | 0x1B => some 'e'
  | 0x22 => some '"'
  | 0x5C => some '\\'
  | 0x85 => some 'N'
  | 0xA0 => some '_'
  | 0x2028 => some 'L'
  | 0x2029 => some 'P'
  | _ => none

def escapeChar (c : Char) : List Char :=
  let n := c.toNat
  if isPrintable c && !isBreak c && c != '"' && c != '\\' then [c]
  else
    match escapeLetter? n with
    | some e => ['\\', e]
    | none =>
      if n ≤ 0xFF then '\\' :: 'x' :: hex 2 n
      else if n ≤ 0xFFFF then '\\' :: 'u' :: hex 4 n
      else '\\' :: 'U' :: hex 8 n

def doubleQuoted (cs : List Char) : List Char :=
  cs.flatMap escapeChar

/-- The sign of a literal block: none for one line break at the end. -/
def chompingSign (cs : List Char) : List Char :=
  match cs.reverse with
  | [] => ['-']
  | [c] => if isBreak c then ['+'] else ['-']
  | c :: d :: _ => if !isBreak c then ['-'] else if isBreak d then ['+'] else []

/-- The lines of a literal block; `fresh` says that a line begins. -/
def literalLines (indent : Nat) : Bool → List Char → List Char
  | _, [] => []
  | fresh, c :: rest =>
    if isBreak c then c :: literalLines indent true rest
    else (if fresh then blanks indent else []) ++ c :: literalLines indent false rest

/-- The text as a literal block.  A digit says how far it is indented if its first line cannot. -/
def literal (indent : Nat) (cs : List Char) : List Char :=
  let digit := match cs with
    | c :: _ => if c == ' ' || isBreak c then ['2'] else []
    | [] => []
  '|' :: digit ++ chompingSign cs ++ '\n' :: literalLines indent true cs

inductive Style where
  | plain
  | single
  | double
  | literal
  deriving DecidableEq

/-- The style of a text.  A simple key is written on one line. -/
def Style.ofText (simpleKey : Bool) (s : String) : Style :=
  let cs := s.toList
  let shape := Shape.ofText cs
  -- a line feed asks for a block; the other line breaks may stay between quotes
  if cs.contains '\n' then
    if shape.block && !simpleKey then .literal else .double
  else if shape.several && simpleKey then .double
  else if Meaning.ofPlain s == .text && !Meaning.hasNeedlessZero cs && shape.plain then .plain
  else if shape.single then .single
  else .double

/-- The written form of a text inside a collection at a column. -/
def scalarText (simpleKey : Bool) (column : Nat) (s : String) : List Char :=
  let cs := s.toList
  match Style.ofText simpleKey s with
  | .plain => cs
  | .single =>
    Quoted.apostrophe :: singleQuoted (column + 2) false cs ++ [Quoted.apostrophe]
  | .double => '"' :: doubleQuoted cs ++ ['"']
  | .literal => literal (column + 2) cs

/-- Whether the last line of a text is left open by a literal block that keeps its line breaks. -/
def leavesOpen (s : String) : Bool :=
  Style.ofText false s == .literal && chompingSign s.toList == ['+']

/-! ## Collections -/

/-- The greatest number of bytes of a key that is written without a question mark. -/
def simpleKeyLength : Nat := 128

def isSimpleKey (s : String) : Bool :=
  s.utf8ByteSize ≤ simpleKeyLength && !s.toList.any isBreak

inductive Position where
  /-- On the line of a key, as its value. -/
  | afterKey
  /-- After a dash, a question mark or a colon of its own, or at the beginning. -/
  | afterSign
  deriving DecidableEq

def Position.gap : Position → List Char
  | .afterKey => [' ']
  | .afterSign => []

def endLine (cs : List Char) : List Char :=
  if (cs.getLast?.map isBreak).getD false then cs else cs ++ ['\n']

mutual

/-- The lines of a value inside a collection at a column.  At `afterSign` the first line continues a
line that has reached the column two places on; at `afterKey` it continues the line of a key. -/
def lines (column : Nat) (position : Position) : Json → List Char
  | .array [] => position.gap ++ ['[', ']', '\n']
  | .array items =>
    match position with
    | .afterKey => '\n' :: itemLines column true items
    | .afterSign => itemLines (column + 2) false items
  | .object [] => position.gap ++ ['\x7b', '\x7d', '\n']
  | .object fields =>
    match position with
    | .afterKey => '\n' :: fieldLines (column + 2) true fields
    | .afterSign => fieldLines (column + 2) false fields
  | .null => position.gap ++ "null\n".toList
  | .bool b => position.gap ++ (if b then "true\n".toList else "false\n".toList)
  | .number n => position.gap ++ (n.render Layout.yaml).toList ++ ['\n']
  | .string s => position.gap ++ endLine (scalarText false column s)

/-- The lines of items at a column; the first line may have reached the column already. -/
def itemLines (column : Nat) (indented : Bool) : List Json → List Char
  | [] => []
  | item :: rest =>
    (if indented then blanks column else []) ++ '-' :: ' ' :: lines column .afterSign item ++
      itemLines column true rest

def fieldLines (column : Nat) (indented : Bool) : List (String × Json) → List Char
  | [] => []
  | (k, v) :: rest =>
    (if indented then blanks column else []) ++
      (if isSimpleKey k then scalarText true column k ++ ':' :: lines column .afterKey v
      else '?' :: ' ' :: endLine (scalarText false column k) ++ blanks column ++
        ':' :: ' ' :: lines column .afterSign v) ++
      fieldLines column true rest

end

mutual

def lastText? : Json → Option String
  | .string s => some s
  | .array items => lastOfItems? items
  | .object fields => lastOfFields? fields
  | .null => none
  | .bool _ => none
  | .number _ => none

def lastOfItems? : List Json → Option String
  | [] => none
  | [j] => lastText? j
  | _ :: rest => lastOfItems? rest

def lastOfFields? : List (String × Json) → Option String
  | [] => none
  | [(_, j)] => lastText? j
  | _ :: rest => lastOfFields? rest

end

/-- The document of some data.  The mark that ends a document follows a last text that is left
open. -/
def write (j : Json) : String :=
  let body := match j with
    | .array (item :: items) => itemLines 0 true (item :: items)
    | .object (field :: fields) => fieldLines 0 true (field :: fields)
    | j => lines 0 .afterSign j
  let open? := (j |> lastText?).map leavesOpen
  String.ofList (body ++ (if open?.getD false then ['.', '.', '.', '\n'] else []))

end Yaml

end StepScript
