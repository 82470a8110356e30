/-!
# Cursor — a place in a YAML text

A cursor is what is left of a text, with the line and column of its first character.  Both count
from zero.  The module says which characters end a line and which only separate words, and reads the
gaps between words.
-/

namespace StepScript

namespace Yaml

inductive SyntaxError where
  | forbiddenCharacter
  | misplacedIndicator
  | missingColon
  | misplacedTab
  | unexpectedEnd
  | badEscape
  | badHeader
  | badName
  | badTag
  | badDirective
  | unknownAlias
  | unexpectedToken
  | tooDeep
  deriving DecidableEq

def isBreak (c : Char) : Bool :=
  c == '\n' || c == '\r' || c == '\u0085' || c == '\u2028' || c == '\u2029'

def isBlank (c : Char) : Bool :=
  c == ' ' || c == '\t'

/-- Whether a text begins with a blank or a line break, or is at its end. -/
def startsBlank : List Char → Bool
  | [] => true
  | c :: _ => isBlank c || isBreak c

def isAllowed (c : Char) : Bool :=
  let n := c.toNat
  n == 0x09 || n == 0x0A || n == 0x0D || (0x20 ≤ n && n ≤ 0x7E) || n == 0x85 ||
    (0xA0 ≤ n && n ≤ 0xFFFD) || 0x10000 ≤ n

def byteOrderMark : Char := '\uFEFF'

/-- A place in a text. -/
structure Cursor where
  rest : List Char
  line : Nat
  column : Nat
  /-- The number of characters before the place. -/
  index : Nat

namespace Cursor

def start (text : List Char) : Cursor := ⟨text, 0, 0, 0⟩

def peek (c : Cursor) : Option Char := c.rest.head?

def advance (c : Cursor) (n : Nat) : Cursor :=
  ⟨c.rest.drop n, c.line, c.column + n, c.index + n⟩

def advanceWhile (c : Cursor) (test : Char → Bool) : Cursor :=
  c.advance (c.rest.takeWhile test).length

/-- Move over a line break, if there is one.  Most kinds of line break count as a line feed; the two
separators of paragraphs and lines stand for themselves. -/
def takeBreak? (c : Cursor) : Option (Char × Cursor) :=
  match c.rest with
  | '\r' :: '\n' :: rest => some ('\n', ⟨rest, c.line + 1, 0, c.index + 2⟩)
  | b :: rest =>
    if isBreak b then
      let read := if b == '\u2028' || b == '\u2029' then b else '\n'
      some (read, ⟨rest, c.line + 1, 0, c.index + 1⟩)
    else none
  | [] => none

/-- Whether `---` or `...` stands at the place as a word of its own at the beginning of a line. -/
def atDocumentMark (c : Cursor) : Bool :=
  c.column == 0 &&
    match c.rest with
    | '-' :: '-' :: '-' :: rest => startsBlank rest
    | '.' :: '.' :: '.' :: rest => startsBlank rest
    | _ => false

def skipLine (c : Cursor) : Cursor :=
  c.advanceWhile fun x => !isBreak x

end Cursor

/-! ## Gaps between words -/

/-- What stands between two words. -/
structure Gap where
  /-- Blanks, when there is no line break. -/
  blanks : List Char
  /-- The line breaks. -/
  breaks : List Char
  /-- Whether a new line has begun. -/
  broken : Bool

namespace Gap

def none : Gap := ⟨[], [], false⟩

/-- The text of a gap inside a scalar: blanks stand for themselves, a single line break for a blank,
and of several line breaks the first is dropped. -/
def folded (g : Gap) : List Char :=
  if g.broken then
    match g.breaks with
    | ['\n'] => [' ']
    | '\n' :: more => more
    | breaks => breaks
  else g.blanks

/-- The text of a gap that begins with an escaped line break: the other line breaks. -/
def escaped (g : Gap) : List Char :=
  g.breaks

/-- Read a gap.  Once a new line has begun, blanks are dropped, and no tab may stand before the
column `indent`.  The length of the text is enough `fuel`. -/
def read (indent : Nat) : Nat → Gap → Cursor → Except SyntaxError (Gap × Cursor)
  | 0, g, c => .ok (g, c)
  | fuel + 1, g, c =>
    match c.peek with
    | .none => .ok (g, c)
    | some x =>
      if isBlank x then
        if g.broken then
          if x == '\t' && c.column < indent then .error .misplacedTab
          else read indent fuel g (c.advance 1)
        else read indent fuel { g with blanks := g.blanks ++ [x] } (c.advance 1)
      else
        match c.takeBreak? with
        | some (b, c) => read indent fuel ⟨[], g.breaks ++ [b], true⟩ c
        | .none => .ok (g, c)

end Gap

end Yaml

end StepScript
