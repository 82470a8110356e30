import StepScript.Text.Blank
import StepScript.Text.DecimalDigit
import StepScript.Text.Lowercase
import StepScript.Text.WordChar

/-!
# Pattern — regular patterns over characters

A pattern is built from classes of characters, assertions about a place in the text, sequences,
choices and repetitions.  Which of several matches is preferred does not matter here: a text either
contains a match or not.
-/

namespace StepScript

namespace Pattern

inductive CharClass where
  | range (low high : Char)
  | digit
  | blank
  | word
  | any
  | union (parts : List CharClass)
  | both (left right : CharClass)
  | without (left right : CharClass)
  | either (left right : CharClass)
  | complement (part : CharClass)
  /-- Characters that have some case variant in the class. -/
  | foldCase (part : CharClass)

inductive Assertion where
  | textStart
  | textEnd
  | lineStart
  | lineEnd
  | wordBoundary
  | insideWord
  | wordStart
  | wordEnd
  | wordStartHalf
  | wordEndHalf
  deriving DecidableEq

end Pattern

/-- A regular pattern. -/
inductive Pattern where
  | one (chars : Pattern.CharClass)
  | assert (assertion : Pattern.Assertion)
  | sequence (parts : List Pattern)
  | choice (parts : List Pattern)
  | loop (part : Pattern) (least : Nat) (most : Option Nat)

namespace Pattern

def empty : Pattern := .sequence []

namespace CharClass

def single (c : Char) : CharClass := .range c c

/-- The case variants of a character that classes are asked about. -/
def variants (c : Char) : List Char :=
  [c, Lowercase.simple c, c.toUpper]

mutual

def contains : CharClass → Char → Bool
  | .range low high, c => low ≤ c && c ≤ high
  | .digit, c => DecimalDigit.isDecimal c
  | .blank, c => Blank.isBlank c
  | .word, c => WordChar.isWord c
  | .any, _ => true
  | .union parts, c => someContains parts c
  | .both left right, c => left.contains c && right.contains c
  | .without left right, c => left.contains c && !right.contains c
  | .either left right, c => left.contains c != right.contains c
  | .complement part, c => !part.contains c
  | .foldCase part, c => (variants c).any part.contains

def someContains : List CharClass → Char → Bool
  | [], _ => false
  | part :: rest, c => part.contains c || someContains rest c

end

def singleFolded (c : Char) : CharClass :=
  .foldCase (.union [single c, single (Lowercase.simple c), single c.toUpper])

end CharClass

end Pattern

end StepScript
