import StepScript.Yaml.Cursor

/-!
# Plain scalars

A plain scalar is a row of words without quotes.  It ends before `: `, before a comment, at a line
that is indented too little or begins with a document mark, and inside a flow collection also before
its commas and brackets.
-/

namespace StepScript

namespace Yaml

namespace Plain

def isFlowIndicator (c : Char) : Bool :=
  c == ',' || c == '[' || c == ']' || c == '\x7b' || c == '\x7d'

/-- Split the word at the beginning of a text from what follows. -/
def word (inFlow : Bool) : List Char → Except SyntaxError (List Char × List Char)
  | [] => .ok ([], [])
  | x :: rest =>
    let next := rest.head?.getD ' '
    if isBlank x || isBreak x then .ok ([], x :: rest)
    else if inFlow && x == ':' && (isFlowIndicator next || next == '?') then
      .error .misplacedIndicator
    else if (x == ':' && startsBlank rest) || (inFlow && isFlowIndicator x) then .ok ([], x :: rest)
    else do
      let (w, rest) ← word inFlow rest
      return (x :: w, rest)

/-- Read words and the gaps between them.  `done` holds the text so far; the answer also says whether
the scalar ended on a later line than its last word.  The length of the text is enough `fuel`. -/
def words (inFlow : Bool) (indent size : Nat) : Nat → List Char → Gap → Cursor →
    Except SyntaxError (String × Bool × Cursor)
  | 0, _, _, _ => .error .unexpectedEnd
  | fuel + 1, done, gap, c =>
    if c.atDocumentMark || c.peek == some '#' then .ok (String.ofList done, gap.broken, c)
    else do
      let (w, _) ← word inFlow c.rest
      if w.isEmpty then return (String.ofList done, gap.broken, c)
      let done := done ++ gap.folded ++ w
      let c := c.advance w.length
      match c.peek with
      | none => return (String.ofList done, false, c)
      | some x =>
        if !(isBlank x || isBreak x) then return (String.ofList done, false, c)
        let (gap, c) ← Gap.read indent size Gap.none c
        if !inFlow && c.column < indent then return (String.ofList done, gap.broken, c)
        words inFlow indent size fuel done gap c

def read (inFlow : Bool) (indent size : Nat) (c : Cursor) :
    Except SyntaxError (String × Bool × Cursor) :=
  words inFlow indent size (size + 1) [] Gap.none c

end Plain

end Yaml

end StepScript
