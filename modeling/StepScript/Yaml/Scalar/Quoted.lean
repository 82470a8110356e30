import StepScript.Number.Reading
import StepScript.Yaml.Cursor

/-!
# Quoted scalars

Between single quotes every character stands for itself, and two quotes for one.  Between double
quotes a backslash begins an escape.  In both, line breaks are folded, and a line must not begin with
a document mark.
-/

namespace StepScript

namespace Yaml

namespace Quoted

def apostrophe : Char := Char.ofNat 39

def simpleEscape? (c : Char) : Option Char :=
  match c with
  | '0' => some (Char.ofNat 0x00)
  | 'a' => some (Char.ofNat 0x07)
  | 'b' => some (Char.ofNat 0x08)
  | 't' => some '\t'
  | '\t' => some '\t'
  | 'n' => some '\n'
  | 'v' => some (Char.ofNat 0x0B)
  | 'f' => some (Char.ofNat 0x0C)
  | 'r' => some '\r'
  | 'e' => some (Char.ofNat 0x1B)
  | ' ' => some ' '
  | '"' => some '"'
  | '/' => some '/'
  | '\\' => some '\\'
  | 'N' => some (Char.ofNat 0x85)
  | '_' => some (Char.ofNat 0xA0)
  | 'L' => some (Char.ofNat 0x2028)
  | 'P' => some (Char.ofNat 0x2029)
  | _ => none

def hexLength? (c : Char) : Option Nat :=
  match c with
  | 'x' => some 2
  | 'u' => some 4
  | 'U' => some 8
  | _ => none

def charOfCode? (code : Nat) : Option Char :=
  if code.isValidChar then some (Char.ofNat code) else none

/-- Read an escape after its backslash, which is not before a line break. -/
def escape (c : Cursor) : Except SyntaxError (Char × Cursor) :=
  match c.rest with
  | [] => .error .badEscape
  | e :: rest =>
    match simpleEscape? e with
    | some x => .ok (x, c.advance 1)
    | none =>
      match hexLength? e with
      | none => .error .badEscape
      | some n =>
        let digits := rest.take n
        if digits.length < n then .error .badEscape
        else
          match (Reading.digits? 16 0 digits).bind charOfCode? with
          | some x => .ok (x, c.advance (n + 1))
          | none => .error .badEscape

/-- Read a scalar after its opening quote.  `done` holds the text so far, backwards; the length of the
text is enough `fuel`. -/
def body (single : Bool) (size : Nat) : Nat → List Char → Cursor →
    Except SyntaxError (String × Cursor)
  | 0, _, _ => .error .unexpectedEnd
  | fuel + 1, done, c =>
    if c.atDocumentMark then .error .misplacedIndicator
    else
      match c.rest with
      | [] => .error .unexpectedEnd
      | x :: rest =>
        if isBlank x || isBreak x then do
          let (gap, c) ← Gap.read 0 size Gap.none c
          body single size fuel (gap.folded.reverse ++ done) c
        else if single then
          if x == apostrophe then
            if rest.head? == some apostrophe then
              body single size fuel (apostrophe :: done) (c.advance 2)
            else .ok (String.ofList done.reverse, c.advance 1)
          else body single size fuel (x :: done) (c.advance 1)
        else if x == '"' then .ok (String.ofList done.reverse, c.advance 1)
        else if x == '\\' then
          match (c.advance 1).takeBreak? with
          | some (_, c) => do
            let (gap, c) ← Gap.read 0 size ⟨[], [], true⟩ c
            body single size fuel (gap.escaped.reverse ++ done) c
          | none => do
            let (e, c) ← escape (c.advance 1)
            body single size fuel (e :: done) c
        else body single size fuel (x :: done) (c.advance 1)

def read (single : Bool) (size : Nat) (c : Cursor) : Except SyntaxError (String × Cursor) :=
  body single size (size + 1) [] (c.advance 1)

end Quoted

end Yaml

end StepScript
