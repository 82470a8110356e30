import StepScript.Number.Reading
import StepScript.Text.Utf8
import StepScript.Yaml.Token

/-!
# Names, tags and directives

A tag is written as `!<meaning>`, as a handle and a suffix, or as a lone `!`.  The directives before a
document say which version of the format it follows and what its tag handles mean.
-/

namespace StepScript

namespace Yaml

def isNameChar (c : Char) : Bool :=
  c.isAlphanum || c == '_' || c == '-'

def anchorName (c : Cursor) : Except SyntaxError (String × Cursor) :=
  let name := c.rest.takeWhile isNameChar
  let after := c.advance name.length
  let ends := startsBlank after.rest ||
    (after.peek.map fun x => ['?', ':', ',', ']', '\x7d', '%', '@', Char.ofNat 96].contains x).getD true
  if name.isEmpty || !ends then .error .badName else .ok (String.ofList name, after)

namespace Tag

/-- Characters of the meaning of a tag, besides those of names. -/
def isUriSign (c : Char) : Bool :=
  [';', '/', '?', ':', '@', '&', '=', '+', '$', '.', '%', '!', '~', '*', Char.ofNat 39, '(', ')'].contains c

def isUriChar (verbatim : Bool) (c : Char) : Bool :=
  isNameChar c || isUriSign c || (verbatim && (c == ',' || c == '[' || c == ']'))

/-- The bytes of the meaning of a tag, whose escapes are a percent sign and two digits. -/
def uriBytes? : List Char → Option (List UInt8)
  | [] => some []
  | '%' :: a :: b :: rest => do
    let n ← Reading.digits? 16 0 [a, b]
    let more ← uriBytes? rest
    return UInt8.ofNat n :: more
  | '%' :: _ => none
  | c :: rest => do
    let more ← uriBytes? rest
    return String.utf8EncodeChar c ++ more

/-- Read the meaning of a tag after the characters `head` of it. -/
def uri (verbatim : Bool) (head : List Char) (c : Cursor) : Except SyntaxError (String × Cursor) :=
  let run := c.rest.takeWhile (isUriChar verbatim)
  if run.isEmpty && head.isEmpty then .error .badTag
  else
    match (uriBytes? (head ++ run)).bind Utf8.decode? with
    | some text => .ok (text, c.advance run.length)
    | none => .error .badTag

def read (inFlow : Bool) (c : Cursor) : Except SyntaxError (Token × Cursor) := do
  let (token, c) ← match c.rest with
    | '!' :: '<' :: _ => do
      let (meaning, c) ← uri true [] (c.advance 2)
      if c.peek == some '>' then pure (Token.tag "" meaning, c.advance 1) else throw .badTag
    | _ => do
      let name := (c.advance 1).rest.takeWhile isNameChar
      let after := c.advance (name.length + 1)
      if after.peek == some '!' then do
        let (suffix, c) ← uri false [] (after.advance 1)
        pure (Token.tag ("!" ++ String.ofList name ++ "!") suffix, c)
      else if name.isEmpty && !(after.peek.map (isUriChar false)).getD false then
        pure (Token.tag "" "!", after)
      else do
        let (suffix, c) ← uri false name after
        pure (Token.tag "!" suffix, c)
  let ends := startsBlank c.rest || (inFlow && c.peek == some ',')
  if ends then return (token, c) else throw .badTag

end Tag

namespace Directive

def number (c : Cursor) : Except SyntaxError (Nat × Cursor) :=
  let digits := c.rest.takeWhile Char.isDigit
  if digits.isEmpty || digits.length > 9 then .error .badDirective
  else .ok (Reading.decimalValue digits, c.advance digits.length)

def version (c : Cursor) : Except SyntaxError (Token × Cursor) := do
  let (major, c) ← number (c.advanceWhile isBlank)
  if c.peek != some '.' then throw .badDirective
  let (minor, c) ← number (c.advance 1)
  return (.version major minor, c)

def tagHandle (c : Cursor) : Except SyntaxError (Token × Cursor) := do
  let c := c.advanceWhile isBlank
  if c.peek != some '!' then throw .badDirective
  let name := (c.advance 1).rest.takeWhile isNameChar
  let after := c.advance (name.length + 1)
  let (handle, c) ←
    if after.peek == some '!' then
      pure ("!" ++ String.ofList name ++ "!", after.advance 1)
    else if name.isEmpty then pure ("!", after)
    else throw .badDirective
  let gap := c.advanceWhile isBlank
  if gap.column == c.column then throw .badDirective
  let (meaning, c) ← Tag.uri true [] gap
  if startsBlank c.rest then return (.tagHandle handle meaning, c) else throw .badDirective

/-- Read a directive that begins with its percent sign, up to the end of its line. -/
def read (c : Cursor) : Except SyntaxError (Token × Cursor) := do
  let name := (c.advance 1).rest.takeWhile isNameChar
  let after := c.advance (name.length + 1)
  if !startsBlank after.rest then throw .badDirective
  let (token, c) ← match String.ofList name with
    | "YAML" => version after
    | "TAG" => tagHandle after
    | _ => throw .badDirective
  let c := c.advanceWhile isBlank
  let c := if c.peek == some '#' then c.skipLine else c
  match c.peek, c.takeBreak? with
  | none, _ => return (token, c)
  | some _, some (_, c) => return (token, c)
  | some _, none => throw .badDirective

end Directive

end Yaml

end StepScript
