import StepScript.Yaml.Scalar.Block
import StepScript.Yaml.Scalar.Plain
import StepScript.Yaml.Scalar.Quoted
import StepScript.Yaml.Tag

/-!
# Layout — from indentation to tokens

`Token.ofText` reads a text as a list of tokens.  Outside brackets the indentation of entries and keys
says where block collections begin and end; inside brackets it does not matter.

A key has to be followed by its colon on its line and within `keyLength` characters.  Until then its
place is kept; an enclosing flow collection can be a key itself, so there is one kept place for each
level of brackets.  A place is *required* to become a key if it stands where the keys of the
surrounding block mapping begin.

When a text turns out to be wrong, the tokens before the first place that is still kept are the ones
that could be told for certain; the last token says what is wrong.
-/

namespace StepScript

namespace Yaml

/-- The number of characters within which the colon of a key has to follow. -/
def keyLength : Nat := 1024

/-- A place whose colon may still follow. -/
structure OpenKey where
  place : Nat
  required : Bool
  /-- Where the key begins. -/
  line : Nat
  column : Nat
  index : Nat

/-- How far a text has been read. -/
structure Layout where
  cursor : Cursor
  /-- The columns of the open block collections, innermost first. -/
  blocks : List Nat
  /-- Whether a key may begin here. -/
  keyAllowed : Bool
  /-- The kept place of the innermost level of brackets. -/
  openKey : Option OpenKey
  /-- The kept places of the enclosing levels, innermost first. -/
  outerKeys : List (Option OpenKey)
  /-- What has been read, backwards. -/
  marks : List Mark
  /-- How many marks have been read. -/
  count : Nat
  found : List FoundKey
  /-- The numbers of the names of nodes. -/
  names : Table Nat

namespace Layout

def start (text : List Char) : Layout :=
  ⟨Cursor.start text, [], true, none, [], [], 0, [], []⟩

def inFlow (l : Layout) : Bool :=
  !l.outerKeys.isEmpty

/-- The least column that belongs to the innermost block collection. -/
def indent (l : Layout) : Nat :=
  match l.blocks with
  | [] => 0
  | column :: _ => column + 1

def mark (l : Layout) (m : Mark) : Layout :=
  { l with marks := m :: l.marks, count := l.count + 1 }

def push (l : Layout) (t : Token) : Layout :=
  l.mark (.token t)

def goto (l : Layout) (c : Cursor) : Layout :=
  { l with cursor := c }

def pushSign (l : Layout) (t : Token) (length : Nat) : Layout :=
  (l.push t).goto (l.cursor.advance length)

/-! ## Places of keys -/

def dropKey (l : Layout) : Except SyntaxError Layout :=
  match l.openKey with
  | some k => if k.required then .error .missingColon else .ok { l with openKey := none }
  | none => .ok l

def keepKey (l : Layout) : Except SyntaxError Layout := do
  if l.keyAllowed then
    let l ← l.dropKey
    let c := l.cursor
    -- at the column of the open block mapping nothing but a key can stand
    let required := !l.inFlow && l.blocks.head? == some c.column
    return ({ l with openKey := some ⟨l.count, required, c.line, c.column, c.index⟩ }).mark
      (.place l.count)
  else return l

/-- Give up a place whose colon can no longer follow. -/
def checkKey (c : Cursor) (k : Option OpenKey) : Except SyntaxError (Option OpenKey) :=
  match k with
  | none => .ok none
  | some k =>
    if k.line < c.line || k.index + keyLength < c.index then
      if k.required then .error .missingColon else .ok none
    else .ok (some k)

def checkKeys (l : Layout) : Except SyntaxError Layout := do
  let openKey ← checkKey l.cursor l.openKey
  let outerKeys ← l.outerKeys.mapM (checkKey l.cursor)
  return { l with openKey := openKey, outerKeys := outerKeys }

/-! ## Block collections -/

/-- Close the block collections that begin to the right of the least column that stays open. -/
def closeFrom (least : Nat) : List Nat → Layout → Layout
  | [], l => { l with blocks := [] }
  | column :: rest, l =>
    if least ≤ column then closeFrom least rest (l.push .blockEnd)
    else { l with blocks := column :: rest }

def closeTo (l : Layout) (column : Nat) : Layout :=
  if l.inFlow then l else closeFrom (column + 1) l.blocks l

def closeAll (l : Layout) : Layout :=
  if l.inFlow then l else closeFrom 0 l.blocks l

/-- Open a block collection at a column, if none is open there. -/
def openAt (l : Layout) (column : Nat) (t : Token) : Layout :=
  if !l.inFlow && l.indent ≤ column then { l.push t with blocks := column :: l.blocks } else l

/-! ## Tokens -/

/-- Move over blanks, comments and line breaks.  A new line may begin with a key, and its indentation
must not hold tabs.  The length of the text is enough `fuel`. -/
def skipGap : Nat → Layout → Layout
  | 0, l => l
  | fuel + 1, l =>
    let c := l.cursor
    -- a byte order mark may stand at the beginning of any line
    let c := if c.column == 0 && c.peek == some byteOrderMark then c.advance 1 else c
    -- where a key may begin, a tab would leave its column open
    let tabs := l.inFlow || !l.keyAllowed
    let c := c.advanceWhile fun x => x == ' ' || (tabs && x == '\t')
    let c := if c.peek == some '#' then c.skipLine else c
    match c.takeBreak? with
    | some (_, c) => skipGap fuel { l with cursor := c, keyAllowed := l.keyAllowed || !l.inFlow }
    | none => l.goto c

def documentMark (l : Layout) (t : Token) : Except SyntaxError Layout := do
  let l ← l.closeAll.dropKey
  return { l.pushSign t 3 with keyAllowed := false }

def directive (l : Layout) : Except SyntaxError Layout := do
  let l ← l.closeAll.dropKey
  let (t, c) ← Directive.read l.cursor
  return { (l.push t).goto c with keyAllowed := false }

def openFlow (l : Layout) (t : Token) : Except SyntaxError Layout := do
  let l ← l.keepKey
  return { l.pushSign t 1 with
    openKey := none, outerKeys := l.openKey :: l.outerKeys, keyAllowed := true }

def closeFlow (l : Layout) (t : Token) : Except SyntaxError Layout := do
  let l ← l.dropKey
  let l := match l.outerKeys with
    | [] => l
    | k :: rest => { l with openKey := k, outerKeys := rest }
  return { l.pushSign t 1 with keyAllowed := false }

def separator (l : Layout) : Except SyntaxError Layout := do
  let l ← l.dropKey
  return { l.pushSign .separator 1 with keyAllowed := true }

def entry (l : Layout) : Except SyntaxError Layout := do
  if !l.inFlow && !l.keyAllowed then throw .misplacedIndicator
  let l ← (l.openAt l.cursor.column .blockSequence).dropKey
  return { l.pushSign .entry 1 with keyAllowed := true }

def explicitKey (l : Layout) : Except SyntaxError Layout := do
  if !l.inFlow && !l.keyAllowed then throw .misplacedIndicator
  let l ← (l.openAt l.cursor.column .blockMapping).dropKey
  return { l.pushSign .key 1 with keyAllowed := !l.inFlow }

/-- Read a colon: the kept place has become a key, or the colon belongs to a key that is written
out. -/
def colon (l : Layout) : Except SyntaxError Layout :=
  match l.openKey with
  | some k =>
    -- a mapping that begins with this key begins in front of all that was read since
    let opens := !l.inFlow && l.indent ≤ k.column
    let l := { l with
      openKey := none
      keyAllowed := false
      found := ⟨k.place, opens⟩ :: l.found
      blocks := if opens then k.column :: l.blocks else l.blocks }
    .ok (l.pushSign .value 1)
  | none => do
    if !l.inFlow && !l.keyAllowed then throw .misplacedIndicator
    let l := l.openAt l.cursor.column .blockMapping
    return { l.pushSign .value 1 with keyAllowed := !l.inFlow }

/-- Read the name of a node.  A name is numbered by how many different names there are before it. -/
def anchor (l : Layout) : Except SyntaxError Layout := do
  let l ← l.keepKey
  let (name, c) ← anchorName (l.cursor.advance 1)
  let number := l.names.length
  return { (l.push (.anchor number)).goto c with
    keyAllowed := false, names := l.names.insert name number }

def reference (l : Layout) : Except SyntaxError Layout := do
  let l ← l.keepKey
  let (name, c) ← anchorName (l.cursor.advance 1)
  return { (l.push (.reference (l.names.find? name))).goto c with keyAllowed := false }

def tag (l : Layout) : Except SyntaxError Layout := do
  let l ← l.keepKey
  let (t, c) ← Tag.read l.inFlow l.cursor
  return { (l.push t).goto c with keyAllowed := false }

def blockScalar (size : Nat) (literal : Bool) (l : Layout) : Except SyntaxError Layout := do
  let l ← l.dropKey
  let (text, c) ← Block.read literal l.blocks.head? size l.cursor
  return { (l.push (.scalar false text)).goto c with keyAllowed := true }

def quoted (size : Nat) (single : Bool) (l : Layout) : Except SyntaxError Layout := do
  let l ← l.keepKey
  let (text, c) ← Quoted.read single size l.cursor
  return { (l.push (.scalar false text)).goto c with keyAllowed := false }

def plain (size : Nat) (l : Layout) : Except SyntaxError Layout := do
  let l ← l.keepKey
  let (text, newLine, c) ← Plain.read l.inFlow l.indent size l.cursor
  return { (l.push (.scalar true text)).goto c with keyAllowed := newLine }

/-- Characters that cannot begin a plain scalar, whatever follows them. -/
def isIndicator (c : Char) : Bool :=
  [',', '[', ']', '\x7b', '\x7d', '#', '&', '*', '!', '|', '>', Quoted.apostrophe, '"', '%', '@',
    Char.ofNat 96].contains c

def startsPlain (inFlow : Bool) (c : Char) (rest : List Char) : Bool :=
  if c == '-' then !(rest.head?.map isBlank).getD false
  else if c == '?' || c == ':' then !inFlow && !startsBlank rest
  else !(isBlank c || isBreak c || isIndicator c)

def finish (l : Layout) : Except SyntaxError Layout := do
  let l ← l.closeAll.dropKey
  return l.push .streamEnd

/-- Read the next token, and say whether it was the last one. -/
def step (size : Nat) (l : Layout) : Except SyntaxError (Layout × Bool) := do
  let l ← (skipGap size l).checkKeys
  -- what stands further left ends the collections that begin to its right
  let l := l.closeTo l.cursor.column
  let c := l.cursor
  match c.rest with
  | [] => return (← l.finish, true)
  | x :: rest =>
    let flow := l.inFlow
    let alone := flow || startsBlank rest
    let next ←
      if c.column == 0 && x == '%' then l.directive
      else if c.atDocumentMark then
        l.documentMark (if x == '-' then .documentStart else .documentEnd)
      else if x == '[' then l.openFlow .flowSequence
      else if x == '\x7b' then l.openFlow .flowMapping
      else if x == ']' then l.closeFlow .flowSequenceEnd
      else if x == '\x7d' then l.closeFlow .flowMappingEnd
      else if x == ',' then l.separator
      else if x == '-' && startsBlank rest then l.entry
      else if x == '?' && alone then l.explicitKey
      else if x == ':' && alone then l.colon
      else if x == '*' then l.reference
      else if x == '&' then l.anchor
      else if x == '!' then l.tag
      else if x == '|' && !flow then l.blockScalar size true
      else if x == '>' && !flow then l.blockScalar size false
      else if x == Quoted.apostrophe then l.quoted size true
      else if x == '"' then l.quoted size false
      else if startsPlain flow x rest then l.plain size
      else throw .misplacedIndicator
    return (next, false)

def tokens (l : Layout) : List Token :=
  l.marks.reverse.flatMap (Mark.tokens l.found)

def firstKept (l : Layout) : Option Nat :=
  (l.outerKeys.reverse ++ [l.openKey]).findSome? fun k => k.map OpenKey.place

/-- The tokens that are certain when an error is found, and the error. -/
def broken (l : Layout) (e : SyntaxError) : List Token :=
  let certain := match l.firstKept with
    -- a key at the kept place would still have put tokens in front of these
    | some place => { l with marks := l.marks.drop (l.count - place) }
    | none => l
  certain.tokens ++ [.bad e]

/-- Read all tokens.  Every token takes a character at least, so the length of the text is enough
`fuel`. -/
def run (size : Nat) : Nat → Layout → List Token
  | 0, l => l.broken .unexpectedEnd
  | fuel + 1, l =>
    match l.step size with
    | .error e => l.broken e
    | .ok (l, true) => l.tokens
    | .ok (l, false) => run size fuel l

end Layout

/-- The tokens of a text, which may begin with a byte order mark. -/
def Token.ofText (text : String) : List Token :=
  let cs := match text.toList with
    | c :: rest => if c == byteOrderMark then rest else c :: rest
    | [] => []
  if cs.all isAllowed then Layout.run (cs.length + 1) (cs.length + 2) (Layout.start cs)
  else [.bad .forbiddenCharacter]

end Yaml

end StepScript
