import StepScript.Number.Power
import StepScript.Pattern.Basic

/-!
# Pattern reader — patterns from text

The reader follows the usual notation: classes in brackets with ranges, nesting and the operations
`&&`, `--` and `~~`; groups with names and flags; `?`, `*`, `+` and counts between braces; escapes.
Look-around and back references are not part of the notation.

A refused pattern is reported with the columns at fault, and `Refusal.message` draws them under the
pattern.
-/

namespace StepScript

namespace Pattern

inductive Fault where
  | classUnclosed
  | classRangeInvalid
  | classRangeLiteral
  | classEscapeInvalid
  | hexEmpty
  | hexInvalid
  | hexInvalidDigit
  | escapeUnexpectedEnd
  | escapeUnrecognized
  | flagDanglingNegation
  | flagDuplicate
  | flagRepeatedNegation
  | flagUnexpectedEnd
  | flagUnrecognized
  | groupNameDuplicate
  | groupNameEmpty
  | groupNameInvalid
  | groupNameUnexpectedEnd
  | groupUnclosed
  | groupUnopened
  | countInvalid
  | countEmpty
  | countTooLarge
  | countUnclosed
  | repetitionMissing
  | unicodeClassInvalid
  | unicodePropertyUnknown
  | backreference
  | lookAround
  | tooDeep
  deriving DecidableEq

def Fault.message : Fault → String
  | .classUnclosed => "unclosed character class"
  | .classRangeInvalid => "invalid character class range, the start must be <= the end"
  | .classRangeLiteral => "invalid range boundary, must be a literal"
  | .classEscapeInvalid => "invalid escape sequence found in character class"
  | .hexEmpty => "hexadecimal literal empty"
  | .hexInvalid => "hexadecimal literal is not a Unicode scalar value"
  | .hexInvalidDigit => "invalid hexadecimal digit"
  | .escapeUnexpectedEnd => "incomplete escape sequence, reached end of pattern prematurely"
  | .escapeUnrecognized => "unrecognized escape sequence"
  | .flagDanglingNegation => "dangling flag negation operator"
  | .flagDuplicate => "duplicate flag"
  | .flagRepeatedNegation => "flag negation operator repeated"
  | .flagUnexpectedEnd => "expected flag but got end of regex"
  | .flagUnrecognized => "unrecognized flag"
  | .groupNameDuplicate => "duplicate capture group name"
  | .groupNameEmpty => "empty capture group name"
  | .groupNameInvalid => "invalid capture group character"
  | .groupNameUnexpectedEnd => "unclosed capture group name"
  | .groupUnclosed => "unclosed group"
  | .groupUnopened => "unopened group"
  | .countInvalid => "invalid repetition count range, the start must be <= the end"
  | .countEmpty => "repetition quantifier expects a valid decimal"
  | .countTooLarge => "decimal literal invalid"
  | .countUnclosed => "unclosed counted repetition"
  | .repetitionMissing => "repetition operator missing expression"
  | .unicodeClassInvalid => "invalid Unicode character class"
  | .unicodePropertyUnknown => "Unicode property not found"
  | .backreference => "backreferences are not supported"
  | .lookAround => "look-around, including look-ahead and look-behind, is not supported"
  | .tooDeep => "exceeded the maximum number of nested parentheses/brackets (250)"

/-- A fault and the columns it is at, from `first` up to but not including `last`.  A fault about a
repetition of something also shows where that was written first. -/
structure Refusal where
  fault : Fault
  first : Nat
  last : Nat
  earlier : Option (Nat × Nat)

/-- Carets under the columns of a span, on a line that has reached `column`. -/
def carets (column : Nat) (first last : Nat) : String :=
  String.ofList (List.replicate (first - column) ' ' ++ List.replicate (max 1 (last - first)) '^')

/-- The report of a refused pattern: the pattern, the columns at fault, and the fault. -/
def Refusal.message (r : Refusal) (pattern : String) : String :=
  let marks := match r.earlier with
    | some (first, last) =>
      carets 0 first last ++ carets (first + max 1 (last - first)) r.first r.last
    | none => carets 0 r.first r.last
  "regex parse error:\n    " ++ pattern ++ "\n    " ++ marks ++ "\nerror: " ++ r.fault.message

/-! ## Reading state -/

structure Cursor where
  rest : List Char
  column : Nat

def Cursor.skip (c : Cursor) (n : Nat) : Cursor :=
  ⟨c.rest.drop n, c.column + min n c.rest.length⟩

structure Flags where
  ignoreCase : Bool
  multiLine : Bool
  dotMatchesNewLine : Bool
  ignoreSpace : Bool

def Flags.initial : Flags := ⟨false, false, false, false⟩

def refuse {α : Type} (fault : Fault) (first last : Nat) : Except Refusal α :=
  .error ⟨fault, first, last, none⟩

def skipSpace (flags : Flags) : Nat → Cursor → Cursor
  | 0, c => c
  | fuel + 1, c =>
    if !flags.ignoreSpace then c
    else
      match c.rest with
      | '#' :: rest =>
        let comment := (rest.takeWhile (· != '\n')).length
        skipSpace flags fuel (c.skip (1 + comment))
      | d :: _ => if Blank.isBlank d then skipSpace flags fuel (c.skip 1) else c
      | [] => c

def Cursor.space (flags : Flags) (c : Cursor) : Cursor :=
  skipSpace flags (c.rest.length + 1) c

def Cursor.next (flags : Flags) (c : Cursor) : Cursor :=
  (c.skip 1).space flags

/-! ## Escapes -/

inductive Primitive where
  | literal (c : Char)
  | chars (chars : CharClass)
  | assert (assertion : Assertion)

def isMeta (c : Char) : Bool :=
  "\\.+*?()|[]\x7b\x7d^$#&-~".toList.contains c

def isEscapable (c : Char) : Bool :=
  isMeta c || (c.toNat < 128 && !c.isAlphanum && c != '<' && c != '>')

def isHexDigit (c : Char) : Bool :=
  c.isDigit || ('a' ≤ c && c ≤ 'f') || ('A' ≤ c && c ≤ 'F')

def hexValue (cs : List Char) : Nat :=
  cs.foldl (fun n c =>
    n * 16 + (if c.isDigit then c.toNat - 48 else c.toLower.toNat - 87)) 0

def scalar? (n : Nat) : Option Char :=
  if n < 0xD800 || (0xE000 ≤ n && n < 0x110000) then some (Char.ofNat n) else none

def hexBraced (flags : Flags) (start : Nat) : Nat → Cursor → List Char →
    Except Refusal (Char × Cursor)
  | 0, c, _ => refuse .escapeUnexpectedEnd start c.column
  | fuel + 1, c, done =>
    match c.rest with
    | [] => refuse .escapeUnexpectedEnd start c.column
    | '\x7d' :: _ =>
      let after := c.next flags
      if done.isEmpty then refuse .hexEmpty start after.column
      else
        match scalar? (hexValue done.reverse) with
        | some ch => .ok (ch, after)
        | none => refuse .hexInvalid (start + 1) c.column
    | d :: _ =>
      if isHexDigit d then hexBraced flags start fuel (c.next flags) (d :: done)
      else refuse .hexInvalidDigit c.column (c.column + 1)

def hexDigits (flags : Flags) (start : Nat) : Nat → Cursor → List Char →
    Except Refusal (Char × Cursor)
  | 0, c, done =>
    match scalar? (hexValue done.reverse) with
    | some ch => .ok (ch, c)
    | none => refuse .hexInvalid start c.column
  | count + 1, c, done =>
    match c.rest with
    | [] => refuse .escapeUnexpectedEnd c.column c.column
    | d :: _ =>
      if isHexDigit d then hexDigits flags start count (c.next flags) (d :: done)
      else refuse .hexInvalidDigit c.column (c.column + 1)

def hexEscape (flags : Flags) (count : Nat) (c : Cursor) : Except Refusal (Char × Cursor) :=
  let c := c.next flags
  match c.rest with
  | [] => refuse .escapeUnexpectedEnd c.column c.column
  | '\x7b' :: rest => hexBraced flags c.column (rest.length + 1) (c.next flags) []
  | _ => hexDigits flags c.column count c []

def boundaryNamed? (name : String) : Option Assertion :=
  if name == "start" then some .wordStart
  else if name == "end" then some .wordEnd
  else if name == "start-half" then some .wordStartHalf
  else if name == "end-half" then some .wordEndHalf
  else none

def boundary (c : Cursor) : Primitive × Cursor :=
  match c.rest with
  | '\x7b' :: rest =>
    let name := rest.takeWhile fun d => d.isAlpha || d == '-'
    match boundaryNamed? (String.ofList name), rest.drop name.length with
    | some kind, '\x7d' :: _ => (.assert kind, c.skip (name.length + 2))
    | _, _ => (.assert .wordBoundary, c)
  | _ => (.assert .wordBoundary, c)

def classNamed? (c : Char) : Option CharClass :=
  if c = 'd' then some .digit
  else if c = 'D' then some (.complement .digit)
  else if c = 's' then some .blank
  else if c = 'S' then some (.complement .blank)
  else if c = 'w' then some .word
  else if c = 'W' then some (.complement .word)
  else none

def controlNamed? (c : Char) : Option Char :=
  if c = 'a' then some '\x07'
  else if c = 'f' then some '\x0c'
  else if c = 't' then some '\t'
  else if c = 'n' then some '\n'
  else if c = 'r' then some '\r'
  else if c = 'v' then some '\x0b'
  else none

/-- Refuse a class of a Unicode property; the properties themselves are not known here. -/
def propertyEscape (start : Nat) (c : Cursor) : Except Refusal (Primitive × Cursor) :=
  match c.rest.drop 1 with
  | [] => refuse .escapeUnexpectedEnd (c.column + 1) (c.column + 1)
  | '\x7b' :: rest =>
    let name := rest.takeWhile (· != '\x7d')
    if name.length = rest.length then
      refuse .escapeUnexpectedEnd (c.column + 1) (c.column + 2 + rest.length)
    else refuse .unicodePropertyUnknown start (c.column + 3 + name.length)
  | _ => refuse .unicodePropertyUnknown start (c.column + 2)

def escape (flags : Flags) (start : Nat) (c : Cursor) : Except Refusal (Primitive × Cursor) :=
  match c.rest with
  | [] => refuse .escapeUnexpectedEnd start c.column
  | d :: _ =>
    let after := c.skip 1
    if d.isDigit then refuse .backreference start after.column
    else if d = 'x' || d = 'u' || d = 'U' then do
      let count := if d = 'x' then 2 else if d = 'u' then 4 else 8
      let (ch, c) ← hexEscape flags count c
      return (.literal ch, c)
    else if d = 'p' || d = 'P' then propertyEscape start c
    else
      match classNamed? d, controlNamed? d with
      | some k, _ => .ok (.chars k, after)
      | none, some ch => .ok (.literal ch, after)
      | none, none =>
        if isEscapable d then .ok (.literal d, after)
        else if d = 'A' then .ok (.assert .textStart, after)
        else if d = 'z' then .ok (.assert .textEnd, after)
        else if d = 'b' then .ok (boundary after)
        else if d = 'B' then .ok (.assert .insideWord, after)
        else if d = '<' then .ok (.assert .wordStart, after)
        else if d = '>' then .ok (.assert .wordEnd, after)
        else refuse .escapeUnrecognized start after.column

/-! ## Classes in brackets -/

def asciiClass? (name : String) : Option CharClass :=
  let r (low high : Char) : CharClass := .range low high
  let letters := [r 'a' 'z', r 'A' 'Z']
  let punctuation := [r '!' '/', r ':' '@', r '[' (Char.ofNat 96), r '\x7b' '~']
  if name == "alnum" then some (.union (r '0' '9' :: letters))
  else if name == "alpha" then some (.union letters)
  else if name == "ascii" then some (r '\x00' '\x7f')
  else if name == "blank" then some (.union [CharClass.single '\t', CharClass.single ' '])
  else if name == "cntrl" then some (.union [r '\x00' '\x1f', CharClass.single '\x7f'])
  else if name == "digit" then some (r '0' '9')
  else if name == "graph" then some (r '!' '~')
  else if name == "lower" then some (r 'a' 'z')
  else if name == "print" then some (r ' ' '~')
  else if name == "punct" then some (.union punctuation)
  else if name == "space" then some (.union [r '\t' '\r', CharClass.single ' '])
  else if name == "upper" then some (r 'A' 'Z')
  else if name == "word" then some (.union (r '0' '9' :: CharClass.single '_' :: letters))
  else if name == "xdigit" then some (.union [r '0' '9', r 'a' 'f', r 'A' 'F'])
  else none

/-- Read a named class such as `[:alpha:]` or `[:^alpha:]`; `none` if there is none here. -/
def named? (c : Cursor) : Option (CharClass × Cursor) :=
  match c.rest with
  | '[' :: ':' :: rest =>
    let negated := rest.head? == some '^'
    let body := if negated then rest.drop 1 else rest
    let name := body.takeWhile (· != ':')
    match asciiClass? (String.ofList name), body.drop name.length with
    | some k, ':' :: ']' :: _ =>
      let size := 2 + (if negated then 1 else 0) + name.length + 2
      some (if negated then .complement k else k, c.skip size)
    | _, _ => none
  | _ => none

def classItem (flags : Flags) (c : Cursor) : Except Refusal (Primitive × Nat × Cursor) :=
  match c.rest with
  | '\\' :: _ => do
    let (p, after) ← escape flags c.column (c.skip 1)
    return (p, c.column, after)
  | d :: _ => .ok (.literal d, c.column, c.skip 1)
  | [] => refuse .classUnclosed c.column c.column

def itemClass (p : Primitive) (first last : Nat) : Except Refusal CharClass :=
  match p with
  | .literal d => .ok (CharClass.single d)
  | .chars k => .ok k
  | .assert _ => refuse .classEscapeInvalid first last

def itemLiteral (p : Primitive) (first last : Nat) : Except Refusal Char :=
  match p with
  | .literal d => .ok d
  | _ => refuse .classRangeLiteral first last

/-- Read an item or a range inside brackets that opened at `start`. -/
def classRange (flags : Flags) (start opened : Nat) (c : Cursor) :
    Except Refusal (CharClass × Cursor) := do
  let (p, first, c) ← classItem flags c
  let last := c.column
  let c := c.space flags
  let following := ((c.skip 1).space flags).rest.head?
  match c.rest with
  | [] => refuse .classUnclosed start opened
  | '-' :: _ =>
    -- before a closing bracket or another hyphen, the hyphen makes no range
    if following == some ']' || following == some '-' then return (← itemClass p first last, c)
    else
      let c := c.next flags
      if c.rest.isEmpty then refuse .classUnclosed start opened
      else
        let (q, second, c) ← classItem flags c
        let low ← itemLiteral p first last
        let high ← itemLiteral q second c.column
        if low ≤ high then return (.range low high, c)
        else refuse .classRangeInvalid first c.column
  | _ => return (← itemClass p first last, c)

inductive ClassOperation where
  | both
  | without
  | either

def combine (before : Option (CharClass × ClassOperation)) (parts : List CharClass) : CharClass :=
  let right := CharClass.union parts.reverse
  match before with
  | none => right
  | some (left, .both) => .both left right
  | some (left, .without) => .without left right
  | some (left, .either) => .either left right

/-- Leading hyphens stand for themselves. -/
def leadingHyphens (flags : Flags) (start : Nat) : Nat → Cursor → List CharClass →
    Except Refusal (List CharClass × Cursor)
  | 0, c, parts => .ok (parts, c)
  | fuel + 1, c, parts =>
    match c.rest with
    | '-' :: _ =>
      let c := c.next flags
      if c.rest.isEmpty then refuse .classUnclosed start start
      else leadingHyphens flags start fuel c (CharClass.single '-' :: parts)
    | _ => .ok (parts, c)

/-- What follows an opening bracket: whether the class is negated, its first parts, and the column
after them. -/
def classOpen (flags : Flags) (c : Cursor) : Except Refusal (Bool × List CharClass × Cursor) := do
  let start := c.column
  let c := c.next flags
  if c.rest.isEmpty then refuse .classUnclosed start c.column
  let negated := c.rest.head? == some '^'
  let c := if negated then c.next flags else c
  if c.rest.isEmpty then refuse .classUnclosed start c.column
  let (parts, c) ← leadingHyphens flags start c.rest.length c []
  match parts, c.rest with
  -- a closing bracket in the first place stands for itself
  | [], ']' :: _ =>
    let c := c.next flags
    if c.rest.isEmpty then refuse .classUnclosed start c.column
    else return (negated, [CharClass.single ']'], c)
  | _, _ => return (negated, parts, c)

/-- Read the rest of a class up to its closing bracket.  `start` and `opened` are the columns of
its opening. -/
def classBody (flags : Flags) (start opened : Nat) : Nat → Cursor →
    Option (CharClass × ClassOperation) → List CharClass → Except Refusal (CharClass × Cursor)
  | 0, _, _, _ => refuse .tooDeep start opened
  | fuel + 1, c, before, parts =>
    let c := c.space flags
    match c.rest with
    | [] => refuse .classUnclosed start opened
    | ']' :: _ => .ok (combine before parts, c.skip 1)
    | '&' :: '&' :: _ =>
      classBody flags start opened fuel (c.skip 2) (some (combine before parts, .both)) []
    | '-' :: '-' :: _ =>
      classBody flags start opened fuel (c.skip 2) (some (combine before parts, .without)) []
    | '~' :: '~' :: _ =>
      classBody flags start opened fuel (c.skip 2) (some (combine before parts, .either)) []
    | '[' :: _ =>
      match named? c with
      | some (k, c) => classBody flags start opened fuel c before (k :: parts)
      | none => do
        let (negated, inner, after) ← classOpen flags c
        let (k, after) ← classBody flags c.column after.column fuel after none inner
        classBody flags start opened fuel after before
          ((if negated then .complement k else k) :: parts)
    | _ => do
      let (k, c) ← classRange flags start opened c
      classBody flags start opened fuel c before (k :: parts)

def bracketed (flags : Flags) (c : Cursor) : Except Refusal (CharClass × Cursor) := do
  let (negated, parts, after) ← classOpen flags c
  let (k, after) ← classBody flags c.column after.column (after.rest.length + 1) after none parts
  let k := if flags.ignoreCase then CharClass.foldCase k else k
  return (if negated then .complement k else k, after)

/-! ## Flags and group names -/

def Flags.set? (flags : Flags) (letter : Char) (value : Bool) : Option Flags :=
  if letter = 'i' then some { flags with ignoreCase := value }
  else if letter = 'm' then some { flags with multiLine := value }
  else if letter = 's' then some { flags with dotMatchesNewLine := value }
  else if letter = 'x' then some { flags with ignoreSpace := value }
  else if letter = 'U' || letter = 'u' || letter = 'R' then some flags
  else none

/-- Read flags up to a colon or a closing parenthesis.  `seen` holds the letters so far with their
columns; the hyphen is among them. -/
def flagItems : Nat → Cursor → Flags → Bool → List (Char × Nat) → Except Refusal (Flags × Cursor)
  | 0, c, _, _, _ => refuse .flagUnexpectedEnd c.column c.column
  | fuel + 1, c, flags, value, seen =>
    match c.rest with
    | [] => refuse .flagUnexpectedEnd c.column c.column
    | d :: _ =>
      if d = ':' || d = ')' then
        match seen with
        | ('-', column) :: _ => refuse .flagDanglingNegation column (column + 1)
        | _ => .ok (flags, c)
      else
        match seen.find? (·.1 = d) with
        | some (_, column) =>
          let fault := if d = '-' then Fault.flagRepeatedNegation else .flagDuplicate
          .error ⟨fault, c.column, c.column + 1, some (column, column + 1)⟩
        | none =>
          if d = '-' then flagItems fuel (c.skip 1) flags false ((d, c.column) :: seen)
          else
            match flags.set? d value with
            | some flags => flagItems fuel (c.skip 1) flags value ((d, c.column) :: seen)
            | none => refuse .flagUnrecognized c.column (c.column + 1)

/-- Characters of a group name; a digit, a point and a bracket may not come first. -/
def isNameChar (first : Bool) (d : Char) : Bool :=
  if first then d == '_' || (WordChar.isWord d && !DecimalDigit.isDecimal d)
  else d == '_' || d == '.' || d == '[' || d == ']' || WordChar.isWord d

def groupName (start : Nat) : Nat → Cursor → List Char → Except Refusal (List Char × Cursor)
  | 0, c, _ => refuse .groupNameUnexpectedEnd c.column c.column
  | fuel + 1, c, done =>
    match c.rest with
    | [] => refuse .groupNameUnexpectedEnd c.column c.column
    | '>' :: _ =>
      if done.isEmpty then refuse .groupNameEmpty start start
      else .ok (done.reverse, c.skip 1)
    | d :: _ =>
      if isNameChar done.isEmpty d then groupName start fuel (c.skip 1) (d :: done)
      else refuse .groupNameInvalid c.column (c.column + 1)

/-! ## Repetition -/

def count (flags : Flags) (c : Cursor) : Except Refusal (Nat × Cursor) :=
  let c := c.space flags
  let ds := c.rest.takeWhile Char.isDigit
  let after := c.skip ds.length
  if ds.isEmpty then refuse .countEmpty c.column after.column
  else
    let n := ds.foldl (fun n d => n * 10 + (d.toNat - 48)) 0
    if n ≥ twoPow 32 then refuse .countTooLarge c.column after.column
    else .ok (n, after.space flags)

/-- A question mark after a repetition asks for the shortest match. -/
def afterLazyMark (c : Cursor) : Cursor :=
  if c.rest.head? == some '?' then c.skip 1 else c

def counted (flags : Flags) (c : Cursor) : Except Refusal (Nat × Option Nat × Cursor) := do
  let start := c.column
  let c := c.next flags
  if c.rest.isEmpty then refuse .countUnclosed start c.column
  let (least, c) ← count flags c
  match c.rest with
  | [] => refuse .countUnclosed start c.column
  | ',' :: _ =>
    let c := c.next flags
    match c.rest with
    | [] => refuse .countUnclosed start c.column
    | '\x7d' :: _ => return (least, none, afterLazyMark (c.skip 1))
    | _ =>
      let (most, c) ← count flags c
      match c.rest with
      | '\x7d' :: _ =>
        let after := afterLazyMark (c.skip 1)
        if least ≤ most then return (least, some most, after)
        else refuse .countInvalid start after.column
      | _ => refuse .countUnclosed start c.column
  | '\x7d' :: _ => return (least, some least, afterLazyMark (c.skip 1))
  | _ => refuse .countUnclosed start c.column

/-! ## Patterns -/

def primitivePattern (flags : Flags) : Primitive → Pattern
  | .literal d =>
    .one (if flags.ignoreCase then CharClass.singleFolded d else CharClass.single d)
  | .chars k => .one k
  | .assert a => .assert a

/-- What a group reader has gathered: the finished branches, the parts of the branch under way, and
whether its last part is a change of flags, which cannot be repeated. -/
structure Gathered where
  branches : List Pattern
  parts : List Pattern
  afterFlags : Bool
  flags : Flags
  names : List (List Char × Nat × Nat)

def Gathered.pattern (g : Gathered) : Pattern :=
  .choice ((.sequence g.parts.reverse :: g.branches).reverse)

def Gathered.push (g : Gathered) (p : Pattern) : Gathered :=
  { g with parts := p :: g.parts, afterFlags := false }

def Gathered.repeatLast (g : Gathered) (column least : Nat) (most : Option Nat) :
    Except Refusal Gathered :=
  match g.parts, g.afterFlags with
  | p :: rest, false => .ok { g with parts := .loop p least most :: rest }
  | _, _ => refuse .repetitionMissing column column

/-- Read branches up to the end or to the parenthesis that closes the group.  `opened` is the column
of the group's parenthesis, if there is one. -/
def branches (opened : Option Nat) : Nat → Cursor → Gathered → Except Refusal (Gathered × Cursor)
  | 0, c, _ => refuse .tooDeep c.column c.column
  | fuel + 1, c, g =>
    let c := c.space g.flags
    match c.rest with
    | [] =>
      match opened with
      | some column => refuse .groupUnclosed column (column + 1)
      | none => .ok (g, c)
    | '|' :: _ =>
      branches opened fuel (c.skip 1)
        { g with branches := .sequence g.parts.reverse :: g.branches, parts := [],
                 afterFlags := false }
    | ')' :: _ =>
      match opened with
      | some _ => .ok (g, c.skip 1)
      | none => refuse .groupUnopened c.column (c.column + 1)
    | '(' :: rest =>
      let inner (c' : Cursor) (flags : Flags) (names : List (List Char × Nat × Nat)) := do
        let (h, after) ← branches (some c.column) fuel c' ⟨[], [], false, flags, names⟩
        branches opened fuel after { g.push h.pattern with names := h.names }
      let nameAt (size : Nat) := do
        let start := c.skip size
        let (name, after) ← groupName start.column (start.rest.length + 1) start []
        match g.names.find? (·.1 = name) with
        | some (_, first, last) =>
          .error ⟨.groupNameDuplicate, start.column, after.column - 1, some (first, last)⟩
        | none => inner after g.flags ((name, start.column, after.column - 1) :: g.names)
      match rest with
      | '?' :: '=' :: _ => refuse .lookAround c.column (c.column + 3)
      | '?' :: '!' :: _ => refuse .lookAround c.column (c.column + 3)
      | '?' :: '<' :: '=' :: _ => refuse .lookAround c.column (c.column + 4)
      | '?' :: '<' :: '!' :: _ => refuse .lookAround c.column (c.column + 4)
      | '?' :: 'P' :: '<' :: _ => nameAt 4
      | '?' :: '<' :: _ => nameAt 3
      | ['?'] => refuse .groupUnclosed c.column (c.column + 1)
      | '?' :: _ => do
        let (flags, after) ← flagItems (rest.length + 1) (c.skip 2) g.flags true []
        match after.rest with
        -- flags alone hold up to the end of the group around them
        | ')' :: _ =>
          if after.column = c.column + 2 then
            refuse .repetitionMissing (c.column + 1) (c.column + 1)
          else branches opened fuel (after.skip 1) { g with flags := flags, afterFlags := true }
        | _ => inner (after.skip 1) flags g.names
      | _ => inner ((c.skip 1).space g.flags) g.flags g.names
    | '[' :: _ => do
      let (k, after) ← bracketed g.flags c
      branches opened fuel after (g.push (.one k))
    | '?' :: _ => do
      branches opened fuel (afterLazyMark (c.skip 1)) (← g.repeatLast c.column 0 (some 1))
    | '*' :: _ => do
      branches opened fuel (afterLazyMark (c.skip 1)) (← g.repeatLast c.column 0 none)
    | '+' :: _ => do
      branches opened fuel (afterLazyMark (c.skip 1)) (← g.repeatLast c.column 1 none)
    | '\x7b' :: _ => do
      -- that something can be repeated is looked at before the counts are
      let _ ← g.repeatLast c.column 0 none
      let (least, most, after) ← counted g.flags c
      branches opened fuel after (← g.repeatLast c.column least most)
    | '\\' :: _ => do
      let (p, after) ← escape g.flags c.column (c.skip 1)
      branches opened fuel after (g.push (primitivePattern g.flags p))
    | '.' :: _ =>
      let k := if g.flags.dotMatchesNewLine then CharClass.any
        else .complement (CharClass.single '\n')
      branches opened fuel (c.skip 1) (g.push (.one k))
    | '^' :: _ =>
      let a := if g.flags.multiLine then Assertion.lineStart else .textStart
      branches opened fuel (c.skip 1) (g.push (.assert a))
    | '$' :: _ =>
      let a := if g.flags.multiLine then Assertion.lineEnd else .textEnd
      branches opened fuel (c.skip 1) (g.push (.assert a))
    | d :: _ => branches opened fuel (c.skip 1) (g.push (primitivePattern g.flags (.literal d)))

def read (text : String) : Except Refusal Pattern := do
  let cs := text.toList
  let (g, _) ← branches none (cs.length + 1) ⟨cs, 0⟩ ⟨[], [], false, Flags.initial, []⟩
  return g.pattern

end Pattern

end StepScript
