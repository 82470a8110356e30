import StepScript.Yaml.Cursor

/-!
# Block scalars

A block scalar holds the lines below its header that are indented enough.  After `|` line breaks stand
for themselves; after `>` single ones between lines that do not begin with a blank become blanks.
The header may fix the indentation by a digit, and says by a sign what becomes of the line breaks at
the end: one is kept, all with `+`, none with `-`.
-/

namespace StepScript

namespace Yaml

namespace Block

inductive Chomping where
  | clip
  | strip
  | keep
  deriving DecidableEq

structure Header where
  chomping : Chomping
  /-- The indentation relative to that of the surrounding collection. -/
  increment : Option Nat

def chomping? (c : Cursor) : Option (Chomping × Cursor) :=
  match c.peek with
  | some '+' => some (.keep, c.advance 1)
  | some '-' => some (.strip, c.advance 1)
  | _ => none

def increment? (c : Cursor) : Except SyntaxError (Option Nat × Cursor) :=
  match c.peek with
  | some d =>
    if d == '0' then .error .badHeader
    else if d.isDigit then .ok (some (d.toNat - '0'.toNat), c.advance 1)
    else .ok (none, c)
  | none => .ok (none, c)

/-- Read the sign and the digit of a header, in either order. -/
def header (c : Cursor) : Except SyntaxError (Header × Cursor) :=
  match chomping? c with
  | some (chomping, c) => do
    let (increment, c) ← increment? c
    return (⟨chomping, increment⟩, c)
  | none => do
    let (increment, c) ← increment? c
    match increment, chomping? c with
    | some n, some (chomping, c) => return (⟨chomping, some n⟩, c)
    | _, _ => return (⟨.clip, increment⟩, c)

/-- Read empty lines and the indentation of the line after them.  Without a known indentation all
blanks are read, and the answer has the greatest column that was reached. -/
def emptyLines (indent : Option Nat) : Nat → List Char → Nat → Cursor →
    Except SyntaxError (List Char × Nat × Cursor)
  | 0, breaks, deepest, c => .ok (breaks, deepest, c)
  | fuel + 1, breaks, deepest, c =>
    let spaces := (c.rest.takeWhile (· == ' ')).length
    let c := c.advance (match indent with
      | some n => min spaces (n - c.column)
      | none => spaces)
    let deepest := max deepest c.column
    let inside := match indent with
      | some n => c.column < n
      | none => true
    if inside && c.peek == some '\t' then .error .misplacedTab
    else
      match c.takeBreak? with
      | some (b, c) => emptyLines indent fuel (breaks ++ [b]) deepest c
      | none => .ok (breaks, deepest, c)

structure Lines where
  /-- The text without the breaks after its last line. -/
  text : List Char
  /-- The break that ends the last line. -/
  leading : List Char
  /-- The breaks of the empty lines after it. -/
  trailing : List Char
  /-- Whether the last line begins with a blank. -/
  blank : Bool

def Lines.join (l : Lines) (literal blank : Bool) : List Char :=
  if !literal && l.leading == ['\n'] && !l.blank && !blank then
    if l.trailing.isEmpty then [' '] else l.trailing
  else l.leading ++ l.trailing

def lines (literal : Bool) (indent size : Nat) : Nat → Lines → Cursor →
    Except SyntaxError (Lines × Cursor)
  | 0, l, c => .ok (l, c)
  | fuel + 1, l, c =>
    match c.peek with
    | none => .ok (l, c)
    | some x =>
      if c.column != indent then .ok (l, c)
      else do
        let blank := isBlank x
        let line := c.rest.takeWhile fun x => !isBreak x
        let text := l.text ++ l.join literal blank ++ line
        let c := c.skipLine
        let (leading, c) := match c.takeBreak? with
          | some (b, c) => ([b], c)
          | none => ([], c)
        let (trailing, _, c) ← emptyLines (some indent) size [] 0 c
        lines literal indent size fuel ⟨text, leading, trailing, blank⟩ c

def Lines.chomp (l : Lines) : Chomping → List Char
  | .strip => l.text
  | .clip => l.text ++ l.leading
  | .keep => l.text ++ l.leading ++ l.trailing

/-- Read a block scalar that begins with its indicator.  The surrounding block collection begins at
the column `parent`, if there is one. -/
def read (literal : Bool) (parent : Option Nat) (size : Nat) (c : Cursor) :
    Except SyntaxError (String × Cursor) := do
  let (head, c) ← header (c.advance 1)
  let c := c.advanceWhile isBlank
  let c := if c.peek == some '#' then c.skipLine else c
  let c ← match c.peek, c.takeBreak? with
    | none, _ => pure c
    | some _, some (_, c) => pure c
    | some _, none => throw .badHeader
  let fixed := head.increment.map fun n => parent.getD 0 + n
  let (trailing, deepest, c) ← emptyLines fixed size [] 0 c
  let least := match parent with
    | some n => n + 1
    | none => 1
  let indent := fixed.getD (max deepest least)
  let (l, c) ← lines literal indent size size ⟨[], [], trailing, false⟩ c
  return (String.ofList (l.chomp head.chomping), c)

end Block

end Yaml

end StepScript
