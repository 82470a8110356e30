import StepScript.Json.Basic
import StepScript.Yaml.Node
import StepScript.Yaml.Scalar.Meaning

/-!
# Decode — data from a YAML document

Every function reads a node as data of one kind and follows references.  A document may be nested
`maxDepth` levels, and its references may be followed so often in all: a hundred times as often as the
document has nodes.

Where text is asked for, the characters of any scalar will do, whatever they stand for.
-/

namespace StepScript

namespace Yaml

inductive ReadError where
  | malformed (error : SyntaxError)
  | wrongKind
  | wrongTag
  | numberOutOfRange
  | tooDeep
  | tooManyReferences
  | severalDocuments
  deriving DecidableEq

def maxDepth : Nat := 128

/-- Reading with a count of the references that may still be followed. -/
abbrev Decode (α : Type) := StateT Nat (Except ReadError) α

namespace Document

/-- The references that may be followed in a document. -/
def budget (d : Document) : Nat :=
  match d.root with
  | some root => 100 * root.weight
  | none => 100

/-- A node without its name, or the node that a reference stands for. -/
def view (d : Document) : Node → Decode Node
  | .reference n => do
    match ← get with
    | 0 => throw .tooManyReferences
    | left + 1 =>
      set left
      match d.target? n with
      | some node => return node
      | none => throw .wrongKind
  | .anchored _ node => return node
  | node => return node

def text (d : Document) (node : Node) : Decode String := do
  match ← d.view node with
  | .scalar _ _ s => return s
  | _ => throw .wrongKind

def optionalText (d : Document) (node : Node) : Decode (Option String) := do
  match ← d.view node with
  | .scalar tag plain s =>
    if !plain then return some s
    else if tag == some (Meaning.standardTag "null") then
      if Meaning.isNullWord s then return none else throw .wrongKind
    else if tag.isNone && (s.isEmpty || Meaning.isNullWord s) then return none
    else return some s
  | _ => throw .wrongKind

/-- The items of a sequence; nothing at all counts as an empty one. -/
def items (d : Document) (node : Node) : Decode (List Node) := do
  match ← d.view node with
  | .sequence _ items => return items
  | .scalar _ true "" => return []
  | _ => throw .wrongKind

/-- The entries of a mapping, whose keys have to be scalars; nothing at all counts as an empty one. -/
def entries (d : Document) (node : Node) : Decode (List (String × Node)) := do
  match ← d.view node with
  | .mapping _ entries => entries.mapM fun e => do return (← d.text e.1, e.2)
  | .scalar _ true "" => return []
  | _ => throw .wrongKind

/-- The data that a scalar stands for.  Infinities and NaNs become null. -/
def scalarJson (tag : Option String) (plain : Bool) (s : String) : Except ReadError Json :=
  let meaning? := match tag with
    | some t => if Meaning.isLocalTag tag then none else Meaning.ofTagged? t s
    | none => some (if plain then Meaning.ofPlain s else .text)
  match meaning? with
  | none => .error .wrongTag
  | some .null => .ok .null
  | some (.bool b) => .ok (.bool b)
  | some .text => .ok (.string s)
  | some (.float x) =>
    match Number.ofBinary64? x with
    | some n => .ok (.number n)
    | none => .ok .null
  | some (.integer n) =>
    match Number.ofInt? n with
    | some n => .ok (.number n)
    | none => .error .numberOutOfRange

/-- The data of a node, given how to read the nodes one level below. -/
def jsonWith (d : Document) (below : Option (Node → Decode Json)) (node : Node) : Decode Json := do
  match ← d.view node, below with
  | .scalar tag plain s, _ =>
    match scalarJson tag plain s with
    | .ok j => return j
    | .error e => throw e
  | .sequence tag items, some below =>
    if Meaning.isLocalTag tag then throw .wrongTag
    else return .array (← items.mapM below)
  | .mapping tag entries, some below =>
    if Meaning.isLocalTag tag then throw .wrongTag
    else do
      let fields ← entries.mapM fun e => do
        let key ← d.text e.1
        return (key, ← below e.2)
      return .object (Table.ofEntries fields)
  | _, _ => throw .tooDeep

def json (d : Document) : Nat → Node → Decode Json
  | 0 => d.jsonWith none
  | depth + 1 => d.jsonWith (some (d.json depth))

def decode {α : Type} (d : Document) (reading : Decode α) : Except ReadError α :=
  (reading.run d.budget).map Prod.fst

end Document

def read (text : String) : Except ReadError Json :=
  match Document.ofText text with
  | .error e => .error (.malformed e)
  | .ok d =>
    match d.root with
    | none => .ok .null
    | some root => do
      let j ← d.decode (d.json maxDepth root)
      if d.clean then return j else throw .severalDocuments

end Yaml

end StepScript
