import StepScript.Yaml.Layout

/-!
# Node — the structure of a YAML document

`Document.ofTokens` reads the first document of a text.  Where a value is left out, an empty plain
scalar stands for it.  A reference stays in the tree; `Document.target?` finds the node that it
refers to.

The structure of the first document is known as soon as its root has been read.  What follows it only
counts as `clean` or not: a text holds one document.
-/

namespace StepScript

namespace Yaml

/-- A node of a document. -/
inductive Node where
  | scalar (tag : Option String) (plain : Bool) (text : String)
  | sequence (tag : Option String) (items : List Node)
  | mapping (tag : Option String) (entries : List (Node × Node))
  | reference (number : Nat)
  | anchored (number : Nat) (node : Node)

namespace Node

instance : Inhabited Node := ⟨.scalar none true ""⟩

def empty : Node := .scalar none true ""

mutual

/-- The named nodes within a node, in the order in which they begin. -/
def named : Node → List (Nat × Node)
  | .scalar _ _ _ => []
  | .sequence _ items => namedItems items
  | .mapping _ entries => namedEntries entries
  | .reference _ => []
  | .anchored n node => (n, node) :: named node

def namedItems : List Node → List (Nat × Node)
  | [] => []
  | node :: rest => named node ++ namedItems rest

def namedEntries : List (Node × Node) → List (Nat × Node)
  | [] => []
  | (k, v) :: rest => named k ++ named v ++ namedEntries rest

end

mutual

/-- The number of scalars, aliases, and beginnings and ends of collections. -/
def weight : Node → Nat
  | .scalar _ _ _ => 1
  | .sequence _ items => 2 + weightItems items
  | .mapping _ entries => 2 + weightEntries entries
  | .reference _ => 1
  | .anchored _ node => weight node

def weightItems : List Node → Nat
  | [] => 0
  | node :: rest => weight node + weightItems rest

def weightEntries : List (Node × Node) → Nat
  | [] => 0
  | (k, v) :: rest => weight k + weight v + weightEntries rest

end

/-! ## Properties before a node -/

abbrev Handles := Table String

def standardHandles : Handles :=
  [("!", "!"), ("!!", "tag:yaml.org,2002:")]

/-- The meaning of a tag; a tag without a handle is written out. -/
def tagMeaning (handles : Handles) (handle suffix : String) : Except SyntaxError String :=
  if handle.isEmpty then .ok suffix
  else
    match handles.find? handle with
    | some meaning => .ok (meaning ++ suffix)
    | none => .error .badTag

structure Properties where
  anchor : Option Nat
  tag : Option String

/-- Read the name and the tag before a node, in either order. -/
def properties (handles : Handles) : List Token → Except SyntaxError (Properties × List Token)
  | .anchor n :: .tag h s :: rest => do return (⟨some n, some (← tagMeaning handles h s)⟩, rest)
  | .anchor n :: rest => .ok (⟨some n, none⟩, rest)
  | .tag h s :: .anchor n :: rest => do return (⟨some n, some (← tagMeaning handles h s)⟩, rest)
  | .tag h s :: rest => do return (⟨none, some (← tagMeaning handles h s)⟩, rest)
  | rest => .ok (⟨none, none⟩, rest)

def Properties.apply (p : Properties) (node : Node) : Node :=
  match p.anchor with
  | some n => .anchored n node
  | none => node

def taggedScalar (tag : Option String) (plain : Bool) (text : String) : Node :=
  if tag == some "!" then .scalar none plain text else .scalar tag plain text

/-! ## Reading nodes

Every function takes a token before it calls one that does not, so twice the number of tokens is
enough `fuel`. -/

/-- An error at a token: what the token says, or that it does not belong there. -/
def unexpected {α : Type} : List Token → Except SyntaxError α
  | .bad e :: _ => .error e
  | _ => .error .unexpectedToken

/-- Whether the value of a block mapping is left out before a token. -/
def endsBlockValue : List Token → Bool
  | .key :: _ => true
  | .value :: _ => true
  | .blockEnd :: _ => true
  | _ => false

mutual

/-- Read a node.  Block collections are allowed in block context only; below a key, a block sequence
may do without indentation. -/
def read (handles : Handles) (block belowKey : Bool) :
    Nat → List Token → Except SyntaxError (Node × List Token)
  | 0, _ => .error .unexpectedToken
  | fuel + 1, tokens =>
    match tokens with
    | .reference (some n) :: rest => .ok (.reference n, rest)
    | .reference none :: _ => .error .unknownAlias
    | tokens => do
      let (p, rest) ← properties handles tokens
      match rest with
      | .scalar plain text :: rest => return (p.apply (taggedScalar p.tag plain text), rest)
      | .flowSequence :: rest => do
        let (items, rest) ← flowItems handles true fuel rest
        return (p.apply (.sequence p.tag items), rest)
      | .flowMapping :: rest => do
        let (entries, rest) ← flowEntries handles true fuel rest
        return (p.apply (.mapping p.tag entries), rest)
      | rest =>
        match block, belowKey, rest with
        | _, true, .entry :: _ => do
          let (items, rest) ← looseItems handles fuel rest
          return (p.apply (.sequence p.tag items), rest)
        | true, _, .blockSequence :: rest => do
          let (items, rest) ← blockItems handles fuel rest
          return (p.apply (.sequence p.tag items), rest)
        | true, _, .blockMapping :: rest => do
          let (entries, rest) ← blockEntries handles fuel rest
          return (p.apply (.mapping p.tag entries), rest)
        | _, _, rest =>
          -- a name or a tag with nothing after it is that of an empty scalar
          if p.anchor.isSome || p.tag.isSome then
            return (p.apply (taggedScalar p.tag true ""), rest)
          else unexpected rest

/-- Read the items of an indented block sequence up to its end. -/
def blockItems (handles : Handles) : Nat → List Token → Except SyntaxError (List Node × List Token)
  | 0, _ => .error .unexpectedToken
  | fuel + 1, tokens =>
    match tokens with
    | .blockEnd :: rest => .ok ([], rest)
    | .entry :: rest => do
      let (item, rest) ← match rest with
        | .entry :: _ => pure (empty, rest)
        | .blockEnd :: _ => pure (empty, rest)
        | rest => read handles true false fuel rest
      let (items, rest) ← blockItems handles fuel rest
      return (item :: items, rest)
    | tokens => unexpected tokens

/-- Read the items of a block sequence that is not indented below its key. -/
def looseItems (handles : Handles) : Nat → List Token → Except SyntaxError (List Node × List Token)
  | 0, _ => .error .unexpectedToken
  | fuel + 1, tokens =>
    match tokens with
    | .entry :: rest => do
      let (item, rest) ← match rest with
        | .entry :: _ => pure (empty, rest)
        | .key :: _ => pure (empty, rest)
        | .value :: _ => pure (empty, rest)
        | .blockEnd :: _ => pure (empty, rest)
        | rest => read handles true false fuel rest
      let (items, rest) ← looseItems handles fuel rest
      return (item :: items, rest)
    | tokens => .ok ([], tokens)

def blockEntries (handles : Handles) :
    Nat → List Token → Except SyntaxError (List (Node × Node) × List Token)
  | 0, _ => .error .unexpectedToken
  | fuel + 1, tokens =>
    match tokens with
    | .blockEnd :: rest => .ok ([], rest)
    | .key :: rest => do
      let (key, rest) ←
        if endsBlockValue rest then pure (empty, rest) else read handles true true fuel rest
      let (value, rest) ← match rest with
        | .value :: rest =>
          if endsBlockValue rest then pure (empty, rest) else read handles true true fuel rest
        -- a key that is written out may do without a colon
        | rest => pure (empty, rest)
      let (entries, rest) ← blockEntries handles fuel rest
      return ((key, value) :: entries, rest)
    | tokens => unexpected tokens

/-- Read the items of a flow sequence up to its bracket.  A single entry of a mapping may stand as an
item. -/
def flowItems (handles : Handles) (first : Bool) :
    Nat → List Token → Except SyntaxError (List Node × List Token)
  | 0, _ => .error .unexpectedToken
  | fuel + 1, tokens =>
    match tokens with
    | .flowSequenceEnd :: rest => .ok ([], rest)
    | tokens => do
      let rest ← match first, tokens with
        | true, rest => pure rest
        | false, .separator :: rest => pure rest
        | false, rest => unexpected rest
      match rest with
      | .flowSequenceEnd :: rest => return ([], rest)
      | .key :: rest => do
        let (entry, rest) ← flowPair handles fuel rest
        let (items, rest) ← flowItems handles false fuel rest
        return (.mapping none [entry] :: items, rest)
      | rest => do
        let (item, rest) ← read handles false false fuel rest
        let (items, rest) ← flowItems handles false fuel rest
        return (item :: items, rest)

/-- Read the entry of a mapping that stands as an item of a flow sequence.  Where its key is left out,
the token after it is passed over. -/
def flowPair (handles : Handles) :
    Nat → List Token → Except SyntaxError ((Node × Node) × List Token)
  | 0, _ => .error .unexpectedToken
  | fuel + 1, tokens => do
    let (key, rest) ← match tokens with
      | .value :: rest => pure (empty, rest)
      | .separator :: rest => pure (empty, rest)
      | .flowSequenceEnd :: rest => pure (empty, rest)
      | tokens => read handles false false fuel tokens
    match rest with
    | .value :: .separator :: rest => return ((key, empty), .separator :: rest)
    | .value :: .flowSequenceEnd :: rest => return ((key, empty), .flowSequenceEnd :: rest)
    | .value :: rest => do
      let (value, rest) ← read handles false false fuel rest
      return ((key, value), rest)
    | rest => return ((key, empty), rest)

def flowEntries (handles : Handles) (first : Bool) :
    Nat → List Token → Except SyntaxError (List (Node × Node) × List Token)
  | 0, _ => .error .unexpectedToken
  | fuel + 1, tokens =>
    match tokens with
    | .flowMappingEnd :: rest => .ok ([], rest)
    | tokens => do
      let rest ← match first, tokens with
        | true, rest => pure rest
        | false, .separator :: rest => pure rest
        | false, rest => unexpected rest
      match rest with
      | .flowMappingEnd :: rest => return ([], rest)
      | .key :: rest => do
        let (key, rest) ← match rest with
          | .value :: _ => pure (empty, rest)
          | .separator :: _ => pure (empty, rest)
          | .flowMappingEnd :: _ => pure (empty, rest)
          | rest => read handles false false fuel rest
        let (value, rest) ← match rest with
          | .value :: rest => match rest with
            | .separator :: _ => pure (empty, rest)
            | .flowMappingEnd :: _ => pure (empty, rest)
            | rest => read handles false false fuel rest
          | rest => pure (empty, rest)
        let (entries, rest) ← flowEntries handles false fuel rest
        return ((key, value) :: entries, rest)
      | rest => do
        let (key, rest) ← read handles false false fuel rest
        let (entries, rest) ← flowEntries handles false fuel rest
        return ((key, empty) :: entries, rest)

end

end Node

/-- The first document of a text. -/
structure Document where
  /-- The root, unless the text has no document at all. -/
  root : Option Node
  /-- Whether nothing follows the document. -/
  clean : Bool

namespace Document

/-- The directives before a document and the handles they declare.  A handle is declared once, and
the versions that are understood are 1.1 and 1.2. -/
def directives : Bool → Node.Handles → List Token →
    Except SyntaxError (Node.Handles × List Token)
  | seen, handles, .version major minor :: rest =>
    if seen || major != 1 || !(minor == 1 || minor == 2) then .error .badDirective
    else directives true handles rest
  | seen, handles, .tagHandle handle meaning :: rest =>
    if handles.contains handle then .error .badDirective
    else directives seen (handles.insert handle meaning) rest
  | _, handles, rest => .ok (handles, rest)

def withStandard (handles : Node.Handles) : Node.Handles :=
  Node.standardHandles.foldl (fun t e => if t.contains e.1 then t else t.insert e.1 e.2) handles

def endsClean (tokens : List Token) : Bool :=
  (tokens.dropWhile (· == .documentEnd)) == [.streamEnd]

/-- Whether a document that has begun with its mark is left empty. -/
def isLeftOut : List Token → Bool
  | .version _ _ :: _ => true
  | .tagHandle _ _ :: _ => true
  | .documentStart :: _ => true
  | .documentEnd :: _ => true
  | .streamEnd :: _ => true
  | _ => false

def ofTokens (tokens : List Token) : Except SyntaxError Document := do
  let fuel := 2 * tokens.length + 2
  match tokens with
  | [.streamEnd] => return ⟨none, true⟩
  | tokens =>
    let (handles, rest) ← directives false [] tokens
    -- only behind directives does the document need its mark
    let isPlain := rest.length == tokens.length
    let handles := withStandard handles
    let (root, rest) ← match isPlain, rest with
      | _, .documentStart :: rest =>
        if isLeftOut rest then pure (Node.empty, rest)
        else Node.read handles true false fuel rest
      | true, rest => Node.read handles true false fuel rest
      | false, rest => Node.unexpected rest
    return ⟨some root, endsClean rest⟩

def ofText (text : String) : Except SyntaxError Document :=
  ofTokens (Token.ofText text)

/-- The node that a reference stands for: of several with one number, the last. -/
def target? (d : Document) (number : Nat) : Option Node :=
  let named := match d.root with
    | some root => root.named
    | none => []
  (named.reverse.find? fun e => e.1 == number).map Prod.snd

end Document

end Yaml

end StepScript
