import StepScript.Table
import StepScript.Yaml.Cursor

/-!
# Token — the pieces of a YAML text

Tokens make the structure explicit that a text only shows by indentation: block collections have a
token where they begin and one where they end.  A mapping key is known as one only when its colon is
read, which may be long after the key has begun.  So every token that could begin a key is preceded by
a *place*, and `Mark.tokens` turns the places whose colon has been found into the tokens of a key.
-/

namespace StepScript

namespace Yaml

inductive Token where
  | version (major minor : Nat)
  | tagHandle (handle meaning : String)
  | documentStart
  | documentEnd
  | streamEnd
  | blockSequence
  | blockMapping
  | blockEnd
  | flowSequence
  | flowSequenceEnd
  | flowMapping
  | flowMappingEnd
  /-- The dash of a block sequence. -/
  | entry
  /-- The comma of a flow collection. -/
  | separator
  | key
  | value
  /-- A name for the node that follows, by its number. -/
  | anchor (number : Nat)
  /-- A reference to a named node, by its number; `none` for an unknown name. -/
  | reference (number : Option Nat)
  | tag (handle suffix : String)
  | scalar (plain : Bool) (text : String)
  /-- The text is wrong from here on. -/
  | bad (error : SyntaxError)
  deriving DecidableEq

/-- A token, or a place where a key may begin. -/
inductive Mark where
  | token (token : Token)
  | place (number : Nat)

/-- What a place has turned out to be: nothing, a key, or the first key of a block mapping. -/
structure FoundKey where
  place : Nat
  opensMapping : Bool

def Mark.tokens (found : List FoundKey) : Mark → List Token
  | .token t => [t]
  | .place n =>
    match found.find? fun k => k.place == n with
    | none => []
    | some k => if k.opensMapping then [.blockMapping, .key] else [.key]

end Yaml

end StepScript
