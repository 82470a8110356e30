/-!
# Marker — expressions inside text

A marker starts at `$(` and ends at the parenthesis that closes it.  Its code may hold parentheses,
two levels deep at most; a `$(` that is not closed, or goes deeper, is plain text, and the text after
its dollar sign is looked at again.

`Marker.pieces` cuts a text into plain parts and markers, `Marker.find` tells at which bytes the
markers stand, and `Marker.fill` puts other texts in their places.
-/

namespace StepScript

namespace Marker

/-- The levels of parentheses that the code of a marker may hold. -/
def maxDepth : Nat := 2

/-- A part of a text. -/
inductive Piece where
  | plain (text : List Char)
  | marker (code : List Char)
  deriving DecidableEq

/-- The code up to the parenthesis that closes a marker, and the text after it.  `depth` counts the
parentheses that are open inside the code. -/
def body? : Nat → List Char → Option (List Char × List Char)
  | _, [] => none
  | depth, c :: rest =>
    if c = ')' then
      match depth with
      | 0 => some ([], rest)
      | depth + 1 => (body? depth rest).map fun b => (c :: b.1, b.2)
    else if c = '(' then
      if depth < maxDepth then (body? (depth + 1) rest).map fun b => (c :: b.1, b.2) else none
    else (body? depth rest).map fun b => (c :: b.1, b.2)

def consPlain (c : Char) : List Piece → List Piece
  | .plain cs :: rest => .plain (c :: cs) :: rest
  | pieces => .plain [c] :: pieces

def first? : List Char → Option (List Char × List Char)
  | '$' :: '(' :: rest => body? 0 rest
  | _ => none

/-- Cut a text into pieces.  Every piece takes a character, so the length of the text bounds
`fuel`. -/
def piecesFrom : Nat → List Char → List Piece
  | 0, _ => []
  | _, [] => []
  | fuel + 1, c :: rest =>
    match first? (c :: rest) with
    | some (code, rest) => .marker code :: piecesFrom fuel rest
    | none => consPlain c (piecesFrom fuel rest)

def pieces (text : String) : List Piece :=
  let cs := text.toList
  piecesFrom cs.length cs

def codes : List Piece → List String
  | [] => []
  | .plain _ :: rest => codes rest
  | .marker code :: rest => String.ofList code :: codes rest

def fill : List Piece → List String → List Char
  | [], _ => []
  | .plain cs :: rest, texts => cs ++ fill rest texts
  | .marker _ :: rest, [] => fill rest []
  | .marker _ :: rest, t :: texts => t.toList ++ fill rest texts

def Piece.source : Piece → List Char
  | .plain cs => cs
  | .marker code => ['$', '('] ++ code ++ [')']

/-! ## The places of markers -/

/-- A marker of a text: it takes the bytes from `start` up to `stop`. -/
structure Found where
  start : Nat
  stop : Nat
  code : String
  deriving DecidableEq

def byteCount : List Char → Nat
  | [] => 0
  | c :: rest => c.utf8Size + byteCount rest

/-- The markers of pieces of which the first one stands at the byte `start`. -/
def locate : Nat → List Piece → List Found
  | _, [] => []
  | start, .plain cs :: rest => locate (start + byteCount cs) rest
  | start, .marker code :: rest =>
    let stop := start + byteCount (Piece.marker code).source
    ⟨start, stop, String.ofList code⟩ :: locate stop rest

def find (text : String) : List Found :=
  locate 0 (pieces text)

end Marker

end StepScript
