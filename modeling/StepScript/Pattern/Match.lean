import StepScript.Pattern.Basic

/-!
# Match — whether a text contains a match

A text is an array of characters and a place is an index into it.  A pattern takes a set of places
to the set of places where its matches end; a text contains a match when the places reached from all
of its places are not empty.  Sets of places are increasing lists.
-/

namespace StepScript

namespace Pattern

def merge : List Nat → List Nat → List Nat
  | [], ys => ys
  | xs, [] => xs
  | x :: xs, y :: ys =>
    if x < y then x :: merge xs (y :: ys)
    else if y < x then y :: merge (x :: xs) ys
    else x :: merge xs ys

def wordAt (text : Array Char) (place : Nat) : Bool :=
  (text[place]?.map WordChar.isWord).getD false

def wordBefore (text : Array Char) (place : Nat) : Bool :=
  place != 0 && wordAt text (place - 1)

def Assertion.holds (text : Array Char) (place : Nat) : Assertion → Bool
  | .textStart => place == 0
  | .textEnd => place == text.size
  | .lineStart => place == 0 || text[place - 1]? == some '\n'
  | .lineEnd => place == text.size || text[place]? == some '\n'
  | .wordBoundary => wordBefore text place != wordAt text place
  | .insideWord => wordBefore text place == wordAt text place
  | .wordStart => !wordBefore text place && wordAt text place
  | .wordEnd => wordBefore text place && !wordAt text place
  | .wordStartHalf => !wordBefore text place
  | .wordEndHalf => !wordAt text place

def iterate (step : List Nat → List Nat) : Nat → List Nat → List Nat
  | 0, places => places
  | n + 1, places => if places.isEmpty then [] else iterate step n (step places)

/-- The places reached by any number of steps up to `n`.  New places are looked for only as long as
there are some. -/
def closure (step : List Nat → List Nat) : Nat → List Nat → List Nat → List Nat
  | 0, reached, _ => reached
  | n + 1, reached, fresh =>
    let next := (step fresh).filter fun p => !reached.contains p
    if next.isEmpty then reached else closure step n (merge reached next) next

mutual

/-- The places where the matches that start at the given places end. -/
def ends (text : Array Char) : Pattern → List Nat → List Nat
  | .one chars, places =>
    places.filterMap fun p =>
      match text[p]? with
      | some c => if chars.contains c then some (p + 1) else none
      | none => none
  | .assert assertion, places => places.filter fun p => assertion.holds text p
  | .sequence parts, places => endsOfAll text parts places
  | .choice parts, places => endsOfAny text parts places
  | .loop part least most, places =>
    let step := ends text part
    let first := iterate step least places
    let rounds := match most with
      | some m => m - least
      | none => text.size + 1
    closure step rounds first first

def endsOfAll (text : Array Char) : List Pattern → List Nat → List Nat
  | [], places => places
  | part :: rest, places => endsOfAll text rest (ends text part places)

def endsOfAny (text : Array Char) : List Pattern → List Nat → List Nat
  | [], _ => []
  | part :: rest, places => merge (ends text part places) (endsOfAny text rest places)

end

def isIn (p : Pattern) (text : String) : Bool :=
  let cs := text.toList.toArray
  !(p.ends cs (List.range (cs.size + 1))).isEmpty

end Pattern

end StepScript
