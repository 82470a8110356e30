/-!
# CharRange — classes of characters given by their edges

A class of characters is written as the increasing list of code points at which membership changes:
the first edge starts the first range, the second is the first code point after it, and so on.
-/

namespace StepScript

namespace CharRange

/-- Whether the code point `n` lies in the class, when `inside` says so for the code points before
the first edge. -/
def coversFrom (inside : Bool) : List Nat → Nat → Bool
  | [], _ => inside
  | edge :: rest, n => if n < edge then inside else coversFrom (!inside) rest n

def covers (edges : List Nat) (c : Char) : Bool :=
  coversFrom false edges c.toNat

end CharRange

end StepScript
