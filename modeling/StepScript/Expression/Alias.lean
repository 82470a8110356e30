import StepScript.Text.WordChar

/-!
# Alias — the short names of two functions

Before an expression is read, `len(` becomes `size(` and then `type(` becomes `type_of(` wherever
the name does not continue a word.  The replacement knows nothing of string literals.
-/

namespace StepScript

namespace Alias

/-- Replace every occurrence of `name` that does not follow a word character.  `skip` characters
belong to an occurrence that has already been replaced. -/
def replaceFrom (name replacement : List Char) : Nat → Bool → List Char → List Char
  | _, _, [] => []
  | skip + 1, _, c :: rest => replaceFrom name replacement skip (WordChar.isWord c) rest
  | 0, afterWord, c :: rest =>
    if !afterWord && name.isPrefixOf (c :: rest) then
      replacement ++ replaceFrom name replacement (name.length - 1) (WordChar.isWord c) rest
    else c :: replaceFrom name replacement 0 (WordChar.isWord c) rest

def replaceCall (name replacement : String) (cs : List Char) : List Char :=
  replaceFrom (name.toList ++ ['(']) (replacement.toList ++ ['(']) 0 false cs

def expand (code : String) : String :=
  String.ofList (replaceCall "type" "type_of" (replaceCall "len" "size" code.toList))

end Alias

end StepScript
