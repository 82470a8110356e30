import StepScript.Text.CharRange

/-!
# Blank — white space in every script

The characters with the White_Space property: the ASCII blanks and line breaks, the next-line
control, and the spaces and separators of the other planes.  The zero-width characters are not
among them.
-/

namespace StepScript

namespace Blank

def edges : List Nat :=
  [9, 14, 32, 33, 0x85, 0x86, 0xA0, 0xA1, 0x1680, 0x1681, 0x2000, 0x200B, 0x2028, 0x202A, 0x202F,
   0x2030, 0x205F, 0x2060, 0x3000, 0x3001]

def isBlank (c : Char) : Bool :=
  CharRange.covers edges c

def trim (cs : List Char) : List Char :=
  ((cs.dropWhile isBlank).reverse.dropWhile isBlank).reverse

end Blank

end StepScript
