import StepScript.Text.Blank

/-!
# Variable names

A variable is stored under a name that expressions can spell: white space and the characters
`()[]{}-:=/\` become underscores.  Names that normalise alike are the same variable.
-/

namespace StepScript

namespace VariableName

/-- The characters besides white space that no variable name keeps. -/
def punctuation : List Char :=
  ['(', ')', '[', ']', '\x7b', '\x7d', '-', ':', '=', '/', '\\']

def normalizeChar (c : Char) : Char :=
  if Blank.isBlank c || punctuation.contains c then '_' else c

/-- The name a variable is stored under. -/
def normalize (name : String) : String :=
  String.ofList (name.toList.map normalizeChar)

theorem normalizeChar_idem (c : Char) : normalizeChar (normalizeChar c) = normalizeChar c := by
  unfold normalizeChar
  split
  · rfl
  · simp [*]

/-- Normalising a normalised name changes nothing. -/
@[simp] theorem normalize_normalize (name : String) :
    normalize (normalize name) = normalize name := by
  simp [normalize, Function.comp_def, normalizeChar_idem]

end VariableName

end StepScript
