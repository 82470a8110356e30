/-!
# Path — names of files

A path is a text whose parts stand between slashes.  Empty parts and single dots stay where they are,
two dots go up.
-/

namespace StepScript

namespace FilePath

def parts (path : String) : List String :=
  (path.toList.splitOn '/').map String.ofList

def join (directory name : String) : String :=
  if directory.isEmpty then name
  else if directory.endsWith "/" then directory ++ name
  else directory ++ "/" ++ name

def directoryOf (parts : List String) : String :=
  match parts with
  | [] => "."
  | [""] => "/"
  | parts => String.intercalate "/" parts

/-- The last part of a path that is a name; none if the path ends by going up. -/
def fileName? (path : String) : Option String :=
  let names := (parts path).filter fun p => p != "" && p != "."
  match names.getLast? with
  | some name => if name == ".." then none else some name
  | none => none

/-- What stands after the last dot of a name.  A name that begins with its only dot has nothing
there. -/
def extensionOf? (name : String) : Option String :=
  let cs := name.toList
  let after := (cs.reverse.takeWhile (· != '.')).reverse
  let stem := cs.take (cs.length - after.length - 1)
  if after.length < cs.length && !stem.isEmpty then some (String.ofList after) else none

def extension? (path : String) : Option String :=
  (fileName? path).bind extensionOf?

end FilePath

end StepScript
