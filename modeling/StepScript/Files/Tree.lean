import StepScript.Table

/-!
# File tree — the files below a directory

A `FileTree` is a file or a directory of named trees.  The way to a tree is a list of parts: names, two
dots to go up, which stay at the root there, and parts that lead nowhere.
-/

namespace StepScript

/-- The files below a directory, or a file. -/
inductive FileTree where
  /-- A file; one without text cannot be read. -/
  | file (text : Option String)
  | directory (entries : List (String × FileTree))
  /-- A directory that cannot be read; nothing inside it can be reached. -/
  | closed

namespace FileTree

instance : Inhabited FileTree := ⟨.directory []⟩

def empty : FileTree := .directory []

def entries? : FileTree → Option (Table FileTree)
  | .directory entries => some entries
  | _ => none

def isDirectory : FileTree → Bool
  | .file _ => false
  | _ => true

/-! ## Looking up -/

/-- Go the parts of a way.  `above` holds the directories on the way, innermost first. -/
def descend : List FileTree → FileTree → List String → Option FileTree
  | _, tree, [] => some tree
  | above, .directory entries, part :: rest =>
    if part == "" || part == "." then descend above (.directory entries) rest
    else if part == ".." then
      match above with
      | [] => descend [] (.directory entries) rest
      | parent :: above => descend above parent rest
    else
      match Table.find? entries part with
      | some child => descend (.directory entries :: above) child rest
      | none => none
  | _, _, _ :: _ => none

/-! ## Writing -/

def maxNameLength : Nat := 255

def isName (part : String) : Bool :=
  part.utf8ByteSize ≤ maxNameLength && !part.toList.contains (Char.ofNat 0)

def makeDirectories : FileTree → List String → Option FileTree
  | .file _, _ => none
  | .closed, [] => some .closed
  | .closed, _ :: _ => none
  | .directory entries, [] => some (.directory entries)
  | .directory entries, name :: rest => do
    let child ← makeDirectories ((Table.find? entries name).getD empty) rest
    return .directory (Table.insert entries name child)

/-- Close the directory at the end of some names, making it if it is not there. -/
def close : FileTree → List String → FileTree
  | .directory entries, name :: rest =>
    .directory (Table.insert entries name (close ((Table.find? entries name).getD empty) rest))
  | .directory _, [] => .closed
  | tree, _ => tree

def put (name : String) (text : Option String) : FileTree → List String → Option FileTree
  | .file _, _ => none
  | .closed, _ => none
  | .directory entries, [] =>
    if (Table.find? entries name).any isDirectory then none
    else some (.directory (Table.insert entries name (.file text)))
  | .directory entries, part :: rest => do
    let child ← Table.find? entries part
    return .directory (Table.insert entries part (← put name text child rest))

end FileTree

end StepScript
