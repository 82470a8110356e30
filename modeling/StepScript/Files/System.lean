import StepScript.Files.Path
import StepScript.Files.Tree

/-!
# File system — files by their paths

A file system is a tree and the way to its working directory.  Paths that begin with a slash start at
the root, all others at the working directory.  The empty path leads nowhere.
-/

namespace StepScript

/-- All files, and the directory that paths start from. -/
structure FileSystem where
  root : FileTree
  working : List String

namespace FileSystem

def way (fs : FileSystem) (path : String) : List String :=
  if path.startsWith "/" then FilePath.parts path else fs.working ++ FilePath.parts path

def find? (fs : FileSystem) (path : String) : Option FileTree :=
  if path.isEmpty then none else fs.root.descend [] (fs.way path)

def isPresent (fs : FileSystem) (path : String) : Bool :=
  (fs.find? path).isSome

def isDirectory (fs : FileSystem) (path : String) : Bool :=
  (fs.find? path).any FileTree.isDirectory

def isFile (fs : FileSystem) (path : String) : Bool :=
  match fs.find? path with
  | some (.file _) => true
  | _ => false

def read? (fs : FileSystem) (path : String) : Option String :=
  match fs.find? path with
  | some (.file text) => text
  | _ => none

def list? (fs : FileSystem) (path : String) : Option (List String) :=
  ((fs.find? path).bind FileTree.entries?).map Table.names

/-! ## Writing -/

/-- Go one part on from the names of a way, innermost first. -/
def stepTo (done : List String) (part : String) : Option (List String) :=
  if part == "" || part == "." then some done
  else if part == ".." then some done.tail
  else if FileTree.isName part then some (part :: done)
  else none

/-- The names from the root to a path, without the parts that lead nowhere. -/
def names? (fs : FileSystem) (path : String) : Option (List String) :=
  if path.isEmpty then none else ((fs.way path).foldlM stepTo []).map List.reverse

def makeDirectories (fs : FileSystem) (path : String) : Option FileSystem := do
  let root ← fs.root.makeDirectories (← fs.names? path)
  return { fs with root := root }

def close (fs : FileSystem) (path : String) : FileSystem :=
  match fs.names? path with
  | some names => { fs with root := fs.root.close names }
  | none => fs

def write? (fs : FileSystem) (directory name text : String) : Option FileSystem := do
  if FileTree.isName name then
    let root ← fs.root.put name (some text) (← fs.names? directory)
    return { fs with root := root }
  else none

def add (fs : FileSystem) (path : String) (text : Option String) : FileSystem :=
  match text with
  | none => (fs.makeDirectories path).getD fs
  | some text =>
    match (FilePath.parts path).reverse with
    | [] => fs
    | name :: above =>
      let directory := FilePath.directoryOf above.reverse
      ((fs.makeDirectories directory).bind fun fs => fs.write? directory name text).getD fs

end FileSystem

end StepScript
