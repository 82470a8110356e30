import StepScript.Files.System

/-!
# Writing — directories and what is written into them

A path leads by its names to a tree.  A directory that is there can be made again, which changes
nothing, and a file that is written into it becomes one of its entries.

* `FileTree.at?` is the tree at the end of some names, `FileSystem.entries?` are the entries of the
  directory at a path;
* `FileSystem.write?_entries?` is the main result.
-/

namespace StepScript

namespace FileTree

variable {tree : FileTree} {entries : Table FileTree} {names : List String} {name : String}

def at? : FileTree → List String → Option FileTree
  | tree, [] => some tree
  | .directory entries, name :: rest =>
    match Table.find? entries name with
    | some child => at? child rest
    | none => none
  | _, _ :: _ => none

/-- What stands below a directory stands below one of its entries. -/
theorem at?_cons_eq_some_iff {part : String} {found : FileTree} :
    tree.at? (part :: names) = some found ↔ ∃ others child, tree = .directory others ∧
      Table.find? others part = some child ∧ child.at? names = some found := by
  constructor
  · intro h
    cases tree with
    | file text => cases h
    | closed => cases h
    | directory others =>
      cases hchild : Table.find? others part with
      | none =>
        simp only [at?, hchild] at h
        cases h
      | some child => exact ⟨others, child, rfl, hchild, by simpa only [at?, hchild] using h⟩
  · rintro ⟨others, child, rfl, hchild, h⟩
    simpa only [at?, hchild] using h

/-! ## Making and writing -/

/-- Making a directory that is there changes nothing. -/
theorem makeDirectories_of_at? (h : tree.at? names = some (.directory entries)) :
    tree.makeDirectories names = some tree := by
  induction names generalizing tree with
  | nil =>
    cases h
    rfl
  | cons part rest ih =>
    obtain ⟨others, child, rfl, hchild, hrest⟩ := at?_cons_eq_some_iff.1 h
    have hsame : child.makeDirectories rest = some child := ih hrest
    -- each directory on the way is written again as it is
    have hwritten : Table.insert others part child = others := Table.insert_of_find? hchild
    simp [makeDirectories, hchild, hsame, hwritten]

/-- A file can be put into a directory that is there, unless a directory has its name. -/
theorem at?_put (text : Option String) (h : tree.at? names = some (.directory entries))
    (hfile : (Table.find? entries name).any isDirectory = false) :
    ∃ tree', tree.put name text names = some tree' ∧
      tree'.at? names = some (.directory (Table.insert entries name (.file text))) := by
  induction names generalizing tree with
  | nil =>
    cases h
    refine ⟨.directory (Table.insert entries name (.file text)), ?_, rfl⟩
    simp [put, hfile]
  | cons part rest ih =>
    obtain ⟨others, child, rfl, hchild, hrest⟩ := at?_cons_eq_some_iff.1 h
    obtain ⟨child', hput, hat⟩ := ih hrest
    have hput' : (directory others).put name text (part :: rest) =
        some (.directory (Table.insert others part child')) := by
      simp [put, hchild, hput]
    have hat' : (directory (Table.insert others part child')).at? (part :: rest) =
        some (.directory (Table.insert entries name (.file text))) :=
      at?_cons_eq_some_iff.2 ⟨_, child', rfl, Table.find?_insert_self others part child', hat⟩
    exact ⟨_, hput', hat'⟩

end FileTree

namespace FileSystem

variable {fs : FileSystem} {path directory name : String} {entries : Table FileTree}

/-- The entries of the directory at a path. -/
def entries? (fs : FileSystem) (path : String) : Option (Table FileTree) :=
  ((fs.names? path).bind fs.root.at?).bind FileTree.entries?

/-- A directory has entries exactly if its path leads to an open directory. -/
theorem entries?_eq_some_iff : fs.entries? path = some entries ↔
    ∃ names, fs.names? path = some names ∧ fs.root.at? names = some (.directory entries) := by
  unfold entries?
  constructor
  · intro h
    obtain ⟨tree, htree, hentries⟩ := Option.bind_eq_some_iff.1 h
    obtain ⟨names, hnames, hat⟩ := Option.bind_eq_some_iff.1 htree
    cases tree with
    | file text => cases hentries
    | closed => cases hentries
    | directory others =>
      cases hentries
      exact ⟨names, hnames, hat⟩
  · rintro ⟨names, hnames, hat⟩
    rw [hnames, Option.bind_some, hat]
    rfl

/-- Making a directory that is there changes nothing. -/
theorem makeDirectories_of_entries? (h : fs.entries? path = some entries) :
    fs.makeDirectories path = some fs := by
  obtain ⟨names, hnames, hat⟩ := entries?_eq_some_iff.1 h
  simp [makeDirectories, hnames, FileTree.makeDirectories_of_at? hat]

/-- A file that is written into a directory is one of its entries, in place of one with its name. -/
theorem write?_entries? (h : fs.entries? directory = some entries)
    (hname : FileTree.isName name = true) (text : String)
    (hfile : (Table.find? entries name).any FileTree.isDirectory = false) :
    ∃ fs', fs.write? directory name text = some fs' ∧
      fs'.entries? directory = some (Table.insert entries name (.file (some text))) := by
  obtain ⟨names, hnames, hat⟩ := entries?_eq_some_iff.1 h
  obtain ⟨root, hput, hat'⟩ := FileTree.at?_put (some text) hat hfile
  refine ⟨{ fs with root := root }, ?_, ?_⟩
  · simp [write?, hname, hnames, hput]
  · -- the names of a path depend on the working directory alone
    exact entries?_eq_some_iff.2 ⟨names, hnames, hat'⟩

end FileSystem

end StepScript
