import Mathlib.Data.List.Sort
import StepScript.Proofs.Files.Listing
import StepScript.Test.Loader

/-!
# Loading — which tests are loaded, and when none are

The tests of a directory are those that its entries define: files directly inside it with the extension
of a test file that can be read in their format.  Nothing else in the directory makes a difference.  For
a file that is asked for by its own path the format decides whether the loading fails.

* `TestLoader.Defines` says that an entry of a directory defines a test, without regard to the order in
  which entries are looked at;
* `TestLoader.loadDirectory_eq`: a directory has the tests of its entries, each once, in the order of
  their names;
* `TestLoader.Contributes` and `TestLoader.Refuses` are what a path that is asked for comes to, and
  `TestLoader.contributes_or_refuses` says that there is nothing else;
* `TestLoader.loader_loads` is the main result, on all files and all lists of paths.
-/

namespace StepScript

namespace TestLoader

/-! ## Entries -/

/-- What is in a file is read as a test: as JSON if its extension says so, and as YAML otherwise. -/
def Reads (extension? : Option String) (text : String) (test : TestDefinition) : Prop :=
  (extension? = some "json" ∧ TestDefinition.ofJson text = .ok test) ∨
    (extension? ≠ some "json" ∧ TestDefinition.ofYaml text = .ok test)

def NamesTest (name : String) : Prop :=
  ∃ extension ∈ ["yaml", "yml", "json"], FilePath.extensionOf? name = some extension

/-- An entry of a directory is a file that defines a test. -/
def Defines (entries : Table FileTree) (name : String) (test : TestDefinition) : Prop :=
  NamesTest name ∧ ∃ text, Table.find? entries name = some (.file (some text)) ∧
    Reads (FilePath.extensionOf? name) text test

/-- The tests of a directory with the names of their files: all that its entries define, in order. -/
structure AreTests (entries : Table FileTree) (tests : List (String × TestDefinition)) : Prop where
  inOrder : tests.Pairwise fun a b => a.1 < b.1
  mem_iff : ∀ name test, (name, test) ∈ tests ↔ Defines entries name test

variable {files : FileSystem} {path directory name text : String} {entries : Table FileTree}
  {test : TestDefinition}

/-- A file with the extension of JSON is read as JSON, and the error says so. -/
theorem definition_of_json (h : FilePath.extension? path = some "json") (text : String) :
    definition path text = (TestDefinition.ofJson text).mapError (.badJson path) :=
  if_pos (by simp [h])

/-- Any other file is read as YAML. -/
theorem definition_of_yaml (h : FilePath.extension? path ≠ some "json") (text : String) :
    definition path text = (TestDefinition.ofYaml text).mapError (.badYaml path) :=
  if_neg (by simpa using h)

/-- A definition is read exactly if the text holds it in the format of its extension. -/
theorem definition_eq_ok_iff :
    definition path text = .ok test ↔ Reads (FilePath.extension? path) text test := by
  unfold Reads
  by_cases hjson : FilePath.extension? path = some "json"
  · rw [definition_of_json hjson]
    cases TestDefinition.ofJson text <;> simp [hjson, Except.mapError]
  · rw [definition_of_yaml hjson]
    cases TestDefinition.ofYaml text <;> simp [hjson, Except.mapError]

theorem isTestFile_iff {extension? : Option String} (h : FilePath.extension? path = extension?) :
    isTestFile path = true ↔ ∃ extension ∈ ["yaml", "yml", "json"], extension? = some extension := by
  unfold isTestFile
  rw [h]
  cases extension? with
  | none => simp
  | some e => simp [or_assoc]

/-- The extension of a file in a directory is that of its name. -/
theorem extension?_join (directory : String) (h : FilePath.IsOrdinary name) :
    FilePath.extension? (FilePath.join directory name) = FilePath.extensionOf? name := by
  rw [FilePath.extension?, FilePath.fileName?_join directory h, Option.bind_some]

def testOf? (files : FileSystem) (directory name : String) : Option TestDefinition :=
  let path := FilePath.join directory name
  if files.isFile path && isTestFile path then (loadFile files path).toOption else none

theorem read?_eq_some_iff : files.read? path = some text ↔
    files.find? path = some (.file (some text)) := by
  unfold FileSystem.read?
  split
  · rename_i found hfind
    simp [hfind]
  · rename_i hfile
    exact iff_of_false nofun (hfile (some text))

theorem isFile_iff : files.isFile path = true ↔ ∃ text?, files.find? path = some (.file text?) := by
  unfold FileSystem.isFile
  split
  · rename_i found hfind
    exact iff_of_true rfl ⟨found, hfind⟩
  · rename_i hfile
    refine iff_of_false nofun ?_
    rintro ⟨text?, hfind⟩
    exact hfile text? hfind

theorem loadFile_of_text (h : files.find? path = some (.file (some text))) :
    loadFile files path = definition path text := by
  rw [loadFile, read?_eq_some_iff.2 h]

/-- What is no file with a text cannot be loaded. -/
theorem loadFile_of_unreadable (h : ∀ text, files.find? path ≠ some (.file (some text))) :
    loadFile files path = .error (.unreadableFile path) := by
  have hread : files.read? path = none := by
    rw [Option.eq_none_iff_forall_ne_some]
    exact fun text hread => h text (read?_eq_some_iff.1 hread)
  rw [loadFile, hread]

/-- A test is loaded exactly from a file whose text holds it. -/
theorem loadFile_eq_ok_iff : loadFile files path = .ok test ↔
    ∃ text, files.find? path = some (.file (some text)) ∧
      Reads (FilePath.extension? path) text test := by
  by_cases htext : ∃ text, files.find? path = some (.file (some text))
  · obtain ⟨text, hfind⟩ := htext
    rw [loadFile_of_text hfind, definition_eq_ok_iff, hfind]
    simp
  · rw [loadFile_of_unreadable fun text hfind => htext ⟨text, hfind⟩]
    refine iff_of_false nofun ?_
    rintro ⟨text, hfind, -⟩
    exact htext ⟨text, hfind⟩

/-- What is loaded from an entry is the test that it defines. -/
theorem testOf?_eq_some_iff (h : files.find? directory = some (.directory entries))
    (hname : FilePath.IsOrdinary name) :
    testOf? files directory name = some test ↔ Defines entries name test := by
  have hfind := FileSystem.find?_join h hname
  have hextension := extension?_join directory hname
  have hload : (loadFile files (FilePath.join directory name)).toOption = some test ↔
      loadFile files (FilePath.join directory name) = .ok test := by
    cases loadFile files (FilePath.join directory name) <;> simp [Except.toOption]
  unfold testOf? Defines NamesTest
  dsimp only
  rw [Option.ite_none_right_eq_some, Bool.and_eq_true, isFile_iff, isTestFile_iff hextension, hload,
    loadFile_eq_ok_iff, hfind, hextension]
  constructor
  · rintro ⟨⟨-, hnames⟩, hdefines⟩
    exact ⟨hnames, hdefines⟩
  · rintro ⟨hnames, text, hentry, hreads⟩
    exact ⟨⟨⟨some text, hentry⟩, hnames⟩, text, hentry, hreads⟩

/-! ## Directories -/

theorem list?_of_find? (h : files.find? directory = some (.directory entries)) :
    files.list? directory = some entries.names := by
  rw [FileSystem.list?, h]
  rfl

def sortedNames (entries : Table FileTree) : List String :=
  entries.names.mergeSort fun a b => !(b < a)

theorem mem_sortedNames : name ∈ sortedNames entries ↔ name ∈ entries.names :=
  (List.mergeSort_perm _ _).mem_iff

/-- The names are in strict order, since they differ. -/
theorem sortedNames_pairwise (h : entries.names.Nodup) : (sortedNames entries).Pairwise (· < ·) := by
  have hle (a b : String) : (!decide (b < a)) = true ↔ a ≤ b := by
    rw [Bool.not_eq_true', decide_eq_false_iff_not, String.not_lt]
  have hsorted : (sortedNames entries).Pairwise fun a b => a ≤ b := by
    refine List.Pairwise.imp (hle _ _).1 (List.pairwise_mergeSort ?_ ?_ entries.names)
    · intro a b c hab hbc
      exact (hle a c).2 (String.le_trans ((hle a b).1 hab) ((hle b c).1 hbc))
    · intro a b
      rw [Bool.or_eq_true, hle, hle]
      exact String.le_total a b
  have honce : (sortedNames entries).Nodup := (List.mergeSort_perm _ _).nodup_iff.2 h
  refine (hsorted.and honce).imp ?_
  rintro a b ⟨hle, hne⟩
  by_contra hnot
  exact hne (String.le_antisymm hle (String.not_lt.1 hnot))

def testsOf (files : FileSystem) (directory : String) (entries : Table FileTree) :
    List (String × TestDefinition) :=
  (sortedNames entries).filterMap fun name => (testOf? files directory name).map (name, ·)

/-- The tests of a directory are those of its names. -/
theorem mem_testsOf : (name, test) ∈ testsOf files directory entries ↔
    name ∈ entries.names ∧ testOf? files directory name = some test := by
  unfold testsOf
  rw [List.mem_filterMap]
  constructor
  · rintro ⟨other, hother, hmap⟩
    obtain ⟨found, hfound, hpair⟩ := Option.map_eq_some_iff.1 hmap
    cases hpair
    exact ⟨mem_sortedNames.1 hother, hfound⟩
  · rintro ⟨hname, htest⟩
    exact ⟨name, mem_sortedNames.2 hname, by rw [htest]; rfl⟩

theorem Defines.mem_names (h : Defines entries name test) : name ∈ entries.names := by
  obtain ⟨-, text, hentry, -⟩ := h
  by_contra hmissing
  rw [Table.find?_eq_none_iff.2 hmissing] at hentry
  cases hentry

/-- The tests of a directory are all that its entries define, in the order of their names. -/
theorem areTests_testsOf (h : files.find? directory = some (.directory entries))
    (hlisting : FileTree.IsListing entries) : AreTests entries (testsOf files directory entries) where
  inOrder := by
    refine (sortedNames_pairwise hlisting.once).filterMap _ ?_
    intro a b hab x hx y hy
    obtain ⟨_, -, rfl⟩ := Option.map_eq_some_iff.1 hx
    obtain ⟨_, -, rfl⟩ := Option.map_eq_some_iff.1 hy
    exact hab
  mem_iff name test := by
    rw [mem_testsOf]
    constructor
    · rintro ⟨hname, htest⟩
      exact (testOf?_eq_some_iff h (hlisting.ordinary name hname)).1 htest
    · intro hdefines
      exact ⟨hdefines.mem_names,
        (testOf?_eq_some_iff h (hlisting.ordinary name hdefines.mem_names)).2 hdefines⟩

theorem areTests_of_find? (hlisted : files.root.IsListed)
    (h : files.find? directory = some (.directory entries)) :
    AreTests entries (testsOf files directory entries) :=
  areTests_testsOf h (FileSystem.isListed_of_find? hlisted h).isListing

/-- Loading a directory cannot fail, and loads its tests. -/
theorem loadDirectory_eq (h : files.find? directory = some (.directory entries)) :
    loadDirectory files directory = .ok ((testsOf files directory entries).map Prod.snd) := by
  have htests : (testsOf files directory entries).map Prod.snd =
      (sortedNames entries).filterMap (testOf? files directory) := by
    unfold testsOf
    rw [List.map_filterMap]
    refine congrArg (List.filterMap · _) (funext fun name => ?_)
    cases testOf? files directory name <;> rfl
  unfold loadDirectory testFiles
  rw [list?_of_find? h, htests]
  dsimp only
  rw [List.filterMap_filter, List.filterMap_map]
  rfl

/-- Entries that define the same tests have one list of tests. -/
theorem AreTests.unique {tests tests' : List (String × TestDefinition)} {entries' : Table FileTree}
    (h : AreTests entries tests) (h' : AreTests entries' tests')
    (hsame : ∀ name test, Defines entries name test ↔ Defines entries' name test) : tests = tests' := by
  have hirrefl : Std.Irrefl fun a b : String × TestDefinition => a.1 < b.1 :=
    ⟨fun a => String.lt_irrefl a.1⟩
  have hantisymm : Std.Antisymm fun a b : String × TestDefinition => a.1 < b.1 :=
    ⟨fun a b hab hba => absurd hba (String.lt_asymm hab)⟩
  refine h.inOrder.eq_of_mem_iff h'.inOrder ?_
  rintro ⟨name, test⟩
  rw [h.mem_iff, h'.mem_iff, hsame]

/-- Two directories differ only in entries that define no test. -/
def AlikeInTests (entries entries' : Table FileTree) : Prop :=
  ∀ name, Table.find? entries name = Table.find? entries' name ∨
    ∀ test, ¬ Defines entries name test ∧ ¬ Defines entries' name test

/-- Directories that are alike in their test files define the same tests. -/
theorem AlikeInTests.defines_iff {entries' : Table FileTree} (h : AlikeInTests entries entries')
    (name : String) (test : TestDefinition) :
    Defines entries name test ↔ Defines entries' name test := by
  rcases h name with hsame | hnone
  · unfold Defines
    rw [hsame]
  · exact iff_of_false (hnone test).1 (hnone test).2

/-! ## Paths -/

/-- A path that is asked for gives some tests: a file has the one that it holds, a directory those of
its entries, and a path that is missing has none. -/
inductive Contributes (files : FileSystem) (path : String) : List TestDefinition → Prop
  | file {text : String} {test : TestDefinition} : files.find? path = some (.file (some text)) →
      Reads (FilePath.extension? path) text test → Contributes files path [test]
  | directory {entries : Table FileTree} {tests : List (String × TestDefinition)} :
      files.find? path = some (.directory entries) → AreTests entries tests →
      Contributes files path (tests.map Prod.snd)
  | missing : files.find? path = none → Contributes files path []

/-- A path that is asked for cannot be loaded: it is a file that cannot be read or holds no test in its
format, or a directory that cannot be read. -/
inductive Refuses (files : FileSystem) (path : String) : LoadError → Prop
  | unreadable : files.find? path = some (.file none) → Refuses files path (.unreadableFile path)
  | badJson {text : String} {cause : DefinitionError} : files.find? path = some (.file (some text)) →
      FilePath.extension? path = some "json" → TestDefinition.ofJson text = .error cause →
      Refuses files path (.badJson path cause)
  | badYaml {text : String} {cause : DefinitionError} : files.find? path = some (.file (some text)) →
      FilePath.extension? path ≠ some "json" → TestDefinition.ofYaml text = .error cause →
      Refuses files path (.badYaml path cause)
  | closed : files.find? path = some .closed → Refuses files path (.unreadableDirectory path)

/-- A path that leads nowhere is passed over. -/
theorem loadPath_of_none (h : files.find? path = none) : loadPath files path = .ok [] := by
  simp [loadPath, FileSystem.isFile, FileSystem.isDirectory, h]

/-- A file that is asked for by its path has to be readable. -/
theorem loadPath_of_file {text? : Option String} (h : files.find? path = some (.file text?)) :
    loadPath files path = (loadFile files path).map fun test => [test] :=
  if_pos (isFile_iff.2 ⟨text?, h⟩)

/-- A directory yields its tests, and what is no test is passed over. -/
theorem loadPath_of_directory (h : files.find? path = some (.directory entries)) :
    loadPath files path = .ok ((testsOf files path entries).map Prod.snd) := by
  simp [loadPath, FileSystem.isFile, FileSystem.isDirectory, FileTree.isDirectory, h,
    loadDirectory_eq h]

theorem loadPath_of_closed (h : files.find? path = some .closed) :
    loadPath files path = .error (.unreadableDirectory path) := by
  have hlist : files.list? path = none := by
    rw [FileSystem.list?, h]
    rfl
  simp [loadPath, FileSystem.isFile, FileSystem.isDirectory, FileTree.isDirectory, h, loadDirectory,
    hlist]

/-- A path is loaded to what it contributes. -/
theorem loadPath_of_contributes (hlisted : files.root.IsListed) {tests : List TestDefinition}
    (h : Contributes files path tests) : loadPath files path = .ok tests := by
  cases h with
  | file hfind hreads =>
    rw [loadPath_of_file hfind, loadFile_eq_ok_iff.2 ⟨_, hfind, hreads⟩]
    rfl
  | directory hfind htests =>
    have hloaded := areTests_of_find? hlisted hfind
    rw [loadPath_of_directory hfind, hloaded.unique htests fun _ _ => Iff.rfl]
  | missing hfind => exact loadPath_of_none hfind

/-- A path that refuses is loaded to its error. -/
theorem loadPath_of_refuses {e : LoadError} (h : Refuses files path e) :
    loadPath files path = .error e := by
  cases h with
  | unreadable hfind =>
    rw [loadPath_of_file hfind, loadFile_of_unreadable (by simp [hfind])]
    rfl
  | badJson hfind hjson hread =>
    rw [loadPath_of_file hfind, loadFile_of_text hfind, definition_of_json hjson, hread]
    rfl
  | badYaml hfind hyaml hread =>
    rw [loadPath_of_file hfind, loadFile_of_text hfind, definition_of_yaml hyaml, hread]
    rfl
  | closed hfind => exact loadPath_of_closed hfind

/-- There is no other path than those that give tests and those that cannot be loaded. -/
theorem contributes_or_refuses (hlisted : files.root.IsListed) (path : String) :
    (∃ tests, Contributes files path tests) ∨ ∃ e, Refuses files path e := by
  cases hfind : files.find? path with
  | none => exact .inl ⟨[], .missing hfind⟩
  | some tree =>
    cases tree with
    | file text? =>
      cases text? with
      | none => exact .inr ⟨_, .unreadable hfind⟩
      | some text =>
        by_cases hjson : FilePath.extension? path = some "json"
        · cases hread : TestDefinition.ofJson text with
          | ok test => exact .inl ⟨_, .file hfind (.inl ⟨hjson, hread⟩)⟩
          | error cause => exact .inr ⟨_, .badJson hfind hjson hread⟩
        · cases hread : TestDefinition.ofYaml text with
          | ok test => exact .inl ⟨_, .file hfind (.inr ⟨hjson, hread⟩)⟩
          | error cause => exact .inr ⟨_, .badYaml hfind hjson hread⟩
    | directory entries => exact .inl ⟨_, .directory hfind (areTests_of_find? hlisted hfind)⟩
    | closed => exact .inr ⟨_, .closed hfind⟩

/-- No path does both. -/
theorem Contributes.not_refuses (hlisted : files.root.IsListed) {tests : List TestDefinition}
    {e : LoadError} (h : Contributes files path tests) : ¬ Refuses files path e := by
  intro hrefuses
  have hok := loadPath_of_contributes hlisted h
  rw [loadPath_of_refuses hrefuses] at hok
  cases hok

/-! ## Lists of paths -/

/-- What is loaded from several paths, one after the other. -/
theorem loadAll_cons (files : FileSystem) (path : String) (rest : List String) :
    loadAll files (path :: rest) =
      (loadPath files path).bind fun front => (loadAll files rest).map (front ++ ·) := by
  unfold loadAll
  rw [List.mapM_cons]
  cases loadPath files path with
  | error e => rfl
  | ok front =>
    change ((List.mapM (loadPath files) rest).bind _).bind _ = Except.map _ (Except.bind _ _)
    cases List.mapM (loadPath files) rest with
    | error e => rfl
    | ok parts => rfl

/-- Some path cannot be loaded, and it is the first one. -/
def FirstRefuses (files : FileSystem) (paths : List String) (e : LoadError) : Prop :=
  ∃ front path back, paths = front ++ path :: back ∧
    (∀ p ∈ front, ∃ tests, Contributes files p tests) ∧ Refuses files path e

/-- If all paths contribute, their tests are put together in the order of the paths. -/
theorem loadAll_of_contribute (hlisted : files.root.IsListed) {paths : List String}
    {parts : List (List TestDefinition)} (h : List.Forall₂ (Contributes files) paths parts) :
    loadAll files paths = .ok parts.flatten := by
  induction h with
  | nil => rfl
  | cons hfirst _ ih =>
    rw [loadAll_cons, loadPath_of_contributes hlisted hfirst, ih]
    rfl

/-- The first path that refuses ends the loading with its error. -/
theorem loadAll_of_firstRefuses (hlisted : files.root.IsListed) {paths : List String} {e : LoadError}
    (h : FirstRefuses files paths e) : loadAll files paths = .error e := by
  obtain ⟨front, path, back, rfl, hfront, hrefuses⟩ := h
  induction front with
  | nil =>
    rw [List.nil_append, loadAll_cons, loadPath_of_refuses hrefuses]
    rfl
  | cons p front ih =>
    obtain ⟨⟨tests, htests⟩, hothers⟩ := List.forall_mem_cons.1 hfront
    rw [List.cons_append, loadAll_cons, loadPath_of_contributes hlisted htests, ih hothers]
    rfl

/-- Either all paths contribute or one of them is the first to refuse. -/
theorem contribute_or_firstRefuses (hlisted : files.root.IsListed) (paths : List String) :
    (∃ parts, List.Forall₂ (Contributes files) paths parts) ∨ ∃ e, FirstRefuses files paths e := by
  induction paths with
  | nil => exact .inl ⟨[], .nil⟩
  | cons path rest ih =>
    rcases contributes_or_refuses hlisted path with ⟨tests, htests⟩ | ⟨e, hrefuses⟩
    · rcases ih with ⟨parts, hparts⟩ | ⟨e, front, path', back, rfl, hfront, hrefuses⟩
      · exact .inl ⟨tests :: parts, .cons htests hparts⟩
      · have hothers := List.forall_mem_cons.2 ⟨⟨tests, htests⟩, hfront⟩
        exact .inr ⟨e, path :: front, path', back, rfl, hothers, hrefuses⟩
    · exact .inr ⟨e, [], path, rest, rfl, by simp, hrefuses⟩

/-- All paths are loaded if and only if each of them gives some tests, which stand one behind the
other. -/
theorem loadAll_eq_ok_iff (hlisted : files.root.IsListed) {paths : List String}
    {tests : List TestDefinition} : loadAll files paths = .ok tests ↔
      ∃ parts, List.Forall₂ (Contributes files) paths parts ∧ tests = parts.flatten := by
  constructor
  · intro h
    rcases contribute_or_firstRefuses hlisted paths with ⟨parts, hparts⟩ | ⟨e, hrefuses⟩
    · rw [loadAll_of_contribute hlisted hparts] at h
      cases h
      exact ⟨parts, hparts, rfl⟩
    · rw [loadAll_of_firstRefuses hlisted hrefuses] at h
      cases h
  · rintro ⟨parts, hparts, rfl⟩
    exact loadAll_of_contribute hlisted hparts

/-- The loading fails with the first path that refuses. -/
theorem loadAll_eq_error_iff (hlisted : files.root.IsListed) {paths : List String} {e : LoadError} :
    loadAll files paths = .error e ↔ FirstRefuses files paths e := by
  refine ⟨fun h => ?_, loadAll_of_firstRefuses hlisted⟩
  rcases contribute_or_firstRefuses hlisted paths with ⟨parts, hparts⟩ | ⟨e', hrefuses⟩
  · rw [loadAll_of_contribute hlisted hparts] at h
    cases h
  · rw [loadAll_of_firstRefuses hlisted hrefuses] at h
    cases h
    exact hrefuses

/-- What the loading of a directory comes to. -/
structure LoadsDirectory (files : FileSystem) (directory : String) (entries : Table FileTree) :
    Prop where
  /-- The tests that the entries define are loaded, each once, in the order of their names. -/
  tests : ∃ tests, AreTests entries tests ∧
    loadDirectory files directory = .ok (tests.map Prod.snd)
  /-- Entries that define no test make no difference. -/
  unaffected : ∀ files' directory' entries', files'.root.IsListed →
    files'.find? directory' = some (.directory entries') → AlikeInTests entries entries' →
    loadDirectory files' directory' = loadDirectory files directory

/-- What the loading of several paths comes to. -/
structure LoadsAll (files : FileSystem) (paths : List String) : Prop where
  /-- The tests of the paths stand one behind the other. -/
  ok_iff : ∀ tests, loadAll files paths = .ok tests ↔
    ∃ parts, List.Forall₂ (Contributes files) paths parts ∧ tests = parts.flatten
  /-- The loading fails if and only if some path cannot be loaded. -/
  fails_iff : (∃ e, loadAll files paths = .error e) ↔ ∃ path ∈ paths, ∃ e, Refuses files path e
  /-- The failure is that of the first one. -/
  error_iff : ∀ e, loadAll files paths = .error e ↔ FirstRefuses files paths e

theorem loadsDirectory (hlisted : files.root.IsListed)
    (h : files.find? directory = some (.directory entries)) :
    LoadsDirectory files directory entries where
  tests := ⟨_, areTests_of_find? hlisted h, loadDirectory_eq h⟩
  unaffected files' directory' entries' hlisted' h' halike := by
    have htests := areTests_of_find? hlisted h
    have htests' := areTests_of_find? hlisted' h'
    rw [loadDirectory_eq h, loadDirectory_eq h', htests.unique htests' halike.defines_iff]

theorem loadsAll (hlisted : files.root.IsListed) (paths : List String) : LoadsAll files paths where
  ok_iff _ := loadAll_eq_ok_iff hlisted
  fails_iff := by
    constructor
    · rintro ⟨e, h⟩
      obtain ⟨front, path, back, rfl, -, hrefuses⟩ := (loadAll_eq_error_iff hlisted).1 h
      exact ⟨path, by simp, e, hrefuses⟩
    · rintro ⟨path, hpath, e, hrefuses⟩
      rcases contribute_or_firstRefuses hlisted paths with ⟨parts, hparts⟩ | ⟨e', hfirst⟩
      · obtain ⟨index, rfl⟩ := List.get_of_mem hpath
        have hgiven := hparts.get index.isLt (hparts.length_eq ▸ index.isLt)
        exact absurd hrefuses (hgiven.not_refuses hlisted)
      · exact ⟨e', loadAll_of_firstRefuses hlisted hfirst⟩
  error_iff _ := loadAll_eq_error_iff hlisted

/-- Directories are loaded by what their entries define, whatever else is in them, and paths one after
the other, in all file systems. -/
theorem loader_loads (files : FileSystem) (hlisted : files.root.IsListed) :
    (∀ directory entries, files.find? directory = some (.directory entries) →
      LoadsDirectory files directory entries) ∧
    ∀ paths, LoadsAll files paths :=
  ⟨fun _ _ h => loadsDirectory hlisted h, loadsAll hlisted⟩

def stepless : String :=
  "\x7b\"name\":\"b\",\"steps\":[]\x7d"

/-- A directory with one test among other entries, and one that cannot be read. -/
def mixedEntries : Table FileTree :=
  [("b.json", .file (some stepless)), ("a.json", .file (some "\x7b")), ("a.yaml", .file none),
    ("notes.md", .file (some stepless)), ("sub.json", .directory []), ("locked", .closed)]

def mixedFiles : FileSystem :=
  ⟨.directory mixedEntries, []⟩

def isNamed (name : String) : Except DefinitionError TestDefinition → Bool
  | .ok test => test.name == name
  | .error _ => false

theorem isListed_mixedFiles : mixedFiles.root.IsListed := by
  refine .directory (by decide +kernel) ?_
  simp only [mixedEntries, List.forall_mem_cons]
  exact ⟨.file _, .file _, .file _, .file _, .directory (by decide) nofun, .closed, nofun⟩

/-- Its paths start from the root. -/
theorem find?_mixedFiles (path name : String) (hpath : path ≠ "")
    (hparts : FilePath.parts path = [name]) :
    mixedFiles.find? path = mixedFiles.root.descend [] [name] := by
  have hway : mixedFiles.way path = FilePath.parts path := ite_self _
  rw [FileSystem.find?_of_ne hpath, hway, hparts]

/-- A directory with other entries around its test loads that test, and a locked directory cannot be
loaded. -/
theorem mixedFiles_load :
    mixedFiles.root.IsListed ∧
      ∃ tests test, AreTests mixedEntries tests ∧ ("b.json", test) ∈ tests ∧ test.name = "b" ∧
        loadAll mixedFiles ["missing", "."] = .ok (tests.map Prod.snd) ∧
        ∃ e, loadAll mixedFiles [".", "locked"] = .error e := by
  obtain ⟨hdirectories, hpaths⟩ := loader_loads mixedFiles isListed_mixedFiles
  have hhere : mixedFiles.find? "." = some (.directory mixedEntries) :=
    find?_mixedFiles "." "." (by decide) (by decide +kernel)
  have hmissing : mixedFiles.find? "missing" = none :=
    find?_mixedFiles "missing" "missing" (by decide) (by decide +kernel)
  have hlocked : mixedFiles.find? "locked" = some .closed :=
    find?_mixedFiles "locked" "locked" (by decide) (by decide +kernel)
  obtain ⟨tests, htests, -⟩ := (hdirectories "." _ hhere).tests
  have hread : isNamed "b" (TestDefinition.ofJson stepless) = true := by decide +kernel
  unfold isNamed at hread
  split at hread
  · rename_i test htest
    have hdefines : Defines mixedEntries "b.json" test :=
      ⟨⟨"json", by simp, by decide +kernel⟩, stepless, rfl, .inl ⟨by decide +kernel, htest⟩⟩
    have hload : loadAll mixedFiles ["missing", "."] = .ok (tests.map Prod.snd) :=
      ((hpaths _).ok_iff _).2 ⟨[[], tests.map Prod.snd],
        .cons (.missing hmissing) (.cons (.directory hhere htests) .nil), by simp⟩
    have hfails : ∃ e, loadAll mixedFiles [".", "locked"] = .error e :=
      (hpaths _).fails_iff.2 ⟨"locked", by simp, _, .closed hlocked⟩
    exact ⟨isListed_mixedFiles, tests, test, htests, (htests.mem_iff _ _).2 hdefines,
      by simpa using hread, hload, hfails⟩
  · cases hread

end TestLoader

end StepScript
