import Mathlib.Data.List.Nodup
import StepScript.CommandLine.Session
import StepScript.Proofs.Files.Writing
import StepScript.Proofs.Run.Numbering
import StepScript.Proofs.Step.Shorthand

/-!
# Reports — when every test has a file of its own

The reports of a session are files in one directory.  The name of a report is made of the name of its
test, in which blanks and slashes become underscores, and of the second in which it is saved, and a
report takes the place of one with its name.  So there is a report of each test if no two tests have
names that become the same and reports that are saved in the same second; names that differ are not
enough.

* `Report.stem_injective`: a name of a report can be taken apart;
* `Session.runOptions_entries?`: what the directory of reports holds in the end;
* `Session.reports_kept_iff` is the main result, and `Session.collidingReports_lost` are two tests of
  different names with one report.
-/

namespace StepScript

/-! ## Names of reports -/

namespace Report

def stem (format : ReportFormat) (name : String × Nat) : String :=
  name.1 ++ "-" ++ toString name.2 ++ "." ++ format.extension

/-- The digits at the end of a text, behind a character that is none. -/
theorem takeWhile_isDigit_reverse {mark : Char} (hmark : mark.isDigit = false) (front : List Char)
    (time : Nat) :
    (front ++ mark :: (toString time).toList).reverse.takeWhile Char.isDigit =
      (toString time).toList.reverse := by
  have hdigits : ∀ c ∈ (toString time).toList.reverse, c.isDigit = true :=
    fun c hc => isDigit_of_mem_toString (List.mem_reverse.1 hc)
  calc (front ++ mark :: (toString time).toList).reverse.takeWhile Char.isDigit
      = ((toString time).toList.reverse ++ mark :: front.reverse).takeWhile Char.isDigit := by simp
    _ = (toString time).toList.reverse ++ (mark :: front.reverse).takeWhile Char.isDigit :=
        List.takeWhile_append_of_pos hdigits
    _ = (toString time).toList.reverse := by simp [hmark]

/-- The time is read from the digits at the end, and what is in front of them is the name. -/
theorem stem_injective (format : ReportFormat) : Function.Injective (stem format) := by
  rintro ⟨name, time⟩ ⟨other, time'⟩ h
  have hchars : name.toList ++ '-' :: (toString time).toList =
      other.toList ++ '-' :: (toString time').toList := by
    have hwhole := congrArg String.toList h
    simp only [stem, String.toList_append] at hwhole
    have hstem := List.append_cancel_right (List.append_cancel_right hwhole)
    rw [List.append_assoc, List.append_assoc] at hstem
    exact hstem
  have hdigits : (toString time).toList = (toString time').toList := by
    have hread := congrArg (fun cs => (List.takeWhile Char.isDigit cs.reverse).reverse) hchars
    simp only [takeWhile_isDigit_reverse (show '-'.isDigit = false by decide),
      List.reverse_reverse] at hread
    exact hread
  have hname : name = other := by
    rw [hdigits] at hchars
    exact String.toList_injective (List.append_cancel_right hchars)
  rw [hname, toString_injective hdigits]

end Report

namespace SavedReport

def entry (r : SavedReport) : String × FileTree :=
  (r.name, .file (some r.content))

end SavedReport

/-- The result of a test has its name. -/
theorem TestRunner.run_name {runner : TestRunner} {test : TestDefinition} {r : TestResult}
    (h : runner.run test = .ok r) : r.name = test.name := by
  rcases ok_of_bind h with ⟨⟨result, state⟩, hrun, hresult⟩
  cases hresult
  rcases ok_of_bind hrun with ⟨⟨outcome, last⟩, -, hresult⟩
  cases hresult
  rfl

/-! ## Saving -/

namespace Session

variable {files made : FileSystem} {directory : String} {entries : Table FileTree}
  {r : SavedReport} {s : Surroundings} {o : Options} {tests : List TestDefinition}
  {rs : List TestResult}

/-- The files with a directory for reports, which is made if it is not there. -/
def opened (files : FileSystem) (directory : String) : Option FileSystem :=
  if files.isPresent directory then some files else files.makeDirectories directory

/-- Saving a report opens its directory and then writes the file. -/
theorem save_eq (files : FileSystem) (r : SavedReport) :
    save files r = (opened files r.directory).bind fun made =>
      made.write? r.directory r.name r.content := by
  unfold save opened
  split <;> rfl

/-- A directory that is there stays as it is. -/
theorem opened_of_entries? (h : files.entries? directory = some entries) :
    opened files directory = some files := by
  unfold opened
  split
  · rfl
  · exact FileSystem.makeDirectories_of_entries? h

def Flat (entries : Table FileTree) : Prop :=
  ∀ name, (entries.find? name).any FileTree.isDirectory = false

/-- A directory of files stays one when a file is written. -/
theorem Flat.insert (h : Flat entries) (name : String) (text : Option String) :
    Flat (entries.insert name (.file text)) := by
  intro other
  rw [Table.find?_insert]
  split
  · rfl
  · exact h other

/-- A report that is saved is one of the files of its directory. -/
theorem save_entries? (hopened : opened files r.directory = some made)
    (hentries : made.entries? r.directory = some entries) (hflat : Flat entries)
    (hname : FileTree.isName r.name = true) :
    ∃ files', save files r = some files' ∧
      files'.entries? r.directory = some (entries.insert r.entry.1 r.entry.2) := by
  rw [save_eq, hopened]
  exact FileSystem.write?_entries? hentries hname r.content (hflat r.name)

/-- Save reports one after the other; one that cannot be saved changes nothing. -/
def saveAll (files : FileSystem) (reports : List SavedReport) : FileSystem :=
  reports.foldl (fun files r => (save files r).getD files) files

/-- Reports that are saved in a directory that is there are written over each other in order. -/
theorem saveAll_entries? {reports : List SavedReport}
    (hentries : files.entries? directory = some entries) (hflat : Flat entries)
    (hdirectory : ∀ r ∈ reports, r.directory = directory)
    (hnames : ∀ r ∈ reports, FileTree.isName r.name = true) :
    (saveAll files reports).entries? directory =
      some (Table.merge entries (reports.map SavedReport.entry)) := by
  induction reports generalizing files entries with
  | nil => exact hentries
  | cons r rest ih =>
    obtain ⟨hr, hrest⟩ := List.forall_mem_cons.1 hdirectory
    obtain ⟨hname, hnames⟩ := List.forall_mem_cons.1 hnames
    subst hr
    -- all that is in the directory are reports, so none of them stands in the way
    obtain ⟨files', hsave, hentries'⟩ :=
      save_entries? (opened_of_entries? hentries) hentries hflat hname
    have hnext := ih hentries' (hflat.insert _ _) hrest hnames
    simpa [saveAll, hsave, Table.merge] using hnext

/-- The first report makes the directory if it has to. -/
theorem saveAll_of_opened {reports : List SavedReport} (hne : reports ≠ [])
    (hopened : opened files directory = some made) (hentries : made.entries? directory = some entries)
    (hflat : Flat entries) (hdirectory : ∀ r ∈ reports, r.directory = directory)
    (hnames : ∀ r ∈ reports, FileTree.isName r.name = true) :
    saveAll files reports = saveAll made reports := by
  cases reports with
  | nil => exact absurd rfl hne
  | cons r rest =>
    obtain ⟨hr, -⟩ := List.forall_mem_cons.1 hdirectory
    obtain ⟨hname, -⟩ := List.forall_mem_cons.1 hnames
    subst hr
    have hsame : save files r = save made r := by
      rw [save_eq, save_eq, hopened, opened_of_entries? hentries]
    obtain ⟨files', hsave, -⟩ := save_entries? (opened_of_entries? hentries) hentries hflat hname
    simp only [saveAll, List.foldl_cons, hsame, hsave, Option.getD_some]

/-! ## Running -/

/-- A list that is worked out and must not be empty. -/
theorem nonempty_eq_ok_iff {ε α : Type} (x : Except ε (List α)) (f : List α → List α) (e : ε)
    (ys : List α) : (x >>= fun xs => if (f xs).isEmpty then throw e else return f xs) = .ok ys ↔
      ∃ xs, x = .ok xs ∧ ys = f xs ∧ ys ≠ [] := by
  constructor
  · intro h
    obtain ⟨xs, hx, hys⟩ := ok_of_bind h
    split at hys
    · cases hys
    · rename_i hne
      cases hys
      exact ⟨xs, hx, rfl, by simpa using hne⟩
  · rintro ⟨xs, rfl, rfl, hne⟩
    have hfalse : (f xs).isEmpty = false := by simpa using hne
    simp [bind, Except.bind, hfalse, pure, Except.pure]

/-- A session that is not refused has at least one test. -/
theorem chosenTests_ne_nil (h : chosenTests s.files o = .ok tests) : tests ≠ [] := by
  obtain ⟨_, -, -, hne⟩ := (nonempty_eq_ok_iff (loadTests s.files o.path)
    (List.filter (isChosen o.filter o.tag)) Refusal.noneChosen tests).1 h
  exact hne

/-- Tests that all have results are run to the last one. -/
theorem results_of_forall₂ {runner : TestRunner}
    (h : List.Forall₂ (fun test r => runner.run test = .ok r) tests rs) :
    results runner tests = (rs, true) := by
  induction h with
  | nil => rfl
  | cons hrun _ ih => simp only [results, hrun, ih]

/-- In the end the directory holds the reports, of those with one name the last one. -/
theorem runOptions_entries? (hdirectory : o.reportDirectory = some directory)
    (hchosen : chosenTests s.files o = .ok tests)
    (hrun : List.Forall₂ (fun test r => (runner s o).run test = .ok r) tests rs)
    (hopened : opened s.files directory = some made) (hempty : made.entries? directory = some [])
    (hnames : ∀ r ∈ reports s o rs, FileTree.isName r.name = true) :
    (runOptions s o).files.entries? directory =
      some (Table.ofEntries ((reports s o rs).map SavedReport.entry)) := by
  have hflat : Flat [] := fun _ => rfl
  have hin : ∀ r ∈ reports s o rs, r.directory = directory := by
    intro r hr
    simp only [reports, hdirectory, List.mem_mapIdx] at hr
    obtain ⟨i, hi, rfl⟩ := hr
    rfl
  have hne : reports s o rs ≠ [] := by
    have htests : tests ≠ [] := chosenTests_ne_nil hchosen
    have hresults : rs ≠ [] := by
      rintro rfl
      exact htests (List.forall₂_nil_right_iff.1 hrun)
    simpa [reports, hdirectory] using hresults
  have hfiles : (runOptions s o).files = saveAll s.files (reports s o rs) := by
    simp only [runOptions, hchosen, results_of_forall₂ hrun, if_true]
    rfl
  rw [hfiles, saveAll_of_opened hne hopened hempty hflat hin hnames]
  exact saveAll_entries? hempty hflat hin hnames

/-- The directory holds one file for each of the reports, and nothing else. -/
def HoldsEach (files : FileSystem) (directory : String) (reports : List SavedReport) : Prop :=
  ∃ entries, files.entries? directory = some entries ∧
    entries.Perm (reports.map SavedReport.entry)

/-- What is written of some entries is all of them exactly if they have different names. -/
theorem ofEntries_perm_iff {α : Type} {entries : Table α} :
    (Table.ofEntries entries).Perm entries ↔ entries.names.Nodup := by
  constructor
  · intro h
    have hnone : (Table.names ([] : Table α)).Nodup := List.nodup_nil
    exact (h.map Prod.fst).nodup_iff.1 (Table.nodup_merge hnone entries)
  · intro h
    rw [Table.ofEntries_of_nodup h]

/-- Functions that agree along related lists have the same lists of values. -/
theorem mapIdx_eq_of_forall₂ {α β γ : Type} {R : α → β → Prop} {xs : List α} {ys : List β}
    {f : Nat → α → γ} {g : Nat → β → γ} (h : List.Forall₂ R xs ys)
    (hsame : ∀ i a b, R a b → f i a = g i b) : xs.mapIdx f = ys.mapIdx g := by
  induction h generalizing f g with
  | nil => rfl
  | cons hab _ ih =>
    rw [List.mapIdx_cons, List.mapIdx_cons, hsame 0 _ _ hab]
    exact congrArg _ (ih fun i a b hab => hsame (i + 1) a b hab)

/-- The names of the reports, in order. -/
theorem names_entries (hdirectory : o.reportDirectory = some directory)
    (hrun : List.Forall₂ (fun test r => (runner s o).run test = .ok r) tests rs) :
    Table.names ((reports s o rs).map SavedReport.entry) =
      (tests.mapIdx fun i test => (Report.sanitized test.name, s.clock i)).map
        (Report.stem (o.reportFormat.getD .json)) := by
  let format := o.reportFormat.getD .json
  calc Table.names ((reports s o rs).map SavedReport.entry)
      = rs.mapIdx fun i r => Report.fileName format r.name (s.clock i) := by
        simp [reports, hdirectory, Table.names, List.mapIdx_eq_zipIdx_map, SavedReport.entry, report,
          format]
    _ = tests.mapIdx fun i test => Report.fileName format test.name (s.clock i) := by
        refine (mapIdx_eq_of_forall₂ hrun fun i test r hr => ?_).symm
        rw [TestRunner.run_name hr]
    _ = _ := by simp [List.mapIdx_eq_zipIdx_map, Report.fileName, Report.stem, format]

/-- Where the directory of reports is empty at first, a session leaves there one report of each test, with
its result, if and only if no two tests have names that become the same and reports that are saved in
the same second.  No report takes the place of another one then. -/
theorem reports_kept_iff (hdirectory : o.reportDirectory = some directory)
    (hchosen : chosenTests s.files o = .ok tests)
    (hrun : List.Forall₂ (fun test r => (runner s o).run test = .ok r) tests rs)
    (hopened : opened s.files directory = some made) (hempty : made.entries? directory = some [])
    (hnames : ∀ r ∈ reports s o rs, FileTree.isName r.name = true) :
    HoldsEach (runOptions s o).files directory (reports s o rs) ↔
      (tests.mapIdx fun i test => (Report.sanitized test.name, s.clock i)).Nodup := by
  have hentries := runOptions_entries? hdirectory hchosen hrun hopened hempty hnames
  calc HoldsEach (runOptions s o).files directory (reports s o rs)
      ↔ (Table.ofEntries ((reports s o rs).map SavedReport.entry)).Perm
          ((reports s o rs).map SavedReport.entry) := by simp [HoldsEach, hentries]
    _ ↔ (Table.names ((reports s o rs).map SavedReport.entry)).Nodup := ofEntries_perm_iff
    _ ↔ (tests.mapIdx fun i test => (Report.sanitized test.name, s.clock i)).Nodup := by
        rw [names_entries hdirectory hrun]
        exact List.nodup_map_iff (Report.stem_injective _)

/-! ## Two tests and one report -/

def emptyTest (name : String) : TestDefinition :=
  ⟨name, none, [], [], []⟩

def emptyTestFile (name : String) : FileTree :=
  .file (some ("\x7b\"name\":\"" ++ name ++ "\",\"steps\":[]\x7d"))

/-- The files of two tests whose names become the same. -/
def collidingFiles : FileSystem :=
  ⟨.directory [("a.json", emptyTestFile "a b"), ("b.json", emptyTestFile "a_b")], []⟩

def collidingOptions : Options :=
  ⟨some ".", none, none, false, [], false, some "out", none⟩

def collidingSession (clock : Nat → Nat) : Surroundings :=
  ⟨collidingFiles, [], ⟨"", "", "", "", ""⟩, clock⟩

theorem emptyTest_loads {files : FileSystem} {path name : String}
    (h : (match TestLoader.loadFile files path with
      | .ok test => test.name == name && test.description.isNone && test.tags.isEmpty &&
          test.bindings.isEmpty && test.steps.isEmpty
      | .error _ => false) = true) :
    TestLoader.loadFile files path = .ok (emptyTest name) := by
  split at h
  · rename_i test htest
    obtain ⟨found, description, tags, bindings, steps⟩ := test
    simp only [Bool.and_eq_true, beq_iff_eq, Option.isNone_iff_eq_none, List.isEmpty_iff] at h
    obtain ⟨⟨⟨⟨rfl, rfl⟩, rfl⟩, rfl⟩, rfl⟩ := h
    exact htest
  · cases h

/-- A test without steps passes at once. -/
theorem emptyTest_runs (runner : TestRunner) (name : String) :
    runner.run (emptyTest name) = .ok ⟨name, true, [], [], 0⟩ :=
  rfl

/-- Both tests are loaded, in the order of their files. -/
theorem colliding_loads :
    loadTests collidingFiles (some ".") = .ok [emptyTest "a b", emptyTest "a_b"] := by
  have hfirst : TestLoader.loadFile collidingFiles "./a.json" = .ok (emptyTest "a b") :=
    emptyTest_loads (by decide +kernel)
  have hsecond : TestLoader.loadFile collidingFiles "./b.json" = .ok (emptyTest "a_b") :=
    emptyTest_loads (by decide +kernel)
  have hfiles : TestLoader.testFiles collidingFiles "." ["a.json", "b.json"] =
      ["./a.json", "./b.json"] := by
    unfold TestLoader.testFiles
    rw [List.mergeSort_of_pairwise (by decide)]
    decide +kernel
  have hdirectory : TestLoader.loadDirectory collidingFiles "." =
      .ok [emptyTest "a b", emptyTest "a_b"] := by
    have hlist : collidingFiles.list? "." = some ["a.json", "b.json"] := by decide +kernel
    simp only [TestLoader.loadDirectory, hlist, hfiles, List.filterMap_cons, List.filterMap_nil,
      hfirst, hsecond]
    rfl
  have hpath : TestLoader.loadPath collidingFiles "." =
      .ok [emptyTest "a b", emptyTest "a_b"] := by
    have hfile : collidingFiles.isFile "." = false := by decide +kernel
    have hthere : collidingFiles.isDirectory "." = true := by decide +kernel
    simp [TestLoader.loadPath, hfile, hthere, hdirectory]
  have hpresent : collidingFiles.isPresent "." = true := by decide +kernel
  simp only [loadTests, hpresent, TestLoader.loadAll, List.mapM_cons, hpath]
  rfl

theorem colliding_chosen : chosenTests collidingFiles collidingOptions =
    .ok [emptyTest "a b", emptyTest "a_b"] := by
  simp only [chosenTests, collidingOptions, colliding_loads]
  rfl

def collidingResults : List TestResult :=
  [⟨"a b", true, [], [], 0⟩, ⟨"a_b", true, [], [], 0⟩]

/-- Without steps both tests pass, whatever the runner is. -/
theorem colliding_runs (runner : TestRunner) :
    List.Forall₂ (fun test r => runner.run test = .ok r) [emptyTest "a b", emptyTest "a_b"]
      collidingResults :=
  .cons (emptyTest_runs runner "a b") (.cons (emptyTest_runs runner "a_b") .nil)

def collidingMade : FileSystem :=
  ⟨.directory [("a.json", emptyTestFile "a b"), ("b.json", emptyTestFile "a_b"),
    ("out", .directory [])], []⟩

theorem colliding_opened : opened collidingFiles "out" = some collidingMade := by
  have habsent : collidingFiles.isPresent "out" = false := by decide +kernel
  have hnames : collidingFiles.names? "out" = some ["out"] := by decide +kernel
  simp only [opened, habsent, FileSystem.makeDirectories, hnames]
  rfl

theorem collidingMade_entries? : collidingMade.entries? "out" = some [] := by
  have hnames : collidingMade.names? "out" = some ["out"] := by decide +kernel
  simp only [FileSystem.entries?, hnames]
  rfl

/-- Where the clock ticks between the tests, both reports are kept. -/
theorem tickingReports_kept :
    let s := collidingSession id
    chosenTests s.files collidingOptions = .ok [emptyTest "a b", emptyTest "a_b"] ∧
      opened s.files "out" = some collidingMade ∧ collidingMade.entries? "out" = some [] ∧
      HoldsEach (runOptions s collidingOptions).files "out"
        (reports s collidingOptions collidingResults) := by
  have hnames : ∀ r ∈ reports (collidingSession id) collidingOptions collidingResults,
      FileTree.isName r.name = true := by decide +kernel
  have hkept := reports_kept_iff rfl colliding_chosen (colliding_runs _) colliding_opened
    collidingMade_entries? hnames
  exact ⟨colliding_chosen, colliding_opened, collidingMade_entries?, hkept.2 (by decide +kernel)⟩

/-- The command line of the session. -/
theorem colliding_run (clock : Nat → Nat) :
    run (collidingSession clock) ["-p", ".", "-r", "out"] =
      runOptions (collidingSession clock) collidingOptions := by
  have hread : Arguments.read [] ["-p", ".", "-r", "out"] = .ok (.run collidingOptions) := rfl
  simp only [run, collidingSession, hread]

/-- Where both reports are saved in the same second, one of them is lost, although the names of the tests
differ.  The outcome of the session does not tell: both tests are counted, and none has failed. -/
theorem collidingReports_lost :
    let s := collidingSession fun _ => 0
    let outcome := run s ["-p", ".", "-r", "out"]
    let names := ["a b", "a_b"]
    names.Nodup ∧ chosenTests s.files collidingOptions = .ok (names.map emptyTest) ∧
      List.Forall₂ (fun test r => (runner s collidingOptions).run test = .ok r) (names.map emptyTest)
        collidingResults ∧
      opened s.files "out" = some collidingMade ∧ collidingMade.entries? "out" = some [] ∧
      (∀ r ∈ reports s collidingOptions collidingResults, FileTree.isName r.name = true) ∧
      outcome.code = 0 ∧ outcome.summary = some ⟨2, 0⟩ ∧
      ¬ HoldsEach outcome.files "out" (reports s collidingOptions collidingResults) := by
  intro s outcome names
  have houtcome : outcome = runOptions s collidingOptions := colliding_run _
  have hnames : ∀ r ∈ reports s collidingOptions collidingResults,
      FileTree.isName r.name = true := by decide +kernel
  have hcounted : outcome.code = 0 ∧ outcome.summary = some ⟨2, 0⟩ := by
    have hchosen : chosenTests s.files collidingOptions = .ok (names.map emptyTest) :=
      colliding_chosen
    simp only [houtcome, runOptions, hchosen, names, List.map_cons, List.map_nil,
      results_of_forall₂ (colliding_runs (runner s collidingOptions)), if_true]
    exact ⟨rfl, rfl⟩
  have hlost : ¬ HoldsEach outcome.files "out" (reports s collidingOptions collidingResults) := by
    rintro ⟨entries, hentries, hperm⟩
    rw [houtcome, runOptions_entries? rfl colliding_chosen (colliding_runs _) colliding_opened
      collidingMade_entries? hnames] at hentries
    cases hentries
    -- both reports have one name
    have hsame : ¬ (Table.names ((reports s collidingOptions collidingResults).map
        SavedReport.entry)).Nodup := by decide +kernel
    exact hsame (ofEntries_perm_iff.1 hperm)
  exact ⟨by decide, colliding_chosen, colliding_runs _, colliding_opened, collidingMade_entries?,
    hnames, hcounted.1, hcounted.2, hlost⟩

end Session

end StepScript
