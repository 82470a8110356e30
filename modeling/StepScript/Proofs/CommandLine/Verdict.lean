import StepScript.Proofs.CommandLine.Reports
import StepScript.Proofs.Text.Caseless

/-!
# Verdict — what a session that runs tests comes to

A session loads tests, chooses those that its options match, runs them one after the other, and counts
them.  It ends well if there is such a test and all of them pass, and the counts agree with that.  Reports
that cannot be saved make no difference.  Two things do: a test for which there is no result at all ends
the session before it has counted anything, and the filter of names compares texts in lower case, where a
sigma depends on its place.

* `Session.Matches`, `Session.Loaded` and `Session.Runs` say which tests a session chooses from, which
  it chooses, and how far it runs them;
* `Session.chosenTests_eq_ok_iff` and `Session.results_runs` say that the session does that;
* `Session.run_judged` is the main result, and `Session.sigmaFilter_misses` is a test that is not chosen
  although its name contains the filter.
-/

namespace StepScript

namespace Session

open Lowercase (lower caseless)

variable {files : FileSystem} {path : Option String} {o : Options} {s : Surroundings}
  {test : TestDefinition} {tests : List TestDefinition} {testRunner : TestRunner}
  {rs : List TestResult} {complete : Bool}

/-! ## Which tests are run -/

/-- A test matches some options: its name contains the filter, both in lower case, and it has the tag. -/
def Matches (o : Options) (test : TestDefinition) : Prop :=
  (∀ f ∈ o.filter, (lower f).toList <:+: (lower test.name).toList) ∧ ∀ tag ∈ o.tag, tag ∈ test.tags

instance (o : Options) : DecidablePred (Matches o) := fun _ =>
  inferInstanceAs (Decidable (_ ∧ _))

/-- A test matches some options without regard to case. -/
def MatchesCaseless (o : Options) (test : TestDefinition) : Prop :=
  (∀ f ∈ o.filter, caseless f <:+: caseless test.name) ∧ ∀ tag ∈ o.tag, tag ∈ test.tags

def matching (o : Options) (tests : List TestDefinition) : List TestDefinition :=
  tests.filter (Matches o)

/-- The tests of a path that is there or, without one, those of the default directories. -/
inductive Loaded (files : FileSystem) : Option String → List TestDefinition → Prop
  | given {path : String} {tests : List TestDefinition} : files.isPresent path = true →
      TestLoader.loadAll files [path] = .ok tests → Loaded files (some path) tests
  | discovered {tests : List TestDefinition} :
      TestLoader.loadAll files (TestLoader.discover files) = .ok tests → Loaded files none tests

/-- The search for a text is the relation of the library. -/
theorem occursIn_iff {part whole : List Char} : occursIn part whole = true ↔ part <:+: whole := by
  induction whole with
  | nil => rw [occursIn, List.isEmpty_iff, List.infix_nil]
  | cons c rest ih =>
    rw [occursIn, Bool.or_eq_true, List.isPrefixOf_iff_prefix, ih, List.infix_cons_iff]

/-- The choice of the program is the relation of being matched. -/
theorem isChosen_eq (o : Options) (test : TestDefinition) :
    isChosen o.filter o.tag test = decide (Matches o test) := by
  have hiff : isChosen o.filter o.tag test = true ↔ Matches o test := by
    unfold isChosen Matches TestDefinition.hasTag
    cases o.filter <;> cases o.tag <;> simp [occursIn_iff]
  rw [Bool.eq_iff_iff, hiff, decide_eq_true_iff]

theorem mem_matching : test ∈ matching o tests ↔ test ∈ tests ∧ Matches o test := by
  rw [matching, List.mem_filter, decide_eq_true_iff]

/-- There is something to run exactly if a test matches. -/
theorem matching_ne_nil_iff : matching o tests ≠ [] ↔ ∃ test ∈ tests, Matches o test := by
  simp [matching, List.filter_eq_nil_iff]

theorem mapError_eq_ok_iff {ε ε' α : Type} {f : ε → ε'} {x : Except ε α} {a : α} :
    x.mapError f = .ok a ↔ x = .ok a := by
  cases x <;> simp [Except.mapError]

/-- Loading succeeds with just the tests that are described, if there are any. -/
theorem loadTests_eq_ok_iff :
    loadTests files path = .ok tests ↔ Loaded files path tests ∧ tests ≠ [] := by
  cases path with
  | none =>
    have hread := nonempty_eq_ok_iff
      ((TestLoader.loadAll files (TestLoader.discover files)).mapError (Refusal.notLoaded ".")) id
      Refusal.noTests tests
    refine hread.trans ⟨?_, ?_⟩
    · rintro ⟨xs, hload, rfl, hne⟩
      exact ⟨.discovered (mapError_eq_ok_iff.1 hload), hne⟩
    · rintro ⟨⟨⟩, hne⟩
      exact ⟨tests, mapError_eq_ok_iff.2 ‹_›, rfl, hne⟩
  | some path =>
    cases hpresent : files.isPresent path with
    | false =>
      have hrefused : loadTests files (some path) = .error (.missingPath path) := by
        simp only [loadTests, hpresent]
        rfl
      rw [hrefused]
      constructor
      · intro h
        cases h
      · rintro ⟨⟨hthere, -⟩, -⟩
        cases hthere.symm.trans hpresent
    | true =>
      have hread := nonempty_eq_ok_iff
        ((TestLoader.loadAll files [path]).mapError (Refusal.notLoaded path)) id Refusal.noTests tests
      simp only [loadTests, hpresent, if_true]
      refine hread.trans ⟨?_, ?_⟩
      · rintro ⟨xs, hload, rfl, hne⟩
        exact ⟨.given hpresent (mapError_eq_ok_iff.1 hload), hne⟩
      · rintro ⟨⟨-, hload⟩, hne⟩
        exact ⟨tests, mapError_eq_ok_iff.2 hload, rfl, hne⟩

/-- What is loaded is determined by the files and the path. -/
theorem Loaded.unique {tests' : List TestDefinition} (h : Loaded files path tests)
    (h' : Loaded files path tests') : tests = tests' := by
  cases h with
  | given _ hload =>
    cases h' with
    | given _ hload' => exact Except.ok.inj (hload.symm.trans hload')
  | discovered hload =>
    cases h' with
    | discovered hload' => exact Except.ok.inj (hload.symm.trans hload')

/-- Tests are chosen if there are any that match. -/
theorem chosenTests_eq_ok_iff : chosenTests files o = .ok tests ↔
    ∃ loaded, Loaded files o.path loaded ∧ tests = matching o loaded ∧ tests ≠ [] := by
  have hfilter : List.filter (isChosen o.filter o.tag) = matching o := by
    funext tests
    simp only [matching, funext (isChosen_eq o)]
  have hread := nonempty_eq_ok_iff (loadTests files o.path) (matching o) Refusal.noneChosen tests
  unfold chosenTests
  rw [hfilter]
  refine hread.trans ⟨?_, ?_⟩
  · rintro ⟨loaded, hload, heq, hne⟩
    exact ⟨loaded, (loadTests_eq_ok_iff.1 hload).1, heq, hne⟩
  · rintro ⟨loaded, hload, rfl, hne⟩
    have hany : loaded ≠ [] := fun hnone => hne (by rw [hnone]; rfl)
    exact ⟨loaded, loadTests_eq_ok_iff.2 ⟨hload, hany⟩, rfl, hne⟩

/-! ## How tests are run -/

/-- Tests are run in order, each once, until there is no result of one of them. -/
inductive Runs (testRunner : TestRunner) : List TestDefinition → List TestResult → Bool → Prop
  | done : Runs testRunner [] [] true
  | next {test : TestDefinition} {r : TestResult} {rest : List TestDefinition}
      {rs : List TestResult} {complete : Bool} : testRunner.run test = .ok r →
      Runs testRunner rest rs complete → Runs testRunner (test :: rest) (r :: rs) complete
  | halted {test : TestDefinition} {why : Halt} {rest : List TestDefinition} :
      testRunner.run test = .error why → Runs testRunner (test :: rest) [] false

def passes (testRunner : TestRunner) (test : TestDefinition) : Bool :=
  match testRunner.run test with
  | .ok r => r.success
  | .error _ => false

theorem passes_of_ok {r : TestResult} (h : testRunner.run test = .ok r) :
    passes testRunner test = r.success := by
  rw [passes, h]

/-- A test whose run has no result does not pass. -/
theorem passes_of_error {why : Halt} (h : testRunner.run test = .error why) :
    passes testRunner test = false := by
  rw [passes, h]

/-- The results of a session are those of its tests in order, up to one that has none. -/
theorem results_runs (testRunner : TestRunner) (tests : List TestDefinition) :
    Runs testRunner tests (results testRunner tests).1 (results testRunner tests).2 := by
  induction tests with
  | nil => exact .done
  | cons test rest ih =>
    cases hrun : testRunner.run test with
    | error why =>
      rw [results, hrun]
      exact .halted hrun
    | ok r =>
      rw [results, hrun]
      exact .next hrun ih

theorem countP_add_countP_not {α : Type} (p : α → Bool) (xs : List α) :
    xs.countP p + xs.countP (fun x => !p x) = xs.length := by
  rw [List.length_eq_countP_add_countP p]
  simp

namespace Runs

/-- All tests pass if each has a result and all results are good. -/
theorem passes_iff (h : Runs testRunner tests rs complete) :
    (∀ test ∈ tests, passes testRunner test = true) ↔
      complete = true ∧ rs.all TestResult.success = true := by
  induction h with
  | done => simp
  | next hrun _ ih =>
    rw [List.forall_mem_cons, passes_of_ok hrun, ih, List.all_cons, Bool.and_eq_true, and_left_comm]
  | halted hrun =>
    rw [List.forall_mem_cons, passes_of_error hrun]
    simp

/-- The counts of a complete run are those of the tests that pass and that do not. -/
theorem summarize_eq (h : Runs testRunner tests rs true) :
    summarize rs = ⟨tests.countP (passes testRunner),
      tests.countP fun test => !passes testRunner test⟩ := by
  generalize hcomplete : true = complete at h
  induction h with
  | done => rfl
  | next hrun _ ih =>
    obtain ⟨hpassed, hfailed⟩ := Summary.mk.inj (ih hcomplete)
    simp only [summarize, List.countP_cons, hpassed, hfailed, passes_of_ok hrun]
  | halted => cases hcomplete

end Runs

/-! ## Verdicts -/

/-- What a session comes to whose options are accepted. -/
structure Judged (s : Surroundings) (o : Options) (outcome : Outcome) : Prop where
  /-- It ends well if tests are loaded, some match, and all that match pass. -/
  code_eq_zero_iff : outcome.code = 0 ↔ ∃ loaded, Loaded s.files o.path loaded ∧
    (∃ test ∈ loaded, Matches o test) ∧
    ∀ test ∈ loaded, Matches o test → passes (runner s o) test = true
  /-- If there are no tests to run nothing is counted. -/
  idle : (¬ ∃ loaded, Loaded s.files o.path loaded ∧ ∃ test ∈ loaded, Matches o test) →
    outcome.summary = none ∧ outcome.reports = []
  /-- Otherwise all that match are run, unless one has no result: then nothing is counted either. -/
  ran : ∀ loaded, Loaded s.files o.path loaded → (∃ test ∈ loaded, Matches o test) →
    ∃ rs complete, Runs (runner s o) (matching o loaded) rs complete ∧
      outcome.reports = reports s o rs ∧ outcome.summary.isSome = complete ∧
      (complete = false → outcome.code = crashCode)
  /-- What is counted are the tests that match, and those of them that pass. -/
  counted : ∀ loaded, Loaded s.files o.path loaded → ∀ counts, outcome.summary = some counts →
    counts.total = (matching o loaded).length ∧
    counts.passed = (matching o loaded).countP (passes (runner s o)) ∧
    counts.passed + counts.failed = counts.total
  /-- A test that matches does so without regard to case, and the converse holds of a filter without a
  sigma. -/
  caseless : ∀ test, (Matches o test → MatchesCaseless o test) ∧
    ((∀ f ∈ o.filter, 'σ' ∉ caseless f) → MatchesCaseless o test → Matches o test)

/-- Tests are chosen unless none match. -/
theorem chosenTests_ok_iff : (∃ tests, chosenTests files o = .ok tests) ↔
    ∃ loaded, Loaded files o.path loaded ∧ ∃ test ∈ loaded, Matches o test := by
  constructor
  · rintro ⟨tests, hchosen⟩
    obtain ⟨loaded, hload, rfl, hne⟩ := chosenTests_eq_ok_iff.1 hchosen
    exact ⟨loaded, hload, matching_ne_nil_iff.1 hne⟩
  · rintro ⟨loaded, hload, hany⟩
    exact ⟨matching o loaded,
      chosenTests_eq_ok_iff.2 ⟨loaded, hload, rfl, matching_ne_nil_iff.2 hany⟩⟩

/-- A refused session ends with code one, counts nothing and saves nothing. -/
theorem runOptions_of_error {e : Refusal} (h : chosenTests s.files o = .error e) :
    (runOptions s o).code = 1 ∧ (runOptions s o).summary = none ∧ (runOptions s o).reports = [] := by
  simp only [runOptions, h]
  exact ⟨rfl, rfl, rfl⟩

/-- A session that runs ends well exactly if it is complete and all results are successes. -/
theorem runOptions_of_ok (h : chosenTests s.files o = .ok tests)
    (hresults : results (runner s o) tests = (rs, complete)) :
    ((runOptions s o).code = 0 ↔ complete = true ∧ rs.all TestResult.success = true) ∧
      (runOptions s o).summary = (if complete then some (summarize rs) else none) ∧
      (runOptions s o).reports = reports s o rs ∧
      (complete = false → (runOptions s o).code = crashCode) := by
  simp only [runOptions, h, hresults]
  cases complete with
  | true => simp
  | false => simp [crashCode]

/-- Whatever matches also does so without case; the converse holds for filters without a sigma. -/
theorem matches_caseless (o : Options) (test : TestDefinition) :
    (Matches o test → MatchesCaseless o test) ∧
      ((∀ f ∈ o.filter, 'σ' ∉ caseless f) → MatchesCaseless o test → Matches o test) :=
  ⟨fun h => ⟨fun f hf => Lowercase.infix_caseless_of_lower (h.1 f hf), h.2⟩,
    fun hnone h => ⟨fun f hf => (Lowercase.infix_lower_iff (hnone f hf)).2 (h.1 f hf), h.2⟩⟩

/-- The judgement holds of the session that the options lead to, whatever they are. -/
theorem runOptions_judged (s : Surroundings) (o : Options) : Judged s o (runOptions s o) := by
  cases hchosen : chosenTests s.files o with
  | error e =>
    have hnone : ¬ ∃ loaded, Loaded s.files o.path loaded ∧ ∃ test ∈ loaded, Matches o test := by
      rw [← chosenTests_ok_iff, hchosen]
      exact fun ⟨_, h⟩ => nomatch h
    obtain ⟨hcode, hsummary, hreports⟩ := runOptions_of_error hchosen
    exact {
      code_eq_zero_iff := by
        rw [hcode]
        exact ⟨nofun, fun ⟨loaded, hload, hany, _⟩ => absurd ⟨loaded, hload, hany⟩ hnone⟩
      idle := fun _ => ⟨hsummary, hreports⟩
      ran := fun loaded hload hany => absurd ⟨loaded, hload, hany⟩ hnone
      counted := fun _ _ _ h => nomatch hsummary.symm.trans h
      caseless := matches_caseless o }
  | ok tests =>
    obtain ⟨loaded, hload, rfl, hne⟩ := chosenTests_eq_ok_iff.1 hchosen
    have hany := matching_ne_nil_iff.1 hne
    have hruns := results_runs (runner s o) (matching o loaded)
    generalize hresults : results (runner s o) (matching o loaded) = found at hruns
    obtain ⟨rs, complete⟩ := found
    obtain ⟨hcode, hsummary, hreports, hcrash⟩ := runOptions_of_ok hchosen hresults
    exact {
      code_eq_zero_iff := by
        rw [hcode, ← hruns.passes_iff]
        simp only [mem_matching, and_imp]
        refine ⟨fun hall => ⟨loaded, hload, hany, hall⟩, ?_⟩
        rintro ⟨loaded', hload', -, hall⟩
        rwa [hload.unique hload']
      idle := fun hnone => absurd ⟨loaded, hload, hany⟩ hnone
      ran := by
        intro loaded' hload' _
        rw [← hload.unique hload']
        refine ⟨rs, complete, hruns, hreports, ?_, hcrash⟩
        rw [hsummary]
        cases complete <;> rfl
      counted := by
        intro loaded' hload' counts hcounts
        rw [← hload.unique hload']
        rw [hsummary] at hcounts
        split at hcounts
        · rename_i hcomplete
          subst hcomplete
          cases hcounts
          rw [Summary.total, hruns.summarize_eq]
          exact ⟨countP_add_countP_not _ _, rfl, rfl⟩
        · cases hcounts
      caseless := matches_caseless o }

/-- A session ends well if and only if tests are loaded, some of them match, and all of these pass.  The
tests that match are run in order, each once, and counted, whether their reports can be saved or not;
only where there is no result of one the session ends there, and nothing is counted. -/
theorem run_judged (s : Surroundings) (arguments : List String) (o : Options)
    (haccepted : Arguments.read s.environment arguments = .ok (.run o)) :
    Judged s o (run s arguments) := by
  have hrun : run s arguments = runOptions s o := by
    simp only [run, haccepted]
  rw [hrun]
  exact runOptions_judged s o

/-- The tests of the working directory with a name are run, and a file stands where their reports should
be. -/
def unsavedOptions : Options :=
  ⟨some ".", some "A_B", none, false, [], false, some "a.json", none⟩

/-- One of two tests matches and passes, and its report cannot be saved. -/
theorem unsavedReport_judged :
    let s := collidingSession id
    let arguments := ["-p", ".", "-f", "A_B", "-r", "a.json"]
    let outcome := run s arguments
    Arguments.read s.environment arguments = .ok (.run unsavedOptions) ∧
      Judged s unsavedOptions outcome ∧ outcome.code = 0 ∧
      ∃ r, outcome.reports = [r] ∧ save s.files r = none := by
  intro s arguments outcome
  have hread : Arguments.read s.environment arguments = .ok (.run unsavedOptions) := rfl
  have hjudged : Judged s unsavedOptions outcome := run_judged s arguments unsavedOptions hread
  have hload : Loaded s.files unsavedOptions.path [emptyTest "a b", emptyTest "a_b"] :=
    (loadTests_eq_ok_iff.1 colliding_loads).1
  have hmatching : matching unsavedOptions [emptyTest "a b", emptyTest "a_b"] = [emptyTest "a_b"] := by
    rw [matching, List.filter_cons_of_neg (by decide +kernel),
      List.filter_cons_of_pos (by decide +kernel), List.filter_nil]
  have hany : ∃ test ∈ [emptyTest "a b", emptyTest "a_b"], Matches unsavedOptions test :=
    matching_ne_nil_iff.1 (by rw [hmatching]; exact List.cons_ne_nil _ _)
  have hpasses : ∀ test ∈ [emptyTest "a b", emptyTest "a_b"], Matches unsavedOptions test →
      passes (runner s unsavedOptions) test = true := by
    intro test htest hmatches
    have hchosen := mem_matching.2 ⟨htest, hmatches⟩
    rw [hmatching, List.mem_singleton] at hchosen
    rw [hchosen]
    rfl
  obtain ⟨rs, complete, hruns, hreports, -⟩ := hjudged.ran _ hload hany
  rw [hmatching] at hruns
  cases hruns with
  | halted hrun => cases hrun
  | next hrun hrest =>
    cases hrun
    cases hrest
    exact ⟨hread, hjudged, hjudged.code_eq_zero_iff.2 ⟨_, hload, hany, hpasses⟩, _, hreports,
      by decide +kernel⟩

/-- A sigma at the end of the filter is one inside the name. -/
def sigmaOptions : Options :=
  ⟨some "t.json", some "ΑΣ", none, false, [], false, none, none⟩

def sigmaSession : Surroundings :=
  ⟨⟨.directory [("t.json", emptyTestFile "ΑΣΑ")], []⟩, [], ⟨"", "", "", "", ""⟩, id⟩

/-- The one test is loaded from its file. -/
theorem sigma_loaded : Loaded sigmaSession.files (some "t.json") [emptyTest "ΑΣΑ"] := by
  have hfile : TestLoader.loadFile sigmaSession.files "t.json" = .ok (emptyTest "ΑΣΑ") :=
    emptyTest_loads (by decide +kernel)
  have hthere : sigmaSession.files.isFile "t.json" = true := by decide +kernel
  refine .given (by decide +kernel) ?_
  simp only [TestLoader.loadAll, TestLoader.loadPath, List.mapM_cons, hthere, if_true, hfile]
  rfl

/-- A test is not found by the beginning of its name: at the end of the filter there is another small
sigma than inside the name.  So the session fails, although the test matches and passes. -/
theorem sigmaFilter_misses :
    let s := sigmaSession
    let test := emptyTest "ΑΣΑ"
    let outcome := run s ["-p", "t.json", "-f", "ΑΣ"]
    Arguments.read s.environment ["-p", "t.json", "-f", "ΑΣ"] = .ok (.run sigmaOptions) ∧
      Loaded s.files sigmaOptions.path [test] ∧ "ΑΣ".toList <:+: test.name.toList ∧
      MatchesCaseless sigmaOptions test ∧ passes (runner s sigmaOptions) test = true ∧
      outcome.code = 1 ∧ outcome.summary = none := by
  intro s test outcome
  have hinfix : "ΑΣ".toList <:+: test.name.toList := ⟨[], ['Α'], by decide⟩
  have hmatches : MatchesCaseless sigmaOptions test := by
    refine ⟨fun f hf => ?_, nofun⟩
    cases hf
    exact Lowercase.infix_caseless hinfix
  have hnone : matching sigmaOptions [test] = [] := by decide +kernel
  cases hchosen : chosenTests s.files sigmaOptions with
  | error e =>
    obtain ⟨hcode, hsummary, -⟩ := runOptions_of_error hchosen
    exact ⟨rfl, sigma_loaded, hinfix, hmatches, rfl, hcode, hsummary⟩
  | ok tests =>
    obtain ⟨loaded, hload, rfl, hne⟩ := chosenTests_eq_ok_iff.1 hchosen
    rw [hload.unique sigma_loaded] at hne
    exact absurd hnone hne

end Session

end StepScript
