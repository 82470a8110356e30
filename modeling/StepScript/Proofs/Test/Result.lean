import StepScript.Proofs.Run.TopLevel
import StepScript.Test.Runner

/-!
# Result — the records and the messages of a test

A result tells what failed in two ways: by the records that a recorder keeps of all steps, at every
depth, and by the messages of the failure that the list of the test ends with.  Both go back to the
reports on the steps of the test, the one through the recorder and the other through the visits of
the list, and so they agree, as long as actions from outside keep to the nesting of step numbers.

* `Recorder.observe_records`: one record for each report, in order;
* `TestRunner.result_consistent`: one message for each record of a step of the test that failed;
* `TestRunner.consistency_fails`: there may be no result, and where an action from outside gives its
  nested steps numbers of its own, the result may be inconsistent.
-/

namespace StepScript

/-! ## Records of reports -/

/-- A record of a report, with some duration. -/
inductive Event.Recorded : Event → StepRecord → Prop
  | after {number : String} {step : Step} {status : StepStatus} {scopeNumber : Option String}
      {time : Nat} (duration : Nat) :
      Recorded (.after number step status scopeNumber time)
        (StepRecord.ofStatus number step status duration)

def Event.isReport : Event → Bool
  | .before _ _ _ => false
  | .after _ _ _ _ _ => true

/-- Listening to events adds one record for each report among them, in order. -/
theorem Recorder.observe_records (events : List Event) (r : Recorder) :
    ∃ records, (events.foldl Recorder.observe r).records = r.records ++ records ∧
      List.Forall₂ Event.Recorded (events.filter Event.isReport) records := by
  induction events generalizing r with
  | nil => exact ⟨[], by simp, .nil⟩
  | cons event events ih =>
    obtain ⟨records, hrecords, hall⟩ := ih (r.observe event)
    -- an announcement leaves no record, and a report leaves one at the end
    cases event with
    | before number raw time => exact ⟨records, hrecords, hall⟩
    | after number step status scopeNumber time =>
      have hobserve : ∃ duration, (r.observe (.after number step status scopeNumber time)).records =
          r.records ++ [StepRecord.ofStatus number step status duration] := ⟨_, rfl⟩
      obtain ⟨duration, hobserve⟩ := hobserve
      refine ⟨_ :: records, ?_, .cons (.after duration) hall⟩
      rw [List.foldl_cons, hrecords, hobserve, List.append_assoc]
      rfl

/-- The records of a run are those of its reports. -/
theorem Recorder.ofEvents_records (events : List Event) :
    List.Forall₂ Event.Recorded (events.filter Event.isReport) (Recorder.ofEvents events).records := by
  obtain ⟨records, hrecords, hall⟩ := Recorder.observe_records events Recorder.empty
  rwa [Recorder.ofEvents, hrecords]

namespace Event.Recorded

variable {event : Event} {record : StepRecord}

theorem number_eq (h : event.Recorded record) : record.number = event.number := by
  cases h
  rfl

/-- Whether a report is on a step of the test can be told from its record. -/
theorem isTopReport_eq (h : event.Recorded record) :
    event.isTopReport = decide (IsTopLevel record.number) := by
  cases h
  rfl

/-- A report counts exactly if its record is one of a failure. -/
theorem counts_iff (h : event.Recorded record) : event.counts = true ↔ record.state = .failed := by
  cases h with
  | @after number step status scopeNumber time duration =>
    cases status with
    | failed cause ignored => cases ignored <;> simp [Event.counts, StepRecord.ofStatus]
    | _ => simp [Event.counts, StepRecord.ofStatus]

end Event.Recorded

/-- Records have the numbers of the events in order. -/
theorem map_number_eq {events : List Event} {records : List StepRecord}
    (h : List.Forall₂ Event.Recorded events records) :
    events.map Event.number = records.map StepRecord.number := by
  induction h with
  | nil => rfl
  | cons hrecorded _ ih => rw [List.map_cons, List.map_cons, hrecorded.number_eq, ih]

/-! ## Messages -/

/-- A message on a failed step: it names the number of the step, and its display name or, if the
step ended the test, what was wrong with it.  The error of the record says the same. -/
inductive StepRecord.Explained (record : StepRecord) : String → Prop
  | failed (cause : Failure) : record.error = some cause.chain →
      Explained record
        ("Step " ++ record.number ++ " (" ++ record.name ++ ") failed: " ++ cause.message)
  | unknownType {message : String} :
      message = "Unknown step type '" ++ record.type ++ "' at step " ++ record.number →
      record.error = some message → Explained record message
  | invalid {message : String} (cause : Failure) :
      message = "Invalid step at " ++ record.number ++ ": " ++ cause.message →
      record.error = some message → Explained record message

/-- The record of a step explains the failure that its event raises. -/
theorem Event.Recorded.explained {event : Event} {record : StepRecord} {e : RunFailure}
    (h : event.Recorded record) (hraises : event.Raises e) : record.Explained e.message := by
  cases h with
  | after duration =>
    cases hraises with
    | failed => exact .failed _ rfl
    | fatal hcause =>
      -- what ended the test is the whole error of the record
      have herror : (Failure.action (.message e.message)).chain = e.message :=
        String.intercalate_singleton
      rcases hcause with rfl | ⟨reason, rfl⟩
      · exact .unknownType rfl (congrArg some herror)
      · exact .invalid reason rfl (congrArg some herror)

/-- Records of reports are explained by the failures that the reports raise. -/
theorem records_explained {events : List Event} {records : List StepRecord}
    {failures : List RunFailure} (hrecords : List.Forall₂ Event.Recorded events records)
    (hraises : List.Forall₂ Event.Raises events failures) :
    List.Forall₂ StepRecord.Explained records (failures.map RunFailure.message) := by
  induction hrecords generalizing failures with
  | nil =>
    cases hraises
    exact .nil
  | cons hrecord _ ih =>
    cases hraises with
    | cons hraise hrest => exact .cons (hrecord.explained hraise) (ih hrest)

/-- What single steps raise are single failures. -/
theorem isSingle_of_raises {events : List Event} {failures : List RunFailure}
    (h : List.Forall₂ Event.Raises events failures) : ∀ e ∈ failures, e.IsSingle := by
  induction h with
  | nil => exact fun _ he => absurd he List.not_mem_nil
  | cons hraise _ ih => exact List.forall_mem_cons.2 ⟨hraise.isSingle, ih⟩

/-! ## Results -/

namespace TestResult

/-- The records of the steps of the test. -/
def topLevel (result : TestResult) : List StepRecord :=
  result.steps.filter fun record => IsTopLevel record.number

def failed (result : TestResult) : List StepRecord :=
  result.topLevel.filter fun record => record.state = .failed

/-- The result of a test with `count` steps agrees with its records. -/
structure Consistent (result : TestResult) (count : Nat) : Prop where
  /-- The steps of the test are recorded in order. -/
  numbers : result.topLevel.map StepRecord.number =
    (List.range result.topLevel.length).map ListRun.topLevel
  length_le : result.topLevel.length ≤ count
  /-- If the test passed, all of them were reached. -/
  reached : result.success = true → result.topLevel.length = count
  success_iff : result.success = true ↔ ∀ record ∈ result.topLevel, record.state ≠ .failed
  /-- There is one message for each of them that failed, in order, and no other message. -/
  explained : List.Forall₂ StepRecord.Explained result.failed result.errors

end TestResult

namespace TestRunner

variable {A : Type} [ActionType A] {setup : Setup A} {depth : Nat} {test : TestDefinition} {scope : Scope}
  {result : TestResult} {s : RunState}

/-- The result of a test is read off the outcome of its list and the events of the run. -/
theorem runBy_ok {engine : Engine} (h : runBy engine test scope = .ok (result, s)) :
    ∃ outcome, Task.run (engine.runList (stepsOf test) ListRun.topLevel) (RunState.start scope) =
        .ok (outcome, s) ∧
      result.errors = errorsOf outcome ∧ result.success = result.errors.isEmpty ∧
      result.steps = (Recorder.ofEvents s.events).records := by
  simp only [runBy] at h
  cases hrun : Task.run (engine.runList (stepsOf test) ListRun.topLevel) (RunState.start scope) with
  | error halt =>
    rw [hrun] at h
    cases h
  | ok found =>
    rw [hrun] at h
    cases h
    exact ⟨found.1, rfl, rfl, rfl, rfl⟩

/-- The steps of a test are recorded as its list reports them. -/
theorem runBy_records (hnests : setup.registry.Nests)
    (h : runBy (ListRun.engine setup depth) test scope = .ok (result, s)) :
    ∃ reports outcome, ListRun.Foretells ListRun.topLevel test.steps.length reports outcome ∧
      List.Forall₂ Event.Recorded reports result.topLevel ∧
      result.errors = errorsOf outcome ∧ result.success = result.errors.isEmpty := by
  obtain ⟨outcome, hrun, herrors, hsuccess, hsteps⟩ := runBy_ok h
  cases depth with
  | zero => cases hrun
  | succ depth =>
    obtain ⟨visits, hwalk, rfl, hreports⟩ :=
      ListRun.runFrom_reports hnests (ListRun.engine_hidden hnests depth) isTopLevel_topLevel hrun
    refine ⟨visits.map ListRun.Visit.report, _, ?_, ?_, herrors, hsuccess⟩
    · simpa [stepsOf] using hwalk.foretells
    · -- of all reports that are recorded, those on the steps of the test are the visits of its list
      have htop : (s.events.filter Event.isReport).filter Event.isTopReport =
          visits.map ListRun.Visit.report := by
        have hreport (event : Event) : (event.isTopReport && event.isReport) = event.isTopReport := by
          cases event <;> simp [Event.isTopReport, Event.isReport]
        rw [List.filter_filter, List.filter_congr fun event _ => hreport event]
        simp [RunState.events, hreports, RunState.start]
      rw [← htop, TestResult.topLevel, hsteps]
      exact List.rel_filter (fun _ _ hrecorded => by simp [hrecorded.isTopReport_eq])
        (Recorder.ofEvents_records s.events)

/-- The messages of a test explain the records of the reports that count. -/
theorem errorsOf_explained {numbering : Numbering} {count : Nat} {reports : List Event}
    {outcome : Except RunFailure (List Value)} {failed : List StepRecord}
    (hforetells : ListRun.Foretells numbering count reports outcome)
    (hfailed : List.Forall₂ Event.Recorded (reports.filter Event.counts) failed) :
    List.Forall₂ StepRecord.Explained failed (errorsOf outcome) := by
  cases outcome with
  | ok results =>
    -- no report counts, so no record is one of a failure
    have hnone : reports.filter Event.counts = [] := by
      simpa using (hforetells.ok_iff.1 ⟨results, rfl⟩).2
    rw [hnone] at hfailed
    rw [List.forall₂_nil_left_iff.1 hfailed]
    exact .nil
  | error e =>
    have hraises := hforetells.raises e rfl
    rw [errorsOf, e.conveys_members.messages_eq_map (isSingle_of_raises hraises)]
    exact records_explained hfailed hraises

/-- However a test is run, and whatever actions there are from outside, its success and its messages
agree with the records of its steps. -/
theorem result_consistent (r : TestRunner A) (hnests : r.registry.Nests) (depth : Nat)
    (test : TestDefinition) (scope : Scope) (result : TestResult) (s : RunState)
    (h : runBy (ListRun.engine (Setup.plain r.registry) depth) test scope = .ok (result, s)) :
    result.Consistent test.steps.length := by
  obtain ⟨reports, outcome, hforetells, hrecords, herrors, hsuccess⟩ := runBy_records hnests h
  have hlength : reports.length = result.topLevel.length := hrecords.length_eq
  have hfailed : List.Forall₂ Event.Recorded (reports.filter Event.counts) result.failed :=
    List.rel_filter (fun _ _ hrecorded => by simp [hrecorded.counts_iff]) hrecords
  have hexplained : List.Forall₂ StepRecord.Explained result.failed result.errors := by
    rw [herrors]
    exact errorsOf_explained hforetells hfailed
  -- there are as many messages as records that failed, and so either both are none or neither is
  have hsuccessIff : result.success = true ↔ result.failed = [] := by
    rw [hsuccess, List.isEmpty_iff, ← List.length_eq_zero_iff, ← hexplained.length_eq,
      List.length_eq_zero_iff]
  constructor
  case numbers =>
    rw [← map_number_eq hrecords, ← hlength]
    exact hforetells.numbers
  case length_le =>
    rw [← hlength]
    exact hforetells.length_le
  case reached =>
    intro hpassed
    rw [hsuccessIff.1 hpassed] at hfailed
    rw [← hlength]
    exact hforetells.length_eq (List.forall₂_nil_right_iff.1 hfailed)
  case success_iff =>
    rw [hsuccessIff]
    simp [TestResult.failed]
  case explained => exact hexplained

/-! ## Actions from outside -/

def bareRunner (registry : Registry A) : TestRunner A where
  registry := registry
  environment := none
  agent := ⟨"", "", "", "", ""⟩
  overrides := []

def bareTest (steps : List Json) : TestDefinition where
  name := "bare"
  description := none
  tags := []
  bindings := []
  steps := steps

/-- An action from outside that runs a step of unknown type and does not care that this fails. -/
def heedless (numbering : String → Numbering) : AnyAction :=
  .outside fun _ number =>
    .runNested ⟨[.string "unheard"], none⟩ (numbering number) fun _ => .done (.ok .null)

def beneath (number : String) : Numbering :=
  fun index => number ++ "." ++ toString index

def heedlessRegistry (numbering : String → Numbering) : Registry AnyAction :=
  Registry.builtIn.known.register ["heedless"] ⟨Schema.empty, fun _ => .ok (heedless numbering)⟩

/-- A nested step that fails within one that passes, a step that fails, one that is skipped for it, and
one of unknown type, after which the last one is not reached. -/
def mixedTest : TestDefinition :=
  bareTest [
    .string "heedless",
    .object [("fail", .string "outer"), ("name", .string "refusal")],
    .object [("echo", .null)],
    .object [("type", .string "unheard"), ("runOnFailure", .bool true)],
    .object [("echo", .null)]]

/-- The five steps have their records, and the failures of two of them are the errors of the
test. -/
theorem mixedTest_end :
    ∃ result s, (bareRunner (heedlessRegistry beneath)).runIn mixedTest Scope.empty =
        .ok (result, s) ∧
      result.steps.map StepRecord.number = ["1.0", "1", "2", "3", "4"] ∧
      result.errors =
        ["Step 2 (refusal) failed: outer", "Unknown step type 'unheard' at step 4"] := by
  have hrun : (match (bareRunner (heedlessRegistry beneath)).runIn mixedTest Scope.empty with
      | .ok (result, _) =>
        result.steps.map StepRecord.number == ["1.0", "1", "2", "3", "4"] &&
          result.errors ==
            ["Step 2 (refusal) failed: outer", "Unknown step type 'unheard' at step 4"]
      | .error _ => false) = true := by decide +kernel
  split at hrun
  · rename_i result s h
    rw [Bool.and_eq_true, beq_iff_eq, beq_iff_eq] at hrun
    exact ⟨result, s, h, hrun⟩
  · cases hrun

/-- Registries of the library's own actions nest, and so does one with an action from outside that keeps
to the numbers beneath its step. -/
theorem mixedTest_consistent :
    (∀ registry : Registry, registry.Nests) ∧ (heedlessRegistry beneath).Nests ∧
      ∃ result s, (bareRunner (heedlessRegistry beneath)).runIn mixedTest Scope.empty =
          .ok (result, s) ∧
        result.errors.length = 2 ∧ result.Consistent 5 := by
  have hnests : (heedlessRegistry beneath).Nests := by
    refine Registry.nests_of_outside _ _ ?_
    rintro p _ ⟨⟩ step number
    exact Outside.runNested_nests (Performance.extends_dot number fun index => index) fun _ => trivial
  obtain ⟨result, s, h, -, herrors⟩ := mixedTest_end
  exact ⟨Registry.nests, hnests, result, s, h, by rw [herrors]; rfl,
    result_consistent (bareRunner (heedlessRegistry beneath)) hnests ListRun.maxDepth mixedTest
      Scope.empty result s h⟩

def hasCrashed : Except Halt (TestResult × RunState) → Bool
  | .error .crashed => true
  | _ => false

def concealsFailure : Except Halt (TestResult × RunState) → Bool
  | .ok (result, _) => result.success && result.topLevel.any fun record => record.state = .failed
  | .error _ => false

/-- A test may come to no result at all.  If an action from outside gives a step that it runs the number
of a step of the test, the result may be a success with a record of a failure. -/
theorem consistency_fails :
    (bareRunner Registry.builtIn).runIn
        (bareTest [.object [("echo", .string "$(A\x7b\x7d)")]]) Scope.empty = .error .crashed ∧
      ∃ result s, (bareRunner (heedlessRegistry fun _ _ => "100")).runIn
          (bareTest [.string "heedless"]) Scope.empty = .ok (result, s) ∧
        result.success = true ∧ ∃ record ∈ result.topLevel, record.state = .failed := by
  constructor
  · have hcrash : hasCrashed ((bareRunner Registry.builtIn).runIn
        (bareTest [.object [("echo", .string "$(A\x7b\x7d)")]]) Scope.empty) = true := by
      decide +kernel
    unfold hasCrashed at hcrash
    split at hcrash
    · assumption
    · cases hcrash
  · have hconceals : concealsFailure ((bareRunner (heedlessRegistry fun _ _ => "100")).runIn
        (bareTest [.string "heedless"]) Scope.empty) = true := by decide +kernel
    unfold concealsFailure at hconceals
    split at hconceals
    · rename_i result s h
      rw [Bool.and_eq_true] at hconceals
      exact ⟨result, s, h, hconceals.1, by simpa using hconceals.2⟩
    · cases hconceals

end TestRunner

end StepScript
