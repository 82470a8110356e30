import StepScript.Proofs.Scope.Layers
import StepScript.Proofs.Test.Result

/-!
# Recording — no report is lost, and none is recorded twice

A recorder is told of the beginnings and the ends of steps, and is asked now and then for its records,
which it shows or hands over.  Whatever it is told and asked in whatever order, what it has handed over
and what it still has are together one record for each report, in order.  Of the beginnings only the
durations depend, and a beginning counts for the next end of a step with its number.

* `Recorder.Tells` says what a record tells of a report;
* `Recorder.handed_append_records`: what an operation adds to the records of a recorder;
* `Recorder.find?_started`: which beginning a recorder remembers of a step;
* `Recorder.reports_recorded` is the main result.
-/

namespace StepScript

namespace Recorder

/-! ## Operations -/

/-- What a recorder is told, and what it is asked for. -/
inductive Operation where
  | observe (event : Event)
  /-- Hand over the records and begin anew. -/
  | take
  /-- Show the records. -/
  | records

namespace Operation

/-- The report that a recorder is told of. -/
def report? : Operation → Option Event
  | .observe event => if event.isReport then some event else none
  | .take => none
  | .records => none

/-- Whether an operation makes a difference to when a step with some number has begun: a step with the
number begins or ends, or the recorder begins anew. -/
def concerns (number : String) : Operation → Bool
  | .observe (.before other _ _) => other == number
  | .observe (.after other _ _ _ _) => other == number
  | .take => true
  | .records => false

def start? : Operation → Option Nat
  | .observe (.before _ _ time) => some time
  | _ => none

end Operation

def answer (r : Recorder) : Operation → List StepRecord
  | .observe _ => []
  | .take => r.take.1
  | .records => r.records

def perform (r : Recorder) : Operation → Recorder
  | .observe event => r.observe event
  | .take => r.take.2
  | .records => r

/-- A recorder after several operations. -/
def after (r : Recorder) (operations : List Operation) : Recorder :=
  operations.foldl perform r

/-- The records that a recorder hands over, those of all times that it is asked for them. -/
def handed (r : Recorder) : List Operation → List StepRecord
  | [] => []
  | .take :: rest => r.answer .take ++ handed (r.perform .take) rest
  | operation :: rest => handed (r.perform operation) rest

/-- When a step with some number has begun, if it has not ended since: by the last operation that makes a
difference to it. -/
def startOf? (number : String) (operations : List Operation) : Option Nat :=
  (operations.reverse.find? (Operation.concerns number)).bind Operation.start?

/-! ## Records -/

/-- What a record tells of a report: which step it is on, in which state it has ended, the error of a
failure, ignored or not, and the reason of a skip.  The duration is left open. -/
inductive Tells : Event → StepRecord → Prop
  | passed {number : String} {step : Step} {value : Value} {scopeNumber : Option String}
      {time duration : Nat} :
      Tells (.after number step (.passed value) scopeNumber time)
        ⟨number, step.displayName, step.type, .passed, none, none, duration⟩
  | skipped {number : String} {step : Step} {reason : SkipReason} {scopeNumber : Option String}
      {time duration : Nat} :
      Tells (.after number step (.skipped reason) scopeNumber time)
        ⟨number, step.displayName, step.type, .skipped, none, some reason.text, duration⟩
  | failed {number : String} {step : Step} {cause : Failure} {scopeNumber : Option String}
      {time duration : Nat} :
      Tells (.after number step (.failed cause false) scopeNumber time)
        ⟨number, step.displayName, step.type, .failed, some cause.chain, none, duration⟩
  | ignored {number : String} {step : Step} {cause : Failure} {scopeNumber : Option String}
      {time duration : Nat} :
      Tells (.after number step (.failed cause true) scopeNumber time)
        ⟨number, step.displayName, step.type, .ignored, some cause.chain, none, duration⟩

variable {event : Event} {record : StepRecord} {r : Recorder}

/-- A record that is made of a report tells of it. -/
theorem Tells.of_recorded (h : event.Recorded record) : Tells event record := by
  cases h with
  | @after number step status scopeNumber time duration =>
    cases status with
    | passed value => exact .passed
    | skipped reason => exact .skipped
    | failed cause ignored =>
      cases ignored with
      | false => exact .failed
      | true => exact .ignored

/-- A record has an error if its step has failed, ignored or not, and a reason if it was skipped. -/
structure IsClear (record : StepRecord) : Prop where
  error_iff : record.error.isSome = true ↔ record.state = .failed ∨ record.state = .ignored
  skipReason_iff : record.skipReason.isSome = true ↔ record.state = .skipped

/-- A record that tells of a report has an error or a reason exactly as its state asks for. -/
theorem Tells.isClear (h : Tells event record) : IsClear record := by
  cases h <;> constructor <;> simp

theorem isClear_of_forall₂ {events : List Event} {records : List StepRecord}
    (h : List.Forall₂ Tells events records) : ∀ record ∈ records, IsClear record := by
  induction h with
  | nil => exact fun _ hrecord => absurd hrecord List.not_mem_nil
  | cons htells _ ih => exact List.forall_mem_cons.2 ⟨htells.isClear, ih⟩

/-- What a report adds to the records. -/
theorem observe_after (r : Recorder) (number : String) (step : Step) (status : StepStatus)
    (scopeNumber : Option String) (time : Nat) :
    (r.observe (.after number step status scopeNumber time)).records =
      r.records ++ [StepRecord.ofStatus number step status
        (((r.started.find? number).map (time - ·)).getD 0)] := by
  cases hstart : r.started.find? number with
  | none => simp [observe, hstart]
  | some start => simp [observe, hstart]

/-- What is handed over and what is left are the records that there were, and one for each report. -/
theorem handed_append_records (operations : List Operation) (r : Recorder) :
    ∃ records, r.handed operations ++ (r.after operations).records = r.records ++ records ∧
      List.Forall₂ Event.Recorded (operations.filterMap Operation.report?) records := by
  induction operations generalizing r with
  | nil => exact ⟨[], (List.append_nil _).symm, .nil⟩
  | cons operation rest ih =>
    obtain ⟨records, hrecords, hall⟩ := ih (r.perform operation)
    cases operation with
    | observe event =>
      cases event with
      | before number raw time => exact ⟨records, hrecords, hall⟩
      | after number step status scopeNumber time =>
        have hobserve := observe_after r number step status scopeNumber time
        refine ⟨_ :: records, ?_, .cons (.after (((r.started.find? number).map (time - ·)).getD 0)) hall⟩
        rw [List.append_cons, ← hobserve]
        exact hrecords
    | take =>
      -- a recorder that begins anew has no records
      have hnone : (r.perform .take).records = [] := rfl
      rw [hnone, List.nil_append] at hrecords
      refine ⟨records, ?_, hall⟩
      change (r.records ++ (r.perform .take).handed rest) ++ ((r.perform .take).after rest).records = _
      rw [List.append_assoc, hrecords]
    | records => exact ⟨records, hrecords, hall⟩

/-! ## Durations -/

/-- The last operation works on what the others have led to. -/
theorem after_append_singleton (r : Recorder) (operations : List Operation) (operation : Operation) :
    r.after (operations ++ [operation]) = (r.after operations).perform operation :=
  List.foldl_append

/-- An operation on a step settles what is remembered of its beginning, and no other operation
does. -/
theorem startOf?_append_singleton (number : String) (operations : List Operation)
    (operation : Operation) : startOf? number (operations ++ [operation]) =
      if operation.concerns number then operation.start? else startOf? number operations := by
  unfold startOf?
  rw [List.reverse_append, List.reverse_singleton, List.singleton_append, List.find?_cons]
  cases operation.concerns number <;> rfl

/-- A recorder remembers one beginning of a step. -/
theorem nodup_started (operations : List Operation) :
    (Table.names (empty.after operations).started).Nodup := by
  induction operations using List.reverseRecOn with
  | nil => exact List.nodup_nil
  | append_singleton rest operation ih =>
    rw [after_append_singleton]
    cases operation with
    | observe event =>
      cases event with
      | before number raw time => exact Table.nodup_insert ih number time
      | after number step status scopeNumber time =>
        change (Table.names (Table.erase _ number)).Nodup
        rw [Table.names_erase]
        exact ih.erase number
    | take => exact List.nodup_nil
    | records => exact ih

/-- A recorder remembers when a step has begun until a step with its number ends. -/
theorem find?_started (operations : List Operation) (number : String) :
    (empty.after operations).started.find? number = startOf? number operations := by
  induction operations using List.reverseRecOn with
  | nil => rfl
  | append_singleton rest operation ih =>
    rw [after_append_singleton, startOf?_append_singleton]
    cases operation with
    | observe event =>
      cases event with
      | before other raw time =>
        change (Table.insert _ other time).find? number = if (other == number) = true then _ else _
        rw [Table.find?_insert, ih]
        simp [Operation.start?]
      | after other step status scopeNumber time =>
        change (Table.erase _ other).find? number = if (other == number) = true then _ else _
        by_cases hsame : other = number
        · subst hsame
          rw [Table.find?_erase_self (nodup_started rest)]
          simp [Operation.start?]
        · rw [Table.find?_erase hsame, ih]
          simp [hsame]
    | take => rfl
    | records => exact ih

/-! ## All reports -/

/-- However a recorder is used, the records that it has handed over and those that it has left are one
record for each report, in order, whichever beginnings it was told of.  Each of them tells of its report;
the last one was made with the time since its step has begun, or none if that is not known. -/
theorem reports_recorded (operations : List Operation) :
    List.Forall₂ Tells (operations.filterMap Operation.report?)
        (empty.handed operations ++ (empty.after operations).records) ∧
      (∀ record ∈ empty.handed operations ++ (empty.after operations).records, IsClear record) ∧
      ∀ number step status scopeNumber time, ∃ record : StepRecord,
        (empty.after (operations ++
            [.observe (.after number step status scopeNumber time)])).records =
          (empty.after operations).records ++ [record] ∧
        Tells (.after number step status scopeNumber time) record ∧
        record.duration = ((startOf? number operations).map (time - ·)).getD 0 := by
  obtain ⟨records, hrecords, hall⟩ := handed_append_records operations empty
  have hkept : empty.handed operations ++ (empty.after operations).records = records := hrecords
  have htells : List.Forall₂ Tells (operations.filterMap Operation.report?) records :=
    hall.imp fun _ _ => Tells.of_recorded
  rw [hkept]
  refine ⟨htells, isClear_of_forall₂ htells, ?_⟩
  intro number step status scopeNumber time
  refine ⟨_, ?_, Tells.of_recorded (.after _), rfl⟩
  rw [after_append_singleton, ← find?_started]
  exact observe_after _ number step status scopeNumber time

/-- Two steps with one number, the second of which ends when its beginning is forgotten already, and one
that never began. -/
def repeatedNumber : List Operation :=
  let step := Step.ofType "echo" .null
  [.observe (.before "1" .null 5), .records, .observe (.after "1" step (.passed .null) none 9),
    .observe (.before "1" .null 20), .take,
    .observe (.after "1" step (.failed (.action (.message "boom")) true) none 30), .records,
    .observe (.after "2" step (.skipped .disabled) none 31)]

/-- Each end is recorded once, and only the first one has a beginning to measure from. -/
theorem repeatedNumber_recorded :
    (empty.handed repeatedNumber).map StepRecord.duration = [4] ∧
      (empty.after repeatedNumber).records.map StepRecord.state = [.ignored, .skipped] ∧
      (empty.after repeatedNumber).records.map StepRecord.error = [some "boom", none] ∧
      List.Forall₂ Tells (repeatedNumber.filterMap Operation.report?)
        (empty.handed repeatedNumber ++ (empty.after repeatedNumber).records) ∧
      ∀ record ∈ empty.handed repeatedNumber ++ (empty.after repeatedNumber).records,
        IsClear record := by
  obtain ⟨htells, hclear, -⟩ := reports_recorded repeatedNumber
  exact ⟨rfl, rfl, rfl, htells, hclear⟩

end Recorder

end StepScript
