import StepScript.Action.Catalogue
import StepScript.Proofs.Action.Building
import StepScript.Proofs.Number.Rounding
import StepScript.Proofs.Run.Ending

/-!
# Check — when a step that compares two integers passes

A check compares numbers as double-precision numbers.  Two integers of up to fifty-three bits are told
apart in this way; longer ones pass as equal if they are rounded to the same number.

* `ListRun.invoke_leads`: once its properties have been evaluated, a step goes on with its action;
* `ListRun.Checks` describes a check whose properties have been evaluated, in any run;
* `ListRun.check_passes_iff`: it passes if and only if the two integers are rounded to the same one.
-/

namespace StepScript

namespace Performance

/-- Integers are compared as the numbers that they are rounded to. -/
theorem same_integers_iff {value expected : Value} {m n : Int} {hm : -twoPow 63 ≤ m}
    {hm' : m < twoPow 64} {hn : -twoPow 63 ≤ n} {hn' : n < twoPow 64}
    (hvalue : value.toJson = .number (.integer m hm hm'))
    (hexpected : expected.toJson = .number (.integer n hn hn')) :
    same value expected = true ↔ RoundAlike m n := by
  have hlong {k : Int} (hlower : -twoPow 63 ≤ k) (hupper : k < twoPow 64) : |k| < 2 ^ 1023 := by
    rw [twoPow_eq_pow] at hlower hupper
    rw [abs_lt]
    omega
  unfold same
  rw [hvalue, hexpected]
  exact Binary64.eqv_ofInt_iff (hlong hm hm') (hlong hn hn')

end Performance

namespace Catalogue

/-- Both names of the action stand for the same descriptor. -/
theorem builtIn_check {type : String} (h : type = "assert" ∨ type = "check") :
    Registry.builtIn.find? type = some (descriptor check (Schema.empty.binding "value")) := by
  rcases h with rfl | rfl <;> rfl

/-- What a check is built from. -/
theorem check_build {p : Properties} {schema : Schema} {value expected : Value}
    {message : Option String} (hvalue : p.get? "value" = some value)
    (hexpected : p.get? "equals" = some expected)
    (hmessage : p.optionalString "message" = .ok message) :
    (descriptor check schema).build p = .ok (.check value (some expected) message) := by
  -- what has been taken before is another property each time
  have hfirst : takeBy Properties.required "value" p = .ok (value, p.erase "value") := by
    apply takeBy_of_ok
    rw [Properties.required, hvalue]
  have hsecond : take "equals" (p.erase "value") =
      .ok (some expected, (p.erase "value").erase "equals") := by
    rw [take, Properties.take, Properties.get?_erase _ (by decide), hexpected]
  have hthird : takeBy Properties.optionalString "message" ((p.erase "value").erase "equals") =
      .ok (message, ((p.erase "value").erase "equals").erase "message") := by
    apply takeBy_of_ok
    rw [← hmessage, Properties.optionalString, Properties.optionalString,
      Properties.get?_erase _ (by decide), Properties.get?_erase _ (by decide)]
  have hcheck : check p = .ok (.check value (some expected) message,
      ((p.erase "value").erase "equals").erase "message") := by
    unfold check
    rw [Builder.bind_of_ok hfirst, Builder.bind_of_ok hsecond, Builder.bind_of_ok hthird]
    rfl
  unfold descriptor
  dsimp only
  rw [hcheck]
  rfl

end Catalogue

namespace ListRun

variable {setup : Setup} {engine : Engine} {number : String} {failed : Bool} {step : Step}
  {path : List RunState} {s t : RunState}

/-- Once its condition holds and its properties have been evaluated, a step goes on with its action. -/
theorem invoke_leads (engine : Engine) (number : String) (descriptor : Descriptor)
    {fields : Variables} {action : Action}
    (hcondition : (conditionHolds step).run s = .finished (.ok true) s)
    (hproperties : ((PropertyEvaluation.properties engine descriptor.schema true step.values).run
      s).Leads path (.finished (.ok (.object fields)) t))
    (hbuild : descriptor.build ⟨fields⟩ = .ok action) :
    ((invoke engine number step descriptor).run s).Leads path
      (((Performance.perform engine number action).run t).map (Except.map some)) := by
  have hevaluated := Attempt.leads_during .properties hproperties
  have hrest : (do
      let action ← Attempt.ofExcept (descriptor.build ⟨fields⟩)
      return some (← Performance.perform engine number action) : Attempt (Option Value)).run t =
        ((Performance.perform engine number action).run t).map (Except.map some) := by
    rw [hbuild, Attempt.run_bind]
    change ((Performance.perform engine number action >>= fun v => Pure.pure (some v)).run t) = _
    rw [Attempt.run_bind]
    unfold Progress.map
    congr 1
    funext result t
    cases result <;> rfl
  unfold invoke
  rw [Attempt.run_bind, hcondition]
  dsimp only [Progress.bind_finished]
  rw [if_pos rfl, ← hrest]
  exact Attempt.leads_bind hevaluated

/-- A check of two values that is due, and whose properties have been evaluated along a path of
states. -/
structure Checks (engine : Engine) (failed : Bool) (step : Step) (path : List RunState) (s : RunState)
    (value expected : Value) (message : Option String) (t : RunState) : Prop where
  type : step.type = "assert" ∨ step.type = "check"
  enabled : step.disabled = false
  due : failed = true → step.runOnFailure = true
  condition : (conditionHolds step).run s = .finished (.ok true) s
  properties : ∃ fields : Variables,
    ((PropertyEvaluation.properties engine (Schema.empty.binding "value") true step.values).run
      s).Leads path (.finished (.ok (.object fields)) t) ∧
    fields.find? "value" = some value ∧ fields.find? "equals" = some expected ∧
    Properties.optionalString ⟨fields⟩ "message" = .ok message

/-- What becomes of a check. -/
def checked (step : Step) (value expected : Value) (message : Option String) : StepStatus :=
  if Performance.same value expected then .passed value
  else .failed (.action (Performance.complaint value (some expected) message)) step.ignoreError

/-- A check comes to its end at once when its properties have been evaluated. -/
theorem Checks.leads {value expected : Value} {message : Option String}
    {review : String → Value → Except Failure Value}
    (h : Checks engine failed step path s value expected message t) :
    (execute ⟨Registry.builtIn, review⟩ engine number failed step s).Leads path
      (.finished (.ok (checked step value expected message)) t) := by
  obtain ⟨fields, hproperties, hvalue, hexpected, hmessage⟩ := h.properties
  have hinvoke := invoke_leads engine number
    (Catalogue.descriptor Catalogue.check (Schema.empty.binding "value")) h.condition hproperties
    (Catalogue.check_build hvalue hexpected hmessage)
  have hperform : ((Performance.perform engine number (.check value (some expected) message)).run
      t).map (fun result => .ok (statusOf step (result.map some))) =
        .finished (.ok (checked step value expected message) : Except RunFailure StepStatus) t := by
    unfold Performance.perform Performance.holds checked
    dsimp only
    by_cases hsame : Performance.same value expected = true
    · rw [if_pos hsame, if_pos hsame]
      rfl
    · rw [if_neg hsame, if_neg hsame]
      rfl
  have hskip : ¬ (failed && !step.runOnFailure) = true := by
    cases failed with
    | false => exact Bool.false_ne_true
    | true => simp [h.due rfl]
  -- the step is neither disabled nor skipped, so it is invoked
  unfold execute
  rw [if_neg (by simp [h.enabled]), if_neg hskip]
  dsimp only
  rw [Catalogue.builtIn_check h.type]
  dsimp only
  rw [← hperform]
  have hstatus := hinvoke.bind fun outcome s =>
    .finished (.ok (statusOf step outcome) : Except RunFailure StepStatus) s
  unfold Progress.map at hstatus
  rw [Progress.bind_assoc] at hstatus
  exact hstatus

/-- A check of two integers passes if and only if they are rounded to the same number, and fails with
its complaint otherwise; integers of up to fifty-three bits pass if and only if they are the same. -/
theorem check_passes_iff (review : String → Value → Except Failure Value) (engine : Engine)
    (number : String) (failed : Bool) (step : Step) (path : List RunState) (s t : RunState)
    {value expected : Value} {message : Option String} {m n : Int}
    {hm : -twoPow 63 ≤ m} {hm' : m < twoPow 64} {hn : -twoPow 63 ≤ n} {hn' : n < twoPow 64}
    (h : Checks engine failed step path s value expected message t)
    (hvalue : value.toJson = .number (.integer m hm hm'))
    (hexpected : expected.toJson = .number (.integer n hn hn')) :
    let work := execute ⟨Registry.builtIn, review⟩ engine number failed step s
    (work.Leads path (.finished (.ok (.passed value)) t) ↔ RoundAlike m n) ∧
      (work.Leads path (.finished (.ok (.failed
        (.action (Performance.complaint value (some expected) message)) step.ignoreError)) t) ↔
          ¬ RoundAlike m n) ∧
      (|m| ≤ 2 ^ 53 → |n| ≤ 2 ^ 53 →
        (work.Leads path (.finished (.ok (.passed value)) t) ↔ m = n)) := by
  intro work
  have hsame := Performance.same_integers_iff hvalue hexpected
  have hends (status : StepStatus) : work.Leads path (.finished (.ok status) t) ↔
      checked step value expected message = status := by
    constructor
    · intro hstatus
      exact Except.ok.inj (h.leads.unique hstatus).1
    · rintro rfl
      exact h.leads
  have hpasses : work.Leads path (.finished (.ok (.passed value)) t) ↔ RoundAlike m n := by
    rw [hends, ← hsame, checked]
    by_cases hequal : Performance.same value expected = true
    · simp [hequal]
    · simp [hequal]
  refine ⟨hpasses, ?_, ?_⟩
  · rw [hends, ← hsame, checked]
    by_cases hequal : Performance.same value expected = true
    · simp [hequal]
    · simp [hequal]
  · intro hshort hshort'
    rw [hpasses, roundAlike_iff_eq hshort hshort']

def integerCheck (m n : Number) : Step where
  type := "check"
  name := none
  values := .object [("value", .number m), ("equals", .number n)]
  disabled := false
  runOnFailure := false
  ignoreError := false
  condition := none

/-- A check of two numbers evaluates to these numbers in the state that it begins in. -/
theorem integerCheck_checks (engine : Engine) (m n : Number) (s : RunState) :
    Checks engine false (integerCheck m n) [] s (.number m) (.number n) none s where
  type := .inr rfl
  enabled := rfl
  due h := absurd h Bool.false_ne_true
  condition := rfl
  properties := ⟨[("value", .number m), ("equals", .number n)], .here _, rfl, rfl, rfl⟩

/-- The least natural number that has no double-precision number of its own. -/
def unrounded : Number := .integer 9007199254740993 (by decide) (by decide)

/-- The number that it is rounded to. -/
def rounded : Number := .integer 9007199254740992 (by decide) (by decide)

/-- Two integers that no float tells apart pass the check although they differ. -/
theorem unrounded_check :
    RoundAlike 9007199254740993 9007199254740992 ∧
      Checks Engine.none false (integerCheck unrounded rounded) [] (RunState.start Scope.empty)
        (.number unrounded) (.number rounded) none (RunState.start Scope.empty) ∧
      (execute (Setup.plain Registry.builtIn) Engine.none "1" false (integerCheck unrounded rounded)
        (RunState.start Scope.empty)).Leads []
          (.finished (.ok (.passed (.number unrounded))) (RunState.start Scope.empty)) := by
  have halike : RoundAlike 9007199254740993 9007199254740992 := by
    refine ⟨9007199254740992, ?_, roundsTo_self_of_le (by decide)⟩
    exact ⟨by decide +kernel, by decide +kernel, by decide +kernel⟩
  have hchecks := integerCheck_checks Engine.none unrounded rounded (RunState.start Scope.empty)
  exact ⟨halike, hchecks, (check_passes_iff _ _ "1" _ _ _ _ _ hchecks rfl rfl).1.2 halike⟩

/-- A test with that check passes, although the integers differ. -/
theorem unrounded_accepted :
    (9007199254740993 : Int) ≠ 9007199254740992 ∧
      (match Task.run (run (Setup.plain Registry.builtIn)
          (ListRun.engine (Setup.plain Registry.builtIn) 1)
          ⟨[.object [("type", .string "check"),
            ("values", .object [("value", .number unrounded), ("equals", .number rounded)])]], none⟩
          topLevel) (RunState.start Scope.empty) with
        | .ok (.ok [.number (.integer k _ _)], _) => k == 9007199254740993
        | _ => false) = true := by
  constructor
  · decide
  · decide +kernel

end ListRun

end StepScript
