import Mathlib.Algebra.Order.Group.Multiset
import StepScript.Action.Catalogue
import StepScript.Proofs.Run.Keeping

/-!
# Reporting — the end of every step is reported, unless its work was dropped

A run announces each step before it reads it and reports its end later.  Read as a ledger, the log
opens an entry for an announced step and closes it with the report of its end.  A step owes its
report from the moment it is announced, and this is the accounting that every visit keeps: whatever
becomes of the step, its report closes the entry.

Only work that never goes on leaves entries open.  That is what happens to the markers that wait when
another marker of their string fails, and a marker waits nowhere but inside a step.

* `Matched` reads a log as a ledger;
* `ListRun.run_matched`: when a run is over, exactly the steps whose work was dropped are open, so all
  are closed if and only if nothing was dropped;
* `ListRun.abandoningSteps_unmatched`: a step that is open for ever.
-/

namespace StepScript

variable {registry : Registry} {setup : Setup} {e e' : Engine}

/-! ## The log as a ledger -/

/-- A log in which the steps with some numbers are announced and their ends not reported yet.  Each
report closes one announcement of its number; a step whose short form cannot be expanded is reported
without having been announced. -/
inductive Matched (registry : Registry) : List Event → Multiset String → Prop
  | nil : Matched registry [] 0
  | before {log : List Event} {opened : Multiset String} {number : String} {raw : Value}
      {time : Nat} :
      Matched registry log opened →
      Matched registry (.before number raw time :: log) (number ::ₘ opened)
  | after {log : List Event} {opened : Multiset String} {number : String} {step : Step}
      {status : StepStatus} {scopeNumber : Option String} {time : Nat} :
      Matched registry log (number ::ₘ opened) →
      Matched registry (.after number step status scopeNumber time :: log) opened
  | unread {log : List Event} {opened : Multiset String} {number : String} {raw : Value}
      {status : StepStatus} {scopeNumber : Option String} {time : Nat} {reason : StepError} :
      Shorthand.expand registry raw = .error reason → Matched registry log opened →
      Matched registry (.after number (Step.placeholder raw) status scopeNumber time :: log) opened

/-- The numbers of the announced steps, the last one first. -/
def announced : List Event → List String
  | [] => []
  | .before number _ _ :: log => number :: announced log
  | .after _ _ _ _ _ :: log => announced log

/-- The numbers of the steps whose end is reported, the last one first. -/
def reported : List Event → List String
  | [] => []
  | .before _ _ _ :: log => reported log
  | .after number _ _ _ _ :: log => number :: reported log

/-- Counted by their numbers, the reports and the open entries are the announced steps and those
that were never announced. -/
theorem Matched.count {log : List Event} {opened : Multiset String}
    (h : Matched registry log opened) :
    ∃ unread : Multiset String,
      (reported log : Multiset String) + opened = (announced log : Multiset String) + unread := by
  induction h with
  | nil => exact ⟨0, rfl⟩
  | @before log opened number raw time _ ih =>
    rcases ih with ⟨unread, ih⟩
    refine ⟨unread, ?_⟩
    simp only [reported, announced, Multiset.add_cons, ih, ← Multiset.cons_coe, Multiset.cons_add]
  | @after log opened number step status scopeNumber time _ ih =>
    rcases ih with ⟨unread, ih⟩
    refine ⟨unread, ?_⟩
    simpa only [reported, announced, Multiset.add_cons, ← Multiset.cons_coe,
      Multiset.cons_add] using ih
  | @unread log opened number raw status scopeNumber time reason hexpand _ ih =>
    rcases ih with ⟨unread, ih⟩
    refine ⟨number ::ₘ unread, ?_⟩
    simp only [reported, announced, Multiset.add_cons, ← Multiset.cons_coe, Multiset.cons_add, ih]

/-- When no entry is open, there are at least as many reports as announced steps. -/
theorem Matched.length_le {log : List Event} (h : Matched registry log 0) :
    (announced log).length ≤ (reported log).length := by
  rcases h.count with ⟨unread, hcount⟩
  have hcard := congrArg Multiset.card hcount
  simp only [add_zero, Multiset.card_add, Multiset.coe_card] at hcard
  omega

/-! ## The accounting of reports -/

theorem add_ne_zero_of_ne_zero {m : Multiset String} (m' : Multiset String) (h : m ≠ 0) :
    m + m' ≠ 0 := by
  intro hsum
  have hle : m ≤ m + m' := Multiset.le_add_right m m'
  rw [hsum] at hle
  exact h (Multiset.le_zero.1 hle)

/-- Work under way owes the reports of the steps that it has announced.  What was dropped stays open
for ever. -/
def Accounting.reports (registry : Registry) : Accounting (Multiset String) where
  holds log dropped m := ∃ lost, Matched registry log (m + lost) ∧ (lost = 0 ↔ dropped = 0)
  outstanding m := m ≠ 0
  cuts := False
  outstanding_add m' h := add_ne_zero_of_ne_zero m' h
  drop := by
    -- what was owed is lost, and something was owed
    rintro log dropped m m' hm ⟨lost, hmatched, hlost⟩
    refine ⟨m + lost, ?_, ?_⟩
    · rwa [add_left_comm, ← add_assoc]
    · constructor
      · intro hsum
        exact absurd hsum (add_ne_zero_of_ne_zero lost hm)
      · intro hzero
        exact absurd hzero (Nat.succ_ne_zero dropped)

namespace ListRun

/-- The verdict on a step that owes its report, or that was never announced. -/
def Owes (registry : Registry) (number : String) (raw : Value) (verdict : Verdict)
    (m : Multiset String) : Prop :=
  m = {number} ∨
    m = 0 ∧ ∃ reason, Shorthand.expand registry raw = .error reason ∧
      verdict.step = Step.placeholder raw

/-- A step that was announced owes its report while it is dealt with. -/
theorem handle_keeps_reports (h : Engine.Keep (Accounting.reports setup.registry) e e')
    (number : String) (failed : Bool) (raw : Value) {s : RunState} {frame : Multiset String}
    (hs : (Accounting.reports setup.registry).Fits s frame) :
    Progress.Keeps (Accounting.reports setup.registry)
      (Accounting.reports setup.registry).outstanding (Owes setup.registry number raw) frame
      (handle setup e number failed raw s) (handle setup e' number failed raw s) := by
  cases hexpand : Shorthand.expand setup.registry raw with
  | error reason =>
    -- the step is never announced
    rw [handle_of_prepare (prepare_of_expand_error hexpand),
      handle_of_prepare (prepare_of_expand_error hexpand)]
    unfold conclude
    dsimp only
    split
    · exact .finished (Or.inr ⟨rfl, reason, hexpand, rfl⟩) (by rwa [zero_add])
    · exact .finished (Or.inr ⟨rfl, reason, hexpand, rfl⟩) (by rwa [zero_add])
  | ok expanded =>
    rw [handle_of_prepare (prepare_of_expand_ok hexpand),
      handle_of_prepare (prepare_of_expand_ok hexpand)]
    have hannounced : (Accounting.reports setup.registry).Fits
        { s with log := .before number expanded s.clock :: s.log } ({number} + frame) := by
      rcases hs with ⟨lost, hmatched, hlost⟩
      refine ⟨lost, ?_, hlost⟩
      rw [add_assoc, Multiset.singleton_add]
      exact .before hmatched
    -- all that the step does leaves the open entry alone, as part of its frame
    have hconclude := conclude_keeps (W := fun _ => True) setup (fun _ _ => trivial) trivial h number
      failed raw (read setup number expanded) _ _ hannounced
    have howed : ∀ m, True → (Accounting.reports setup.registry).outstanding ({number} + m) :=
      fun m _ => add_ne_zero_of_ne_zero m (Multiset.singleton_ne_zero number)
    refine (hconclude.frame howed).mono (fun _ hm => hm) ?_
    rintro verdict m ⟨m', rfl, rfl⟩
    exact Or.inl (add_zero _)

/-- The report of a visit closes what was announced. -/
theorem report_fits {number : String} {raw : Value} {verdict : Verdict} {m frame : Multiset String}
    {s : RunState} (howes : Owes registry number raw verdict m)
    (hs : (Accounting.reports registry).Fits s (m + frame)) :
    (Accounting.reports registry).Fits
      { s with log := .after number verdict.step verdict.status s.scope.stepNumber s.clock :: s.log }
      frame := by
  rcases hs with ⟨lost, hmatched, hlost⟩
  refine ⟨lost, ?_, hlost⟩
  rcases howes with rfl | ⟨rfl, reason, hexpand, hstep⟩
  · rw [add_assoc, Multiset.singleton_add] at hmatched
    exact .after hmatched
  · rw [zero_add] at hmatched
    rw [hstep]
    exact .unread hexpand hmatched

/-- Every visit reports the step that it has announced. -/
theorem visits_report : VisitsKeep (Accounting.reports setup.registry) setup := by
  intro e e' h bindings number failed raw
  refine (Task.updateScope_keeps _).bind fun _ => ?_
  intro s frame hs
  refine (handle_keeps_reports h number failed raw hs).bind ?_
  intro verdict m s frame howes hs
  exact .finished rfl (by rw [zero_add]; exact report_fits howes hs)

/-! ## Runs -/

/-- When a run is over, every step that was announced is reported exactly once after that, except
those whose work was dropped. -/
theorem run_matched (setup : Setup) (depth : Nat) (steps : StepList) (numbering : Numbering)
    (scope : Scope) (result : Except RunFailure (List Value)) (s' : RunState)
    (h : Task.run (run setup (engine setup depth) steps numbering) (RunState.start scope) =
      .ok (result, s')) :
    ∃ lost, Matched setup.registry s'.log lost ∧ (lost = 0 ↔ s'.dropped = 0) := by
  have hstart : (Accounting.reports setup.registry).Fits (RunState.start scope) 0 :=
    ⟨0, .nil, by simp [RunState.start]⟩
  have hvisits : VisitsKeep (Accounting.reports setup.registry) setup := visits_report
  have hkeeps := run_keeps hvisits (engine_keeps hvisits depth) steps numbering
  rcases fits_of_complete (hkeeps _ _ hstart) h with ⟨lost, hmatched, hlost⟩
  exact ⟨lost, by rwa [zero_add] at hmatched, hlost⟩

/-- A step with two markers that wait inside nested steps. -/
def waitingSteps : StepList where
  steps := [.object [("echo", .string "$(slow)$(slow)")]]
  bindings := some [("slow", .object [("(key)", .object [("sleep", .string "1")])])]

/-- Both nested steps are reported, although each waits while the other one does. -/
theorem waitingSteps_matched :
    ∃ result s', Task.run (run (Setup.plain Registry.builtIn)
        (engine (Setup.plain Registry.builtIn) 4) waitingSteps topLevel)
        (RunState.start Scope.empty) = .ok (result, s') ∧
      ∃ lost, Matched Registry.builtIn s'.log lost ∧ lost = 0 := by
  have hrun : (match Task.run (run (Setup.plain Registry.builtIn)
        (engine (Setup.plain Registry.builtIn) 4) waitingSteps topLevel)
        (RunState.start Scope.empty) with
      | .ok (_, s') => s'.dropped == 0
      | .error _ => false) = true := by decide +kernel
  split at hrun
  · rename_i result s' h
    rcases run_matched _ _ _ _ _ _ _ h with ⟨lost, hmatched, hlost⟩
    exact ⟨result, s', h, lost, hmatched, hlost.2 (by simpa using hrun)⟩
  · cases hrun

/-- A step whose first marker waits inside a nested step when the second one fails. -/
def abandoningSteps : StepList where
  steps := [.object [("echo", .string "$(slow)$(bad)")]]
  bindings := some [("slow", .object [("(key)", .object [("sleep", .string "1")])])]

/-- The run is over, and the nested step was announced but is never reported. -/
theorem abandoningSteps_unmatched :
    ∃ result s', Task.run (run (Setup.plain Registry.builtIn)
        (engine (Setup.plain Registry.builtIn) 4) abandoningSteps topLevel)
        (RunState.start Scope.empty) = .ok (result, s') ∧
      ¬ Matched Registry.builtIn s'.log 0 := by
  have hrun : (match Task.run (run (Setup.plain Registry.builtIn)
        (engine (Setup.plain Registry.builtIn) 4) abandoningSteps topLevel)
        (RunState.start Scope.empty) with
      | .ok (_, s') => decide ((reported s'.log).length < (announced s'.log).length)
      | .error _ => false) = true := by decide +kernel
  split at hrun
  · rename_i result s' h
    have hlt := of_decide_eq_true hrun
    exact ⟨result, s', h, fun hmatched => absurd hmatched.length_le (Nat.not_le_of_lt hlt)⟩
  · cases hrun

end ListRun

end StepScript
