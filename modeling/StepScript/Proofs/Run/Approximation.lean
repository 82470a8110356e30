import Mathlib.Algebra.Order.PUnit
import StepScript.Proofs.Run.Keeping

/-!
# Approximation — a run that may be cut short

The engine of a run bounds how deeply work may be nested.  One run approximates another if it goes
as the other one does, unless it is cut short because the bound was too low.  So once a bound is high
enough for a run to come to an end, every higher one gives the same run.

* `ListRun.engine_approximates` compares the engines of two bounds;
* `Progress.Approximates.complete` is what that means for complete runs.
-/

namespace StepScript

/-- The accounting that asks for nothing. -/
def Accounting.approximation : Accounting Unit where
  holds _ _ _ := True
  outstanding _ := True
  cuts := True
  outstanding_add _ _ := trivial
  drop _ _ := trivial

variable {α : Type} {setup : Setup} {e e' : Engine}

/-! ## Runs -/

def Progress.Approximates (p p' : Progress α) : Prop :=
  ∀ frame, Progress.Settles Accounting.approximation (fun _ => True) frame p p'

/-- A run that is not cut short is complete with the same outcome as one that moves in step with
it. -/
theorem Progress.complete_eq_of_settles {frame : Unit} {p p' : Progress α}
    (h : Progress.Settles Accounting.approximation (fun _ => True) frame p p')
    (hp : p.complete ≠ .error .exhausted) : p'.complete = p.complete := by
  induction h with
  | finished hq hs => rfl
  | waiting hw hs hresume ih => exact ih _ 0 trivial hp
  | halted => rfl
  | cut hcut => exact absurd rfl hp

/-- An approximation that is not cut short has the outcome of what it approximates. -/
theorem Progress.Approximates.complete {p p' : Progress α} (h : p.Approximates p')
    (hp : p.complete ≠ .error .exhausted) : p'.complete = p.complete :=
  complete_eq_of_settles (h 0) hp

/-- Tasks that move in step approximate each other in every state. -/
theorem Task.Keeps.approximates {t t' : Task α}
    (h : Task.Keeps Accounting.approximation (fun _ => True) t t') (s : RunState) :
    (t s).Approximates (t' s) :=
  fun frame => h s frame trivial

/-! ## Engines -/

abbrev Engine.Approximates (e e' : Engine) : Prop :=
  Engine.Keep Accounting.approximation e e'

namespace ListRun

/-- Where nothing is asked of the log, every report is allowed. -/
theorem approximation_free : Free Accounting.approximation where
  report _ _ := trivial
  outstanding _ := trivial

/-- The visits of a list approximate each other as their engines do. -/
theorem visits_approximate : VisitsKeep Accounting.approximation setup :=
  approximation_free.visits

/-- An engine without any way back approximates every engine that evaluates markers and stores
variables as it does. -/
theorem none_approximates (htogether : e.together = Task.together) (hstore : e.store = Attempt.put) :
    Engine.none.Approximates e where
  expand _ _ _ _ _ := .cut trivial
  restart _ _ _ _ _ _ := .cut trivial
  runList _ _ _ _ _ := .cut trivial
  runMarked _ _ _ _ _ := .cut trivial
  together hts := by
    rw [htogether]
    exact Task.together_keeps hts
  store name v := by
    rw [hstore]
    exact Attempt.put_keeps name v

/-- An engine with a lower bound approximates one with a higher bound. -/
theorem engine_approximates {depth depth' : Nat} (hle : depth ≤ depth') :
    (engine setup depth).Approximates (engine setup depth') := by
  induction depth generalizing depth' with
  | zero =>
    cases depth' with
    | zero => exact none_approximates rfl rfl
    | succ depth' => exact none_approximates rfl rfl
  | succ depth ih =>
    cases depth' with
    | zero => exact absurd hle (Nat.not_succ_le_zero depth)
    | succ depth' =>
      exact level_keeps visits_approximate Attempt.put_keeps (ih (Nat.le_of_succ_le_succ hle))

/-- A run that comes to an end under an engine comes to the same end under every engine that it
approximates. -/
theorem run_of_approximates (h : e.Approximates e') {steps : StepList} {numbering : Numbering}
    {s s' : RunState} {result : Except RunFailure (List Value)}
    (hrun : Task.run (run setup e steps numbering) s = .ok (result, s')) :
    Task.run (run setup e' steps numbering) s = .ok (result, s') := by
  have hkeeps : Task.Keeps Accounting.approximation Accounting.approximation.outstanding
      (run setup e steps numbering) (run setup e' steps numbering) :=
    run_keeps visits_approximate h steps numbering
  refine ((hkeeps.approximates s).complete fun hcut => ?_).trans hrun
  exact nomatch hcut.symm.trans hrun

end ListRun

end StepScript
