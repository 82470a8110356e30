import StepScript.Proofs.Property.Untouched

/-!
# Field — one field of an object

The fields of an object are evaluated one after the other.  What becomes of one of them depends on its
flags and on the marks of its key: the work that the marks ask for is done first, and what it yields is
treated by what is left of the key.

* `PropertyEvaluation.fieldValue` is the value of one field, in these two stages;
* `PropertyEvaluation.evaluateFields_cons_eq`: fields are evaluated by evaluating each of them.
-/

namespace StepScript

namespace PropertyEvaluation

/-- Treat what the marks of a key have yielded.  Without marks it is the value that was written. -/
def finish (engine : Engine) (recursive : Bool) (trail : Trail) (plan : KeyPlan) (v : Value) :
    Attempt Value :=
  match plan.treatment with
  | .raw => return v
  | .steps => stepsValue engine trail v
  | .evaluated =>
    if plan.work = [] then evaluate engine recursive trail v else engine.restart recursive trail v

def fieldValue (engine : Engine) (flags : String → PropertyFlags) (recursive : Bool) (trail : Trail)
    (key : String) (v : Value) : Attempt Value :=
  if (flags key).skip then return v
  else if (flags key).nonRecursive then evaluate engine false trail v
  else workAll engine (KeyPlan.ofKey key).work v >>= finish engine recursive trail (KeyPlan.ofKey key)

/-- The first field is evaluated and written, and then come the others. -/
theorem evaluateFields_cons_eq (engine : Engine) (flags : String → PropertyFlags) (recursive : Bool)
    (trail : Trail) (key : String) (v : Value) (rest : List (String × Value)) (done : Variables) :
    evaluateFields engine flags recursive trail ((key, v) :: rest) done =
      fieldValue engine flags recursive trail key v >>= fun w =>
        evaluateFields engine flags recursive trail rest (done.insert (writtenName flags key) w) := by
  simp only [evaluateFields, fieldValue, writtenName]
  cases (flags key).skip with
  | true => simp
  | false =>
    cases (flags key).nonRecursive with
    | true => simp
    | false =>
      simp only [Bool.false_eq_true, if_false, Bool.or_self]
      obtain ⟨work, treatment, name⟩ := KeyPlan.ofKey key
      cases treatment with
      | raw => simp [finish]
      | steps => simp [finish]
      | evaluated =>
        cases work with
        | nil => simp [finish, workAll]
        | cons first more => simp [finish]

end PropertyEvaluation

end StepScript
