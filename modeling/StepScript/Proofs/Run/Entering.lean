import StepScript.Proofs.Run.Inside
import StepScript.Proofs.Run.Outcome
import StepScript.Proofs.Scope.Layers

/-!
# Entering — the variables that a step of a list starts with

Before each step the base variables of its list are written over the scope, and then the number of the
step.  So a base variable has its value whenever a step starts, and any other variable the value that
the run has left it.

* `ListRun.get?_entered_of_free` is the value of a variable when a step starts;
* `Engine.get?_resumed`: behind a nested list, all variables but the step number are as it left them.
-/

namespace StepScript

open VariableName (normalize)

/-- A name is not one of the step number. -/
def IsFree (name : String) : Prop :=
  normalize name ≠ normalize Scope.stepNumberName

/-- No base variable of a list is one with some name. -/
def Spared (bindings : Option Variables) (name : String) : Prop :=
  ∀ key ∈ Table.names (bindings.getD []), normalize key ≠ normalize name

instance (name : String) : Decidable (IsFree name) :=
  inferInstanceAs (Decidable (_ ≠ _))

instance (bindings : Option Variables) (name : String) : Decidable (Spared bindings name) :=
  inferInstanceAs (Decidable (∀ key ∈ Table.names _, _))

variable {bindings : Option Variables} {name : String}

theorem Spared.last?_eq_none (h : Spared bindings name) :
    Variables.last? (Variables.spells name) (bindings.getD []) = none :=
  Variables.last?_eq_none_iff.2 fun key hkey => beq_eq_false_iff_ne.2 (h key hkey)

namespace ListRun

/-- A step starts with the last base variable of a name, or else with what the scope had. -/
theorem get?_entered_of_free (hfree : IsFree name) (bindings : Option Variables) (number : String)
    (s : RunState) :
    (entered bindings number s).scope.get? name =
      (Variables.last? (Variables.spells name) (bindings.getD []) <|> s.scope.get? name) := by
  change ((s.scope.extend (bindings.getD [])).put Scope.stepNumberName _).get? name = _
  rw [Scope.get?_put, if_neg (Ne.symm hfree), Scope.get?_extend]

/-- Entering a step leaves a variable that no base variable is spelled like. -/
theorem get?_entered_of_spared (hfree : IsFree name) (hspared : Spared bindings name)
    (number : String) (s : RunState) :
    (entered bindings number s).scope.get? name = s.scope.get? name := by
  rw [get?_entered_of_free hfree, hspared.last?_eq_none]
  rfl

end ListRun

/-- The number that is put back behind a nested list changes no other variable. -/
theorem Engine.get?_resumed (hfree : IsFree name) (before after : RunState) :
    (Engine.resumed before after).scope.get? name = after.scope.get? name := by
  unfold Engine.resumed
  cases before.scope.get? Scope.stepNumberName with
  | none => rfl
  | some v =>
    change (after.scope.put Scope.stepNumberName v).get? name = _
    rw [Scope.get?_put, if_neg (Ne.symm hfree)]

end StepScript
