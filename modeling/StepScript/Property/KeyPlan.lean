/-!
# Key plan — what the marks of a property key ask for

The key of a property may carry marks around its name:

* `(key)` and `^key` run the value as steps and keep the last result, `<key>` and `<key` keep all;
* `$key` evaluates the value as an expression;
* `~key` leaves the value alone.

Marks are taken off from the outside and their work is done in that order; nothing else is looked at
after a `~`.  A mark around nothing is part of the name, except that `<>` is a mark around the empty
name.  `KeyPlan.ofKey` depends on the key alone.
-/

namespace StepScript

/-- Which results of a list of steps are kept. -/
inductive Collect where
  | last
  | all
  deriving DecidableEq

/-- Work that a mark asks for before the value is treated by its name. -/
inductive KeyWork where
  /-- Run the value as steps, numbered after the key that is left. -/
  | runSteps (key : String) (collect : Collect)
  /-- Evaluate a string as an expression. -/
  | script
  deriving DecidableEq

/-- How the value is treated in the end. -/
inductive KeyEnd where
  /-- As it is. -/
  | raw
  /-- As nested steps: only a string is evaluated, and only once. -/
  | steps
  /-- As any other value. -/
  | evaluated
  deriving DecidableEq

/-- What the marks of a key ask for. -/
structure KeyPlan where
  work : List KeyWork
  treatment : KeyEnd
  name : String
  deriving DecidableEq

namespace KeyPlan

def withoutAngle (cs : List Char) : List Char :=
  if cs.getLast? = some '>' then cs.dropLast else cs

def runMark? : List Char → Option (List Char × Collect)
  | '(' :: rest =>
    if rest.getLast? = some ')' && rest.length > 1 then some (rest.dropLast, .last) else none
  | '^' :: rest => if rest.isEmpty then none else some (rest, .last)
  | '<' :: rest => if rest.isEmpty then none else some (withoutAngle rest, .all)
  | _ => none

def behind? (mark : Char) : List Char → Option (List Char)
  | c :: rest => if c = mark && !rest.isEmpty then some rest else none
  | [] => none

/-- Take the marks off a key.  Each of them is a character, so the length of the key bounds
`fuel`. -/
def ofChars : Nat → List Char → KeyPlan
  | 0, cs => ⟨[], .evaluated, String.ofList cs⟩
  | fuel + 1, cs =>
    match runMark? cs with
    | some (inner, collect) =>
      let plan := ofChars fuel inner
      { plan with work := .runSteps (String.ofList inner) collect :: plan.work }
    | none =>
      match behind? '$' cs with
      | some inner =>
        let plan := ofChars fuel inner
        { plan with work := .script :: plan.work }
      | none =>
        match behind? '~' cs with
        | some inner => ⟨[], .raw, String.ofList inner⟩
        | none =>
          ⟨[], if cs = "steps".toList then .steps else .evaluated, String.ofList cs⟩

def ofKey (key : String) : KeyPlan :=
  let cs := key.toList
  ofChars (cs.length + 1) cs

end KeyPlan

end StepScript
