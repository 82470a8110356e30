import StepScript.Property.Schema
import StepScript.Run.Failure
import StepScript.Scope.Basic
import StepScript.Step.List

/-!
# Action — what a step does

An action is built from the evaluated properties of its step and then run once.  A registry maps the
types of steps to descriptors; several types may share one.

* `Action` has the actions of the library, and those from outside that only have a result;
* `Outside` is what any other action from outside can do, and `AnyAction` has all actions;
* a `Registry` is about one type of actions, the actions of the library where nothing else is said.
-/

namespace StepScript

inductive LogLevel where
  | error | warn | info | debug | trace
  deriving DecidableEq

inductive LoopKind where
  | item
  | property
  | element
  deriving DecidableEq

namespace LoopKind

def source : LoopKind → String
  | .item => "items"
  | .property => "object"
  | .element => "elements"

/-- The two variables that every round sets. -/
def names : LoopKind → String × String
  | .item => ("ITEM", "INDEX")
  | .property => ("NAME", "VALUE")
  | .element => ("ELEMENT", "ELEMENT_INDEX")

end LoopKind

/-- What a step does. -/
inductive Action where
  | setVariable (name : String) (value : Value)
  | getVariable (path : String)
  | echo (value : Value)
  /-- Pass if the value is truthy, or equal to another value if there is one. -/
  | check (value : Value) (expected : Option Value) (message : Option String)
  | fail (message : Value)
  | log (level : LogLevel) (message : Value)
  | sleep (milliseconds : Nat)
  | branch (condition : Value) (yes no : StepList)
  /-- Run steps once for each entry; an entry gives the two variables their values. -/
  | loop (kind : LoopKind) (entries : List (Value × Value)) (steps : StepList)
  | runSteps (steps : StepList)
  /-- Hand the result of each step on to the next one in a variable. -/
  | pipe (steps : StepList) (name : String) (input : Value)
  /-- Run steps until one of them yields the deciding truth value. -/
  | junction (deciding : Bool) (steps : StepList)
  /-- An action from outside, which has its result from its properties alone. -/
  | leaf (result : Except Failure Value)

/-! ## Actions from outside -/

/-- What an action from outside does when it is run.  It works on the scope of the run, or on one of its
own, and it may have values evaluated and steps run, with numbers of its own choice. -/
inductive Outside where
  | done (result : Except Failure Value)
  | crash
  | look (next : Scope → Outside)
  | change (change : Scope → Scope) (next : Outside)
  | sleep (milliseconds : Nat) (next : Outside)
  | evaluate (schema : Schema) (recursive : Bool) (v : Value)
      (next : Except Failure Value → Outside)
  | runSteps (steps : StepList) (numbering : Numbering)
      (next : Except RunFailure (List Value) → Outside)
  /-- Do something on another scope than that of the run. -/
  | apart (own : Scope) (work : Outside) (next : Except Failure Value → Scope → Outside)
  /-- Do two things side by side, of which the first failure ends both. -/
  | beside (left right : Outside) (next : Except Failure (List Value) → Outside)

namespace Outside

/-- Run steps inside the step under way, whose number is put back when they have ended. -/
def runNested (steps : StepList) (numbering : Numbering)
    (next : Except RunFailure (List Value) → Outside) : Outside :=
  .look fun scope => .runSteps steps numbering fun outcome =>
    match scope.get? Scope.stepNumberName with
    | some number => .change (fun s => s.put Scope.stepNumberName number) (next outcome)
    | none => next outcome

end Outside

/-- An action of any kind. -/
inductive AnyAction where
  | known (action : Action)
  /-- An action from outside, which sees its step and the number of it. -/
  | outside (work : Step → String → Outside)

/-- A type of actions. -/
class ActionType (A : Type) where
  /-- Each of them among all actions. -/
  any : A → AnyAction

instance : ActionType Action := ⟨.known⟩

instance : ActionType AnyAction := ⟨id⟩

/-! ## Registries -/

/-- How to build an action, and how its properties are evaluated. -/
structure Descriptor (A : Type := Action) where
  schema : Schema
  build : Properties → Except Failure A

def Descriptor.known (d : Descriptor) : Descriptor AnyAction :=
  ⟨d.schema, fun p => (d.build p).map .known⟩

/-- The descriptors of the types of steps. -/
structure Registry (A : Type := Action) where
  descriptors : List (Descriptor A)
  /-- The place of the descriptor of each type. -/
  types : Table Nat

namespace Registry

variable {A : Type}

def empty : Registry A := ⟨[], []⟩

/-- Give several types one descriptor, in place of what they had before. -/
def register (r : Registry A) (types : List String) (d : Descriptor A) : Registry A :=
  ⟨r.descriptors ++ [d], types.foldl (fun t type => t.insert type r.descriptors.length) r.types⟩

def find? (r : Registry A) (type : String) : Option (Descriptor A) :=
  match r.types.find? type with
  | some place => r.descriptors[place]?
  | none => none

def contains (r : Registry A) (type : String) : Bool :=
  (r.find? type).isSome

def share (r : Registry A) (type other : String) : Bool :=
  (r.types.find? type).isSome && r.types.find? type == r.types.find? other

def all (r : Registry A) : List String :=
  r.types.names

/-- A registry of actions of the library, to which ones from outside can be added. -/
def known (r : Registry) : Registry AnyAction :=
  ⟨r.descriptors.map Descriptor.known, r.types⟩

end Registry

end StepScript
