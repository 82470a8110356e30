import StepScript.Expression.Evaluate
import StepScript.Scope.Name

/-!
# Scope — the variables of one run

A scope stores values under normalised names: whatever spelling a variable is written or read by,
its stored name is the one that expressions can use.

* `Scope.put`, `get?`, `remove` and `contains` normalise the name they are given;
* `Scope.extend` writes several variables in order;
* `Scope.evaluate` evaluates an expression over all of them.
-/

namespace StepScript

/-- The variables of a run, under normalised names. -/
structure Scope where
  bindings : Variables

/-- What is known about the machine and the program that run a test. -/
structure Agent where
  hostName : String
  os : String
  arch : String
  version : String
  address : String

namespace Scope

def empty : Scope := ⟨[]⟩

def stepNumberName : String := "STEP_NUMBER"

def put (s : Scope) (name : String) (value : Value) : Scope :=
  ⟨s.bindings.insert (VariableName.normalize name) value⟩

def get? (s : Scope) (name : String) : Option Value :=
  s.bindings.find? (VariableName.normalize name)

def remove (s : Scope) (name : String) : Scope :=
  ⟨s.bindings.erase (VariableName.normalize name)⟩

def contains (s : Scope) (name : String) : Bool :=
  (s.get? name).isSome

def size (s : Scope) : Nat :=
  s.bindings.length

def extend (s : Scope) (bindings : Variables) : Scope :=
  bindings.foldl (fun s e => s.put e.1 e.2) s

def ofVariables (bindings : Variables) : Scope :=
  empty.extend bindings

def evaluate (s : Scope) (code : String) : Except ExpressionError Value :=
  Expression.evaluate code s.bindings

/-- Look up a variable by its name, or else by a path, which is evaluated as an expression. -/
def lookup (s : Scope) (path : String) : Except ExpressionError Value :=
  match s.get? path with
  | some v => .ok v.resolved
  | none => s.evaluate path

def stepNumber (s : Scope) : Option String :=
  (s.get? stepNumberName).map Value.text

def seedEnvironment (s : Scope) (environment : List (String × String)) : Scope :=
  environment.foldl (fun s e => s.put e.1 (.string e.2)) s

/-- Add what is known about the agent.  Its address is found only when it is asked for. -/
def seedAgent (s : Scope) (agent : Agent) : Scope :=
  s.extend [("AGENT_HOSTNAME", .string agent.hostName), ("AGENT_OS", .string agent.os),
    ("AGENT_ARCH", .string agent.arch), ("AGENT_VERSION", .string agent.version),
    ("AGENT_IP", .lazy (.string agent.address))]

/-! ## What a lookup sees -/

/-- A variable has the value that was stored under any of its spellings. -/
theorem get?_put (s : Scope) (name other : String) (value : Value) :
    (s.put name value).get? other =
      if VariableName.normalize name = VariableName.normalize other then some value
      else s.get? other := by
  simp [get?, put, Table.find?_insert]

@[simp] theorem get?_put_self (s : Scope) (name : String) (value : Value) :
    (s.put name value).get? name = some value := by
  simp [get?_put]

end Scope

end StepScript
