/-!
# Log filter — which messages are shown

A filter is a list of directives between commas.  A directive gives a level to all messages, or to
those whose target begins with a name; a name alone shows all of its messages.  The directive with the
longest name that fits a message decides.  Without any directive errors alone are shown.
-/

namespace StepScript

/-- How much is shown: messages of one level and of all more important ones. -/
inductive Verbosity where
  | off
  | error
  | warn
  | info
  | debug
  | trace
  deriving DecidableEq

namespace Verbosity

def rank : Verbosity → Nat
  | .off => 0
  | .error => 1
  | .warn => 2
  | .info => 3
  | .debug => 4
  | .trace => 5

def ofText? (s : String) : Option Verbosity :=
  match String.ofList (s.toList.map Char.toLower) with
  | "off" => some .off
  | "error" => some .error
  | "warn" => some .warn
  | "info" => some .info
  | "debug" => some .debug
  | "trace" => some .trace
  | "0" => some .off
  | "1" => some .error
  | "2" => some .warn
  | "3" => some .info
  | "4" => some .debug
  | "5" => some .trace
  | _ => none

end Verbosity

structure LogDirective where
  /-- The beginning of the targets, or nothing for all of them. -/
  target : Option String
  level : Verbosity

namespace LogFilter

def variableName : String := "RUST_LOG"

def isTargetChar (c : Char) : Bool :=
  c.isAlphanum || c == '_' || c == ':' || c == '-' || c.toNat ≥ 128

def directive? (s : String) : Option LogDirective :=
  match Verbosity.ofText? s with
  | some level => some ⟨none, level⟩
  | none =>
    let cs := s.toList
    let target := cs.takeWhile isTargetChar
    if target.isEmpty then none
    else
      match cs.drop target.length with
      | [] => some ⟨some s, .trace⟩
      | ['='] => some ⟨some (String.ofList target), .trace⟩
      | '=' :: level =>
        (Verbosity.ofText? (String.ofList level)).map fun l => ⟨some (String.ofList target), l⟩
      | _ => none

def parts (filter : String) : List String :=
  (filter.splitOn ",").filter fun p => !p.isEmpty

/-- The directives of a filter; parts that are none are passed over. -/
def directives (filter : String) : List LogDirective :=
  (parts filter).filterMap directive?

def ignored (filter : String) : List String :=
  (parts filter).filter fun p => (directive? p).isNone

def fit? (target : String) (d : LogDirective) : Option Nat :=
  match d.target with
  | none => some 0
  | some t => if target.startsWith t then some (t.length + 1) else none

/-- The level that a filter gives to a target.  Of directives that fit equally well, the last one
decides. -/
def level (filter target : String) : Verbosity :=
  let all := directives filter
  let best := all.foldl (fun (found : Option (Nat × Verbosity)) d =>
    match fit? target d, found with
    | none, _ => found
    | some n, none => some (n, d.level)
    | some n, some (m, _) => if m ≤ n then some (n, d.level) else found) none
  match best with
  | some (_, l) => l
  -- a filter without directives shows errors, one whose directives do not fit shows nothing
  | none => if all.isEmpty then .error else .off

def isShown (filter target : String) (l : Verbosity) : Bool :=
  l.rank ≤ (level filter target).rank

end LogFilter

end StepScript
