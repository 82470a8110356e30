import StepScript.Test.Runner
import StepScript.Yaml.Writer

/-!
# Reports — the result of a test as a file

A report has one of three formats: JSON, YAML or text.  Its name is made of the name of the test, in
which blanks and slashes become underscores, and the time in seconds.
-/

namespace StepScript

inductive ReportFormat where
  | json
  | yaml
  | text
  deriving DecidableEq

namespace ReportFormat

def ofName? (name : String) : Option ReportFormat :=
  match name with
  | "json" => some .json
  | "yaml" => some .yaml
  | "text" => some .text
  | _ => none

def extension : ReportFormat → String
  | .json => "json"
  | .yaml => "yaml"
  | .text => "txt"

end ReportFormat

def StepState.label : StepState → String
  | .passed => "PASS"
  | .failed => "FAIL"
  | .ignored => "IGNORED"
  | .skipped => "SKIP"

def TestResult.label (r : TestResult) : String :=
  if r.success then "PASS" else "FAIL"

namespace Report

def countJson (n : Nat) : Json :=
  match Number.ofInt? n with
  | some k => .number k
  | none => .null

def optionalField (name : String) (value : Option String) : List (String × Json) :=
  (value.map fun v => (name, Json.string v)).toList

def recordJson (r : StepRecord) : Json :=
  .object ([("step_number", .string r.number), ("name", .string r.name),
    ("step_type", .string r.type), ("state", .string r.state.text)] ++
    optionalField "error" r.error ++ optionalField "skip_reason" r.skipReason ++
    [("duration_ms", countJson r.duration)])

def resultJson (r : TestResult) : Json :=
  .object [("name", .string r.name), ("success", .bool r.success),
    ("errors", .array (r.errors.map .string)), ("steps", .array (r.steps.map recordJson)),
    ("duration_ms", countJson r.duration)]

def recordLines (r : StepRecord) : List String :=
  ["  " ++ r.number ++ ". " ++ r.name ++ " (" ++ r.state.label ++ ")"] ++
    (r.error.map fun e => "     Error: " ++ e).toList ++
    (r.skipReason.map fun s => "     Skipped: " ++ s).toList ++
    ["     Duration: " ++ toString r.duration ++ " ms"]

def lines (r : TestResult) : List String :=
  ["Test result: " ++ r.name, "Status: " ++ r.label] ++
    r.errors.map (fun e => "Error: " ++ e) ++
    ["Duration: " ++ toString r.duration ++ " ms", "", "Steps:"] ++
    r.steps.flatMap recordLines

def content (format : ReportFormat) (r : TestResult) : String :=
  match format with
  | .json => (resultJson r).pretty 0
  | .yaml => Yaml.write (resultJson r)
  | .text => String.join ((lines r).map fun line => line ++ "\n")

def sanitized (name : String) : String :=
  String.ofList (name.toList.map fun c => if c == ' ' || c == '/' then '_' else c)

def fileName (format : ReportFormat) (name : String) (time : Nat) : String :=
  sanitized name ++ "-" ++ toString time ++ "." ++ format.extension

end Report

end StepScript
