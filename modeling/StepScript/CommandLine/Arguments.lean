import StepScript.Test.Report
import StepScript.Value.Basic
import StepScript.Yaml.Decode

/-!
# Arguments — what a command line asks for

Options are written as `--path VALUE`, `--path=VALUE`, `-p VALUE`, `-pVALUE` or `-p=VALUE`; flags
without a value may share one dash.  An option is *pending* until the next option begins: its value is
the next argument that does not look like an option, and is looked at only then, so that an argument
which nobody expects is noticed before a wrong value.  Only variables may be given more than once.
-/

namespace StepScript

inductive CliOption where
  | path
  | filter
  | tag
  | verbose
  | assign
  | noEnvironment
  | reportDirectory
  | reportFormat
  | help
  | version
  deriving DecidableEq

namespace CliOption

def ofLong? (name : String) : Option CliOption :=
  match name with
  | "path" => some .path
  | "filter" => some .filter
  | "tag" => some .tag
  | "verbose" => some .verbose
  | "var" => some .assign
  | "no-env" => some .noEnvironment
  | "report-dir" => some .reportDirectory
  | "report-format" => some .reportFormat
  | "help" => some .help
  | "version" => some .version
  | _ => none

def ofLetter? (c : Char) : Option CliOption :=
  match c with
  | 'p' => some .path
  | 'f' => some .filter
  | 't' => some .tag
  | 'v' => some .verbose
  | 'r' => some .reportDirectory
  | 'h' => some .help
  | 'V' => some .version
  | _ => none

def takesValue : CliOption → Bool
  | .verbose => false
  | .noEnvironment => false
  | .help => false
  | .version => false
  | _ => true

def isRepeatable : CliOption → Bool
  | .assign => true
  | _ => false

def usage : CliOption → String
  | .path => "--path <TEST_PATH>"
  | .filter => "--filter <TEST_FILTER>"
  | .tag => "--tag <TAG>"
  | .verbose => "--verbose"
  | .assign => "--var <KEY=VALUE>"
  | .noEnvironment => "--no-env"
  | .reportDirectory => "--report-dir <REPORT_DIR>"
  | .reportFormat => "--report-format <REPORT_FORMAT>"
  | .help => "--help"
  | .version => "--version"

end CliOption

inductive AssignmentError where
  | noValue
  | noName
  deriving DecidableEq

inductive UsageError where
  | unexpectedArgument (argument : String)
  | missingValue (option : CliOption)
  | unexpectedValue (option : CliOption) (value : String)
  | invalidValue (option : CliOption) (value : String)
  | invalidAssignment (raw : String) (cause : AssignmentError)
  | repeated (option : CliOption)
  deriving DecidableEq

def AssignmentError.message (raw : String) : AssignmentError → String
  | .noValue => "expected KEY=VALUE, got '" ++ raw ++ "'"
  | .noName => "variable name is empty in '" ++ raw ++ "'"

def UsageError.message : UsageError → String
  | .unexpectedArgument a => "error: unexpected argument '" ++ a ++ "' found"
  | .missingValue o => "error: a value is required for '" ++ o.usage ++ "' but none was supplied"
  | .unexpectedValue o v =>
    "error: unexpected value '" ++ v ++ "' for '" ++ o.usage ++ "' found; no more were expected"
  | .invalidValue o v => "error: invalid value '" ++ v ++ "' for '" ++ o.usage ++ "'"
  | .invalidAssignment raw cause =>
    "error: invalid value '" ++ raw ++ "' for '" ++ CliOption.assign.usage ++ "': " ++
      cause.message raw
  | .repeated o => "error: the argument '" ++ o.usage ++ "' cannot be used multiple times"

/-- What a command line asks for. -/
structure Options where
  path : Option String
  filter : Option String
  tag : Option String
  verbose : Bool
  /-- Variables that override those of the tests, in order. -/
  assignments : List (String × Value)
  noEnvironment : Bool
  reportDirectory : Option String
  reportFormat : Option ReportFormat

inductive Request where
  | run (options : Options)
  | help
  | version

namespace Arguments

/-- The name and value of a variable.  The value is read as YAML; what is not YAML stands for itself. -/
def assignment (raw : String) : Except AssignmentError (String × Value) :=
  let cs := raw.toList
  let name := cs.takeWhile (· != '=')
  match cs.drop name.length with
  | [] => .error .noValue
  | _ :: rest =>
    if name.isEmpty then .error .noName
    else
      let text := String.ofList rest
      match Yaml.read text with
      | .ok j => .ok (String.ofList name, .ofJson j)
      | .error _ => .ok (String.ofList name, .string text)

structure State where
  options : Options
  given : List CliOption
  /-- The last option, and its value if that has been given. -/
  pending : Option (CliOption × Option String)

def State.start : State :=
  ⟨⟨none, none, none, false, [], false, none, none⟩, [], none⟩

def setValue (o : Options) (option : CliOption) (value : String) : Except UsageError Options :=
  match option with
  | .path => .ok { o with path := some value }
  | .filter => .ok { o with filter := some value }
  | .tag => .ok { o with tag := some value }
  | .reportDirectory => .ok { o with reportDirectory := some value }
  | .reportFormat =>
    match ReportFormat.ofName? value with
    | some f => .ok { o with reportFormat := some f }
    -- an empty word counts as no value
    | none => if value.isEmpty then .error (.missingValue option) else .error (.invalidValue option value)
  | .assign =>
    match assignment value with
    | .ok a => .ok { o with assignments := o.assignments ++ [a] }
    | .error cause => .error (.invalidAssignment value cause)
  | .verbose => .ok { o with verbose := true }
  | .noEnvironment => .ok { o with noEnvironment := true }
  | .help => .ok o
  | .version => .ok o

def give (s : State) (option : CliOption) (value : String) : Except UsageError State := do
  if s.given.contains option && !option.isRepeatable then throw (.repeated option)
  let options ← setValue s.options option value
  return { s with options := options, given := option :: s.given }

/-- Begin something new: a pending option is given its value, which must be there. -/
def settle (s : State) : Except UsageError State :=
  match s.pending with
  | none => .ok s
  | some (option, none) => .error (.missingValue option)
  | some (option, some value) => give { s with pending := none } option value

/-- What a step of reading leads to: more to read, or an answer at once. -/
inductive Progress where
  | more (state : State)
  | answer (request : Request)

def flag (s : State) (option : CliOption) : Except UsageError Progress := do
  let s ← settle s
  match option with
  | .help => return .answer .help
  | .version => return .answer .version
  | option => return .more (← give s option "")

def valued (s : State) (option : CliOption) (attached : Option String) : Except UsageError Progress := do
  let s ← settle s
  match attached with
  | some value => return .more (← give s option value)
  | none => return .more { s with pending := some (option, none) }

def long (s : State) (body : List Char) : Except UsageError Progress :=
  let name := String.ofList (body.takeWhile (· != '='))
  let attached := match body.dropWhile (· != '=') with
    | [] => none
    | _ :: rest => some (String.ofList rest)
  match CliOption.ofLong? name with
  | none => .error (.unexpectedArgument ("--" ++ name))
  | some option =>
    if option.takesValue then valued s option attached
    else
      match attached with
      | some value => .error (.unexpectedValue option value)
      | none => flag s option

def letters : State → List Char → Except UsageError Progress
  | s, [] => .ok (.more s)
  | s, c :: rest =>
    match CliOption.ofLetter? c with
    | none => .error (.unexpectedArgument ("-" ++ String.singleton c))
    | some option =>
      if option.takesValue then
        valued s option (match rest with
          | [] => none
          | '=' :: value => some (String.ofList value)
          | value => some (String.ofList value))
      else do
        match ← flag s option with
        | .more s => letters s rest
        | .answer r => return .answer r

def argument (s : State) (text : String) : Except UsageError Progress :=
  match text.toList, s.pending with
  | '-' :: '-' :: body, _ => long s body
  | '-' :: c :: rest, _ => letters s (c :: rest)
  | _, some (option, none) => .ok (.more { s with pending := some (option, some text) })
  | _, _ => .error (.unexpectedArgument text)

/-- Read all arguments.  After two dashes alone no argument is expected. -/
def readAll : State → List String → Except UsageError Request
  | s, [] => do return .run (← settle s).options
  | s, text :: rest =>
    if text == "--" then
      match rest with
      | [] => do return .run (← settle s).options
      | extra :: _ => .error (.unexpectedArgument extra)
    else do
      match ← argument s text with
      | .more s => readAll s rest
      | .answer r => return r

/-- The variables of the environment that stand in for options. -/
def pathVariable : String := "STEPWISE_PATH"

def reportVariable : String := "STEPWISE_REPORT_DIR"

/-- Read a command line; the environment stands in for options that are not given. -/
def read (environment : Table String) (arguments : List String) : Except UsageError Request := do
  match ← readAll State.start arguments with
  | .run o => return .run { o with
      path := o.path <|> environment.find? pathVariable
      reportDirectory := o.reportDirectory <|> environment.find? reportVariable }
  | request => return request

end Arguments

end StepScript
