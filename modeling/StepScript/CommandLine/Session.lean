import StepScript.Action.Catalogue
import StepScript.CommandLine.Arguments
import StepScript.CommandLine.LogFilter
import StepScript.Test.Loader
import StepScript.Text.Lowercase

/-!
# Session — one run of the command line

A session reads the command line, loads the tests, chooses some of them, runs each in turn and saves
its report.  Its outcome says with which code the program ends, what it prints, how many tests passed
and failed, and what the files are afterwards.  A report that cannot be saved changes nothing else.
-/

namespace StepScript

structure Summary where
  passed : Nat
  failed : Nat
  deriving DecidableEq

def Summary.total (s : Summary) : Nat :=
  s.passed + s.failed

structure SavedReport where
  directory : String
  name : String
  content : String

/-- What a session has around it. -/
structure Surroundings where
  files : FileSystem
  environment : Table String
  agent : Agent
  /-- The time in seconds when the report of the test with this index is saved. -/
  clock : Nat → Nat

/-- How a session ends. -/
structure Outcome where
  /-- The code that the program ends with; zero means success. -/
  code : Nat
  /-- What is printed for the user. -/
  output : List String
  /-- What is printed about errors. -/
  errors : List String
  /-- The numbers of tests, once tests are run. -/
  summary : Option Summary
  /-- Whether messages such as the summary are shown. -/
  isShown : Bool
  reports : List SavedReport
  files : FileSystem

namespace Session

inductive Refusal where
  | missingPath (path : String)
  | notLoaded (path : String) (cause : LoadError)
  | noTests
  | noneChosen
  deriving DecidableEq

def Refusal.message : Refusal → String
  | .missingPath path => "Path does not exist: " ++ path
  | .notLoaded path _ => "Failed to load tests from " ++ path
  | .noTests => "No tests found"
  | .noneChosen => "No tests matching the filter were found"

/-- Load the tests of a path or, without one, of a default directory. -/
def loadTests (files : FileSystem) (path : Option String) : Except Refusal (List TestDefinition) := do
  let tests ← match path with
    | some path =>
      if files.isPresent path then
        (TestLoader.loadAll files [path]).mapError (Refusal.notLoaded path)
      else throw (.missingPath path)
    | none => (TestLoader.loadAll files (TestLoader.discover files)).mapError (Refusal.notLoaded ".")
  if tests.isEmpty then throw .noTests else return tests

def occursIn (part whole : List Char) : Bool :=
  match whole with
  | [] => part.isEmpty
  | _ :: rest => part.isPrefixOf whole || occursIn part rest

/-- Whether a test is chosen: its name contains the filter, whatever the case of letters, and it has
the tag. -/
def isChosen (filter tag : Option String) (test : TestDefinition) : Bool :=
  (match filter with
    | some f => occursIn (Lowercase.lower f).toList (Lowercase.lower test.name).toList
    | none => true) &&
  (match tag with
    | some t => test.hasTag t
    | none => true)

def chosenTests (files : FileSystem) (o : Options) : Except Refusal (List TestDefinition) := do
  let tests := (← loadTests files o.path).filter (isChosen o.filter o.tag)
  if tests.isEmpty then throw .noneChosen else return tests

/-! ## Running -/

/-- The level of messages when the environment names none. -/
def defaultLevel (verbose : Bool) : String :=
  if verbose then "debug" else "info"

/-- The environment, with the filter of messages that is in force. -/
def fullEnvironment (environment : Table String) (o : Options) : Table String :=
  if environment.contains LogFilter.variableName then environment
  else environment.insert LogFilter.variableName (defaultLevel o.verbose)

def runner (s : Surroundings) (o : Options) : TestRunner where
  registry := Registry.builtIn
  environment := if o.noEnvironment then none else some (fullEnvironment s.environment o)
  agent := s.agent
  overrides := Table.ofEntries o.assignments

def report (o : Options) (directory : String) (time : Nat) (r : TestResult) : SavedReport :=
  let format := o.reportFormat.getD .json
  ⟨directory, Report.fileName format r.name time, Report.content format r⟩

def save (files : FileSystem) (r : SavedReport) : Option FileSystem := do
  let files ← if files.isPresent r.directory then some files else files.makeDirectories r.directory
  files.write? r.directory r.name r.content

def results (runner : TestRunner) : List TestDefinition → List TestResult × Bool
  | [] => ([], true)
  | test :: rest =>
    match runner.run test with
    | .error _ => ([], false)
    | .ok r =>
      let (more, ended) := results runner rest
      (r :: more, ended)

def reports (s : Surroundings) (o : Options) (rs : List TestResult) : List SavedReport :=
  match o.reportDirectory with
  | none => []
  | some directory => rs.mapIdx fun i r => report o directory (s.clock i) r

def summarize (rs : List TestResult) : Summary :=
  ⟨rs.countP fun r => r.success, rs.countP fun r => !r.success⟩

/-- The code of a program that ends with an error it does not expect. -/
def crashCode : Nat := 101

def messageTarget : String := "stepwise"

def filterWarnings (filter : String) : List String :=
  let accent := String.singleton (Char.ofNat 96)
  (LogFilter.ignored filter).map fun part =>
    "ignoring " ++ accent ++ part ++ accent ++ ": invalid filter directive"

def ended (s : Surroundings) (code : Nat) (output errors : List String) : Outcome :=
  ⟨code, output, errors, none, false, [], s.files⟩

def runOptions (s : Surroundings) (o : Options) : Outcome :=
  let filter := (s.environment.find? LogFilter.variableName).getD (defaultLevel o.verbose)
  let warnings := filterWarnings filter
  match chosenTests s.files o with
  | .error e => ended s 1 [] (warnings ++ ["Error: " ++ e.message])
  | .ok tests =>
    let (rs, complete) := results (runner s o) tests
    let saved := reports s o rs
    let files := saved.foldl (fun files r => (save files r).getD files) s.files
    if complete then
      ⟨if rs.all TestResult.success then 0 else 1, [], warnings, some (summarize rs),
        LogFilter.isShown filter messageTarget .info, saved, files⟩
    else ⟨crashCode, [], warnings ++ ["The expression cannot be evaluated"], none, false, saved, files⟩

def versionText : String := "stepwise 0.1.0"

def helpText : List String :=
  ["Stepwise - YAML/JSON step test runner", "",
    "Usage: stepwise [OPTIONS]", "",
    "Options:",
    "  -p, --path <TEST_PATH>               Test file or directory path",
    "  -f, --filter <TEST_FILTER>           Filter tests by name (partial match)",
    "  -t, --tag <TAG>                      Only run tests carrying this tag",
    "  -v, --verbose                        Enable verbose logging",
    "      --var <KEY=VALUE>                Set a variable, overriding the test's own (repeatable)",
    "      --no-env                         Do not copy environment variables into the scope",
    "  -r, --report-dir <REPORT_DIR>        Directory to save test report files",
    "      --report-format <REPORT_FORMAT>  Report output format [possible values: json, yaml, text]",
    "  -h, --help                           Print help",
    "  -V, --version                        Print version"]

def run (s : Surroundings) (arguments : List String) : Outcome :=
  match Arguments.read s.environment arguments with
  | .error e => ended s 2 [] [e.message]
  | .ok .help => ended s 0 helpText []
  | .ok .version => ended s 0 [versionText] []
  | .ok (.run o) => runOptions s o

end Session

end StepScript
