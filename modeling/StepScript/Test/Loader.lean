import StepScript.Files.System
import StepScript.Test.JsonForm
import StepScript.Test.YamlForm

/-!
# Loading tests

A test file is read as JSON if its extension says so and as YAML otherwise.  A directory stands for
the test files directly inside it, in the order of their names; those that cannot be read are passed
over.  Where a single file is asked for, it has to be readable.
-/

namespace StepScript

inductive LoadError where
  | unreadableFile (path : String)
  | badJson (path : String) (cause : DefinitionError)
  | badYaml (path : String) (cause : DefinitionError)
  | unreadableDirectory (path : String)
  deriving DecidableEq

def LoadError.message : LoadError → String
  | .unreadableFile path => "Failed to read test file: " ++ path
  | .badJson path _ => "Failed to parse JSON from " ++ path
  | .badYaml path _ => "Failed to parse YAML from " ++ path
  | .unreadableDirectory path => "Failed to read directory: " ++ path

namespace TestLoader

/-- The directories that are looked for when no path is given; the first one that is there counts. -/
def defaultDirectories : List String :=
  ["tests/steps", "test/steps", "."]

def isTestFile (path : String) : Bool :=
  match FilePath.extension? path with
  | some e => e == "yaml" || e == "yml" || e == "json"
  | none => false

def definition (path text : String) : Except LoadError TestDefinition :=
  if FilePath.extension? path == some "json" then
    (TestDefinition.ofJson text).mapError (.badJson path)
  else (TestDefinition.ofYaml text).mapError (.badYaml path)

def loadFile (files : FileSystem) (path : String) : Except LoadError TestDefinition :=
  match files.read? path with
  | some text => definition path text
  | none => .error (.unreadableFile path)

/-- The test files directly inside a directory, given by their paths in the order of their names. -/
def testFiles (files : FileSystem) (directory : String) (names : List String) : List String :=
  let sorted := names.mergeSort fun a b => !(b < a)
  (sorted.map (FilePath.join directory)).filter fun path => files.isFile path && isTestFile path

def loadDirectory (files : FileSystem) (directory : String) : Except LoadError (List TestDefinition) :=
  match files.list? directory with
  | none => .error (.unreadableDirectory directory)
  | some names =>
    .ok ((testFiles files directory names).filterMap fun path => (loadFile files path).toOption)

/-- Load the tests of a path, which may be missing. -/
def loadPath (files : FileSystem) (path : String) : Except LoadError (List TestDefinition) :=
  if files.isFile path then (loadFile files path).map fun test => [test]
  else if files.isDirectory path then loadDirectory files path
  else .ok []

def loadAll (files : FileSystem) (paths : List String) : Except LoadError (List TestDefinition) := do
  return (← paths.mapM (loadPath files)).flatten

/-- The paths to load when none is given. -/
def discover (files : FileSystem) : List String :=
  (defaultDirectories.find? files.isDirectory).toList

end TestLoader

end StepScript
