import StepScript.CommandLine.Session

/-!
# The program

Reads the environment, the arguments and the test files, runs a session on them, prints what it says
and saves its reports.  The steps of a test run on a clock of their own: a step that sleeps lasts as
long as it sleeps, but nobody waits for it.
-/

namespace StepScript

namespace Program

def environment : IO (Table String) := do
  let bytes ← IO.FS.readBinFile "/proc/self/environ"
  let text := (String.fromUTF8? bytes).getD ""
  let entries := (text.splitOn (String.singleton (Char.ofNat 0))).filterMap fun e =>
    let name := String.ofList (e.toList.takeWhile (· != '='))
    if name.length < e.length && !name.isEmpty then
      some (name, String.ofList (e.toList.drop (name.length + 1)))
    else none
  return Table.ofEntries entries

def firstLine (path otherwise : String) : IO String := do
  try
    let text ← IO.FS.readFile path
    return (text.splitOn "\n").headD otherwise
  catch _ => return otherwise

def agent : IO Agent := do
  return {
    hostName := ← firstLine "/proc/sys/kernel/hostname" "localhost"
    os := "linux"
    arch := ← firstLine "/proc/sys/kernel/arch" "unknown"
    version := "0.1.0"
    address := "127.0.0.1" }

def readText (path : String) : IO (Option String) := do
  try
    return String.fromUTF8? (← IO.FS.readBinFile path)
  catch _ => return none

def addPath (files : FileSystem) (path : String) : IO FileSystem := do
  let place := (IO.FS.DirEntry.mk path "").root
  if ← place.isDir then
    let found ← try pure (some (← place.readDir)) catch _ => pure none
    let some found := found | return files.close path
    let mut files := files.add path none
    for e in found do
      let inside := FilePath.join path e.fileName
      if ← e.path.isDir then files := files.add inside none
      else if TestLoader.isTestFile inside then
        match ← readText inside with
        | some text => files := files.add inside (some text)
        | none => files := files
    return files
  else if ← place.pathExists then
    return files.add path (some ((← readText path).getD ""))
  else return files

def files (paths : List String) : IO FileSystem := do
  let here := (← IO.currentDir).toString
  let working := (FilePath.parts here).filter fun p => p != ""
  let start : FileSystem := ⟨(FileTree.empty.makeDirectories working).getD .empty, working⟩
  paths.foldlM addPath start

def time : IO Nat := do
  let self := (IO.FS.DirEntry.mk "/proc/self" "").root
  return (← self.metadata).modified.sec.toNat

def save (r : SavedReport) : IO Unit := do
  try
    IO.FS.createDirAll r.directory
    IO.FS.writeFile (FilePath.join r.directory r.name) r.content
  catch _ => return ()

def summaryLines (s : Summary) : List String :=
  ["Summary:", "  Total: " ++ toString s.total, "  Passed: " ++ toString s.passed,
    "  Failed: " ++ toString s.failed]

end Program

end StepScript

open StepScript in
def main (arguments : List String) : IO UInt32 := do
  let environment ← Program.environment
  let paths := match Arguments.read environment arguments with
    | .ok (.run o) => match o.path with
      | some path => [path]
      | none => TestLoader.defaultDirectories
    | _ => []
  let now ← Program.time
  let outcome := Session.run
    ⟨← Program.files paths, environment, ← Program.agent, fun _ => now⟩ arguments
  for line in outcome.output do IO.println line
  for line in outcome.errors do IO.eprintln line
  outcome.reports.forM Program.save
  match outcome.isShown, outcome.summary with
  | true, some s => for line in Program.summaryLines s do IO.println line
  | _, _ => return UInt32.ofNat outcome.code
  return UInt32.ofNat outcome.code
