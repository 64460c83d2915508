import JetEnergy.Command.Run
import JetEnergy.Resolution.Draw

/-!
  The program: it looks at the files that a command names, runs the command in
  the directory they make up, prints the response and writes the output file.
-/
namespace JetEnergy.Program

/-- The files that a command names. -/
def namesOf : Command → List String
  | .correct s => s.chain ++ s.uncertainty.toList
  | .uncertainty file _ _ => [file]
  | .inspect file _ _ => [file]
  | .batch s target => s.jets :: s.chain ++ s.uncertainty.toList ++ target.toList

/-- The names of the directories above a name. -/
def above (name : String) : List String :=
  let steps := name.splitOn "/"
  (List.range steps.length).map fun n => "/".intercalate (steps.take n)

/-- Whether a name is that of a directory. -/
def isFolder (name : String) : IO Bool := do
  ((← IO.currentDir) / name).isDir

/-- The content of a file; one that cannot be read counts as absent. -/
def content? (name : String) : IO (Option (List UInt8)) := do
  try return some (← IO.FS.readBinFile name).toList
  catch _ => return none

/-- What there is under some names and on the way to them. -/
def survey (names : List String) : IO Directory := do
  let places := names ++ names.flatMap above
  let files ← places.filterMapM fun name => do
    return (← content? name).map fun bytes => (name, bytes)
  let folders ← places.filterM isFolder
  return { Directory.ofFiles files with folders := folders.map Directory.pathOf }

/-- Writes the output file of a command that succeeded. -/
def save (c : Command) (r : Command.Response) : IO Unit :=
  match c with
  | .batch _ (some name) =>
    match r.exitCode, r.directory.read name with
    | 0, .ok bytes => IO.FS.writeBinFile name (ByteArray.mk bytes.toArray)
    | _, _ => return
  | _ => return

/-- The exit code after an access past the end. -/
def haltExitCode : UInt32 := 101

/-- Runs a command line. -/
def run (args : List String) : IO UInt32 := do
  match Command.parse args with
  | .error e =>
    IO.eprintln e.message
    return UInt32.ofNat Command.usageExitCode
  | .ok c =>
    match c.run Resolution.normalDraw (← survey (namesOf c)) with
    | .error h =>
      IO.eprintln h.message
      return haltExitCode
    | .ok r =>
      IO.print r.output
      save c r
      IO.eprint r.messages
      return UInt32.ofNat r.exitCode

end JetEnergy.Program

/-- The entry of the program. -/
def main (args : List String) : IO UInt32 :=
  JetEnergy.Program.run args
