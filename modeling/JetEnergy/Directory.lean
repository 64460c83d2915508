import JetEnergy.Failure

/-!
  A directory as a value.

  * A name is followed step by step: `.` stays, `..` goes up, any other step
    goes down, and each step starts at a directory. `Directory.walk` gives the
    path that a name leads to.
  * `Directory.read` gives the content of the file at the end of a name.
  * `Directory.write` gives the directory after a write and changes no other
    file.
-/
namespace JetEnergy

/-- The steps from the directory at hand downwards; in front of them `..` for
    each directory further up, or a slash for the root of all directories. -/
abbrev Path := List String

/-- Files by path, as bytes, and directories besides. A directory also exists
    as long as a file is in it. -/
structure Directory where
  files : List (Path × List UInt8) := []
  folders : List Path := []

namespace Directory

/-! ## Names -/

/-- What stands between steps, and for the root of all directories. -/
def slash : String := "/"

/-- The step that stays. -/
def here : String := "."

/-- The step that goes up. -/
def up : String := ".."

/-- The steps of a name. -/
def stepsOf (name : String) : List String :=
  (name.splitOn slash).filter (· ≠ "")

/-- Where a name starts: at the root if a slash is in front. -/
def startOf (name : String) : Path :=
  if name.startsWith slash then [slash] else []

/-- Whether a name insists on a directory. -/
def asksForDirectory (name : String) : Bool :=
  name.endsWith slash

/-- The path to the directory that contains the one of a path. -/
def above (path : Path) : Path :=
  if path.all (· = up) then path ++ [up]
  else if path = [slash] then path
  else path.dropLast

/-- The path one step further. -/
def move (path : Path) (step : String) : Path :=
  if step = here then path
  else if step = up then above path
  else path ++ [step]

/-- The path of a name, if all of its steps can be taken. -/
def pathOf (name : String) : Path :=
  (stepsOf name).foldl move (startOf name)

/-- The directory of some named files. -/
def ofFiles (files : List (String × List UInt8)) : Directory :=
  { files := files.map fun (name, bytes) => (pathOf name, bytes) }

/-! ## Places -/

/-- What is at the end of a path. -/
inductive Place where
  | file (bytes : List UInt8)
  | folder
  | nothing
  /-- nothing, and nothing could be there: the last step is too long -/
  | nowhere

/-- The most bytes of a step. -/
def longestStep : Nat := 255

/-- The most bytes of a name. -/
def longestName : Nat := 4095

/-- The content of a file. -/
def file? (d : Directory) (path : Path) : Option (List UInt8) :=
  d.files.lookup path

/-- Whether a path leads to a directory: the one at hand, one further up, the
    root, one that is known, or one that has a file below it. -/
def isDirectory (d : Directory) (path : Path) : Bool :=
  path.all (· = up) || path == [slash] || d.folders.contains path ||
    d.files.any fun (other, _) => path.isPrefixOf other && path.length < other.length

/-- What is at the end of a path. -/
def place (d : Directory) (path : Path) : Place :=
  match d.file? path with
  | some bytes => .file bytes
  | none =>
    if d.isDirectory path then .folder
    else if path.getLast?.any fun step => longestStep < step.utf8ByteSize then .nowhere
    else .nothing

/-- The path that some steps lead to from a path. -/
def walk (d : Directory) (path : Path) : List String → Except AccessError Path
  | [] => .ok path
  | step :: steps =>
    match d.place path with
    | .folder => d.walk (move path step) steps
    | .file _ => .error .notADirectory
    | .nothing => .error .notFound
    | .nowhere => .error .nameTooLong

/-- The path that a name leads to. -/
def find (d : Directory) (name : String) : Except AccessError Path :=
  if name.contains '\x00' then .error .nulInName
  else if name = "" then .error .notFound
  else if longestName < name.utf8ByteSize then .error .nameTooLong
  else d.walk (startOf name) (stepsOf name)

/-! ## Reading and writing -/

/-- The content of the file of a name. -/
def read (d : Directory) (name : String) : Except AccessError (List UInt8) :=
  match d.find name with
  | .error e => .error e
  | .ok path =>
    match d.place path with
    | .file bytes => if asksForDirectory name then .error .notADirectory else .ok bytes
    | .folder => .error .isADirectory
    | .nothing => .error .notFound
    | .nowhere => .error .nameTooLong

/-- The directory with a file under a path, in the place of an older one. -/
def put (d : Directory) (path : Path) (bytes : List UInt8) : Directory :=
  if (d.file? path).isSome then
    { d with
      files := d.files.map fun (other, old) =>
        if other = path then (other, bytes) else (other, old) }
  else { d with files := d.files ++ [(path, bytes)] }

/-- The directory after a file has been written under a name. A name that
    insists on a directory cannot be that of a new file, and not even that of
    an old one. -/
def write (d : Directory) (name : String) (bytes : List UInt8) : Except AccessError Directory :=
  match d.find name with
  | .error e => .error e
  | .ok path =>
    if asksForDirectory name then .error .isADirectory
    else match d.place path with
      | .file _ | .nothing => .ok (d.put path bytes)
      | .folder => .error .isADirectory
      | .nowhere => .error .nameTooLong

end Directory

end JetEnergy
