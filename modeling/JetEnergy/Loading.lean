import JetEnergy.Batch.Ingest
import JetEnergy.Correction.Chain
import JetEnergy.Correction.Scale
import JetEnergy.Directory
import JetEnergy.Text.Utf8
import JetEnergy.Uncertainty.Table

/-!
  Tables and jets from the files of a directory.

  Correction and uncertainty files are text in UTF-8, in which broken bytes do
  no harm. Jets are read as bytes, because a row with broken bytes is rejected
  on its own.
-/
namespace JetEnergy

/-- The text of a file. -/
def Directory.text (d : Directory) (name : String) : Except LoadError (List Char) :=
  match d.read name with
  | .error e => .error (.unreadable name e)
  | .ok bytes => .ok (Text.Utf8.decodeLossy bytes)

/-- The correction table in a file. -/
def Correction.Table.load (d : Directory) (name : String) : Except (Stop LoadError) Table :=
  match d.text name with
  | .error e => .error (.failure e)
  | .ok text => parse name text

/-- The chain of the tables in some files, in order. The first file that cannot
    be used is the reason if there is none. -/
def Correction.Chain.load (d : Directory) : List String → Except (Stop LoadError) (Chain Table)
  | [] => .error (.failure .emptyChain)
  | names => (names.mapM (Table.load d)).map fun tables => tables.map fun t => { level := t }

/-- What keeps some correction files from their tables, from left to right. -/
def Correction.Chain.stops (d : Directory) : List String → List (Stop LoadError)
  | [] => [.failure .emptyChain]
  | names => names.filterMap fun name => errorOf? (Table.load d name)

/-- The residual scale, if it is wanted. -/
def Correction.Scale.residualIf (wanted : Bool) : Except Failure (Option Scale) :=
  if wanted then (residual.map some).mapError .residualScale else .ok none

/-- The uncertainty table in a file. -/
def Uncertainty.Table.load (d : Directory) (name : String) : Except (Stop Failure) Table :=
  match d.text name with
  | .error e => .error (.failure (.load e))
  | .ok text => Stop.ofHalt (parse name text)

/-- The uncertainty table that a variation works with. Only the nominal one can
    do without. -/
def Uncertainty.Table.loadFor (d : Directory) (systematic : Systematic) :
    Option String → Except (Stop Failure) (Option Table)
  | some name => (load d name).map some
  | none => if systematic = .nominal then .ok none else .error (.failure .shiftWithoutBand)

/-- The jets in a file. A directory can be opened like a file, so it is found
    out when the header is read. -/
def Batch.load (d : Directory) (name : String) : Except Failure Ingested :=
  match d.read name with
  | .ok bytes => ingest bytes
  | .error .isADirectory => .error (.headerUnreadable AccessError.isADirectory.message)
  | .error e => .error (.jetsUnreadable name e)

end JetEnergy
