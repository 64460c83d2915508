import JetEnergy.Batch.Row
import JetEnergy.Csv.Writer
import JetEnergy.Decimal.Style

/-!
  Output rows as a table of comma-separated fields.

  The header names every field of a row; a value that is absent leaves its
  field empty. Without rows nothing is written, not even the header.
-/
namespace JetEnergy.Batch

/-- The names of the columns. -/
def outputHeader : List String :=
  ["line", "raw_pt", "eta", "phi", "area", "rho", "gen_pt", "status", "failed_stage",
   "corrected_pt", "scale_factor", "smear_factor", "uncertainty_low", "uncertainty_high",
   "final_pt"]

/-- A number in a field. -/
def numberField (x : Float) : String :=
  Decimal.exportStyle.write x

/-- A number in a field, which is empty if there is none. -/
def optionalField : Option Float → String
  | some x => numberField x
  | none => ""

/-- The fields of a row, in the order of the header. -/
def OutputRow.fields (r : OutputRow) : List String :=
  [toString r.line, numberField r.jet.pt, numberField r.jet.eta, numberField r.jet.phi,
   numberField r.jet.area, numberField r.jet.rho, optionalField r.genPt, r.status,
   (r.failedStage.map toString).getD "", optionalField r.correctedPt,
   optionalField r.scaleFactor, optionalField r.smearFactor, optionalField r.uncertaintyLow,
   optionalField r.uncertaintyHigh, optionalField r.finalPt]

/-- The records of some rows: the header and one record for each. -/
def outputRecords : List OutputRow → List (List String)
  | [] => []
  | rows => outputHeader :: rows.map OutputRow.fields

/-- The table of some rows. -/
def exportRows (rows : List OutputRow) : String :=
  String.ofList (Csv.write ((outputRecords rows).map (·.map String.toList)))

end JetEnergy.Batch
