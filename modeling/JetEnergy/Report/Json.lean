import JetEnergy.Json
import JetEnergy.Verdict

/-!
  Reports as JSON values.
-/
namespace JetEnergy.Report

open Correction Uncertainty TableFile

/-- An object that says what it is in the field `status`. -/
def withStatus (status : String) (fields : List (String × Json)) : Json :=
  .ofFields (("status", .text status) :: fields)

/-- A jet. -/
def jetJson (jet : Jet) : Json :=
  .ofFields [
    ("pt", .number jet.pt), ("eta", .number jet.eta), ("phi", .number jet.phi),
    ("area", .number jet.area), ("rho", .number jet.rho)]

/-- An outcome. -/
def outcomeJson : Outcome → Json
  | .value x => withStatus "value" [("value", .number x)]
  | .noMatch => withStatus "no_match" []
  | .noDependencies => withStatus "no_dependencies" []
  | .tooManyDependencies count => withStatus "too_many_dependencies" [("value", .count count)]
  | .negative x => withStatus "negative" [("value", .number x)]

/-- How a jet fared in a chain. -/
def passageJson (p : Passage) : Json :=
  .ofFields [
    ("evaluation", outcomeJson p.outcome),
    ("failed_stage", .ofOption .count p.failedStage),
    ("stages_run", .count p.stagesRun)]

/-- What a search for a band gave. -/
def bandJson : BandResult Float → Json
  | .band b => withStatus "band" [("low", .number b.low), ("high", .number b.high)]
  | .noMatch => withStatus "no_match" []
  | .noNodes => withStatus "no_nodes" []

/-- A systematic variation. -/
def systematicJson : Systematic → Json
  | .nominal => .text "nominal"
  | .up => .text "up"
  | .down => .text "down"

/-- A verdict. -/
def verdictJson (v : Verdict) : Json :=
  .ofFields [
    ("jet", jetJson v.jet),
    ("outcome", passageJson v.passage),
    ("factor", .ofOption .number v.factor),
    ("scale_factor", .ofOption .number v.scaleFactor),
    ("uncertainty", .ofOption bandJson v.band),
    ("systematic", systematicJson v.systematic),
    ("final_pt", .ofOption .number v.finalPt)]

/-- A jet with its band. -/
def jetBandJson (jet : Jet) (result : BandResult Float) : Json :=
  .ofFields [("jet", jetJson jet), ("uncertainty", bandJson result)]

/-- A tally. -/
def tallyJson (t : Tally) : Json :=
  .ofFields [
    ("lines_read", .count t.lines), ("blank_lines", .count t.blank),
    ("definitions", .count t.headings), ("dropped_definitions", .count t.droppedHeadings),
    ("records", .count t.records), ("dropped_data", .count t.droppedRows),
    ("unknown_axes", .count t.unknown)]

/-- A correction table. -/
def correctionTableJson (t : Correction.Table) : Json :=
  .ofFields [
    ("source", .text t.source), ("records", .count t.entries.length),
    ("distinct_formulas", .count t.formulas.length), ("stats", tallyJson t.tally)]

/-- An uncertainty table. -/
def uncertaintyTableJson (t : Uncertainty.Table) : Json :=
  .ofFields [
    ("source", .text t.source), ("records", .count t.entries.length),
    ("stats", tallyJson t.tally)]

end JetEnergy.Report
