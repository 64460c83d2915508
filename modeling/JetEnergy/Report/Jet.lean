import JetEnergy.Decimal.Style
import JetEnergy.Verdict

/-!
  Reports on a single jet.

  Momenta and other observables have four places, uncertainties five, factors
  six.
-/
namespace JetEnergy.Report

open Correction Uncertainty Decimal

/-- The line on what goes into a correction. -/
def jetLine (jet : Jet) : String :=
  s!"Jet: pt={writeFixed 4 jet.pt} eta={writeFixed 4 jet.eta} phi={writeFixed 4 jet.phi} " ++
    s!"area={writeFixed 4 jet.area} rho={writeFixed 4 jet.rho}\n"

/-- The words for an outcome that is a failure. -/
def failureWords : Outcome → String
  | .value _ => "none"
  | .noMatch => "no bin matches the jet"
  | .noDependencies => "record has no dependency axes"
  | .tooManyDependencies count => s!"record has {count} dependency axes (max 4)"
  | .negative x => s!"negative result {writeFixed 6 x}"

/-- The line on a failed passage; stages are numbered from 1 on. -/
def failureLine (p : Passage) : String :=
  let stage := match p.failedStage with
    | some i => i + 1
    | none => 0
  s!"Correction failed at stage {stage}: {failureWords p.outcome}\n"

/-- The line on a band. -/
def bandLine : BandResult Float → String
  | .band b => s!"Uncertainty: -{writeFixed 5 b.low} / +{writeFixed 5 b.high}\n"
  | .noMatch => "Uncertainty: no matching bin\n"
  | .noNodes => "Uncertainty: matching bin has no nodes\n"

/-- The lines on the momentum that the chain gave. -/
def correctionLines (v : Verdict) : String :=
  match v.correctedPt with
  | none => failureLine v.passage
  | some pt =>
    (match v.scaleFactor with
      | some factor => s!"Residual scale: {writeFixed 6 factor}\n"
      | none => "") ++
      s!"Corrected pt: {writeFixed 4 pt}\n" ++
      s!"Factor: {writeFixed 6 (pt / v.jet.pt)}\n"

/-- The line on the momentum after a shift, unless there is none. -/
def shiftLine (v : Verdict) : String :=
  match v.systematic, v.finalPt with
  | .up, some pt => s!"Shifted pt (Up): {writeFixed 4 pt}\n"
  | .down, some pt => s!"Shifted pt (Down): {writeFixed 4 pt}\n"
  | _, _ => ""

/-- The report on a verdict. -/
def verdict (v : Verdict) : String :=
  jetLine v.jet ++ correctionLines v ++
    match v.band with
    | some band => bandLine band ++ shiftLine v
    | none => ""

end JetEnergy.Report
