import JetEnergy.Correction.Chain
import JetEnergy.Correction.Scale
import JetEnergy.Uncertainty.Table

/-!
  The verdict on a single jet.

  A jet goes through the chain; if that succeeds, the residual scale and the
  uncertainty table, where there are any, are applied to the momentum it gave.
-/
namespace JetEnergy

open Correction Uncertainty

/-- What is known about a jet after its correction. -/
structure Verdict where
  jet : Jet
  passage : Passage
  scaleFactor : Option Float
  /-- the band at the corrected momentum, if there is a table -/
  band : Option (BandResult Float)
  systematic : Systematic
  /-- the momentum after the shift -/
  finalPt : Option Float

namespace Verdict

/-- The momentum after the chain, with the residual scale if there is one. -/
def correctedPt (v : Verdict) : Option Float :=
  v.passage.outcome.value?.map (· * v.scaleFactor.getD 1)

/-- The corrected momentum over the raw one. -/
def factor (v : Verdict) : Option Float :=
  v.correctedPt.map (· / v.jet.pt)

/-- The verdict before anything has been looked up in an uncertainty table. -/
def ofPassage (scale : Option Scale) (systematic : Systematic) (jet : Jet) (passage : Passage) :
    Verdict :=
  { jet
    passage
    scaleFactor := match scale, passage.outcome.value? with
      | some scale, some pt => some (scale.factor pt)
      | _, _ => none
    band := none
    systematic
    finalPt := none }

/-- The verdict with the band of its corrected momentum, which is also where
    the shift starts. Without a table there is no band and no shift. -/
def consult (v : Verdict) (table : Option Uncertainty.Table) : Except Halt Verdict :=
  match table, v.correctedPt with
  | some table, some pt =>
    let jet := v.jet.withPt pt
    match table.band jet, table.shift jet v.systematic with
    | .ok band, .ok pt => .ok { v with band := some band, finalPt := some pt }
    | .error h, _ => .error h
    | _, .error h => .error h
  | _, pt => .ok { v with finalPt := pt }

/-- The verdict on a jet. -/
def reach (chain : Chain Correction.Table) (scale : Option Scale)
    (table : Option Uncertainty.Table) (systematic : Systematic) (jet : Jet) :
    Except Halt Verdict :=
  (ofPassage scale systematic jet (chain.run jet).1).consult table

end Verdict

end JetEnergy
