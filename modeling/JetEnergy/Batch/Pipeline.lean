import JetEnergy.Batch.Row
import JetEnergy.Correction.Chain
import JetEnergy.Correction.Scale
import JetEnergy.Resolution
import JetEnergy.Uncertainty.Table

/-!
  From an input row to an output row.

  A jet goes through the chain; then, if configured, its momentum is scaled,
  smeared if the jet has a generated match, and moved to an edge of its
  uncertainty band.

  * `Pipeline.process` does so for one row, and gives the pipeline afterwards,
    whose stages hold the last jet.
  * `correctRows` shares the rows out among workers, each with a copy of the
    pipeline.
-/
namespace JetEnergy.Batch

open Correction Uncertainty Resolution

/-- What an uncertainty table is used for. -/
structure Shifting where
  table : Uncertainty.Table
  systematic : Systematic

/-- Smearing with factors from a source and a seed. -/
structure Smearing where
  smearer : Smearer
  seed : UInt64
  draw : Draw

/-- What happens to every jet. -/
structure Pipeline where
  chain : Chain Correction.Table
  scale : Option Scale := none
  smearing : Option Smearing := none
  shifting : Option Shifting := none

/-- The factor for a jet in direction `eta` whose match has momentum `genPt`.
    It depends on the seed and the number of the row, not on other rows. -/
def Smearing.factor (s : Smearing) (line : Nat) (genPt eta : Float) : Float :=
  (s.smearer.spread genPt eta).factor s.draw (s.seed + UInt64.ofNat line)

namespace Pipeline

/-- The factor of the residual scale, if there is one. -/
def scaleFactor? (p : Pipeline) (pt : Float) : Option Float :=
  p.scale.map (·.factor pt)

/-- The smearing factor of a row, if it is smeared. -/
def smearFactor? (p : Pipeline) (row : InputRow) : Option Float :=
  match p.smearing, row.genPt with
  | some s, some genPt => some (s.factor row.line genPt row.jet.eta)
  | _, _ => none

/-- A momentum times a factor, if there is one. -/
def times (pt : Float) : Option Float → Float
  | some factor => pt * factor
  | none => pt

/-- The band of a jet and its momentum after the shift. -/
def shift (p : Pipeline) (jet : Jet) : Except Halt (Option (Band Float) × Float) :=
  match p.shifting with
  | none => .ok (none, jet.pt)
  | some s =>
    match s.table.band jet with
    | .error h => .error h
    | .ok result => (s.table.shift jet s.systematic).map (result.band?, ·)

/-- An output row with nothing but what the input row and the chain gave. -/
def bare (row : InputRow) (passage : Passage) : OutputRow :=
  { line := row.line
    jet := row.jet
    genPt := row.genPt
    status := passage.outcome.label
    failedStage := passage.failedStage }

/-- The output row of a jet that the chain gave momentum `pt`. -/
def finish (p : Pipeline) (row : InputRow) (out : OutputRow) (pt : Float) :
    Except Halt OutputRow :=
  let scaleFactor := p.scaleFactor? pt
  let corrected := times pt scaleFactor
  let smearFactor := p.smearFactor? row
  match p.shift (row.jet.withPt (times corrected smearFactor)) with
  | .error h => .error h
  | .ok (band, final) =>
    .ok { out with
      correctedPt := some corrected
      scaleFactor
      smearFactor
      uncertaintyLow := band.map (·.low)
      uncertaintyHigh := band.map (·.high)
      finalPt := some final }

/-- The output row of an input row, and the pipeline afterwards. -/
def process (p : Pipeline) (row : InputRow) : Except Halt (OutputRow × Pipeline) :=
  let (passage, chain) := p.chain.run row.jet
  let out := bare row passage
  let after := { p with chain }
  match passage.outcome.value? with
  | none => .ok (out, after)
  | some pt => (p.finish row out pt).map (·, after)

/-- The output rows of several input rows, one after the other. -/
def processAll : Pipeline → List InputRow → Except Halt (List OutputRow)
  | _, [] => .ok []
  | p, row :: rows =>
    match p.process row with
    | .error h => .error h
    | .ok (out, p) => (p.processAll rows).map (out :: ·)

end Pipeline

/-! ## Sharing out -/

/-- A list cut into pieces of `size + 1`, the last one shorter if need be. -/
def shares {α : Type} (size : Nat) : List α → List (List α)
  | [] => []
  | a :: rest => (a :: rest.take size) :: shares size (rest.drop size)
termination_by as => as.length
decreasing_by simp only [List.length_drop, List.length_cons]; omega

/-- The number of workers if none is asked for. -/
def defaultWorkers : Nat := 4

/-- The output rows of several input rows, in order. The rows are shared out
    among workers, each of which starts with the pipeline as it is; asking for
    none leaves the number open. -/
def correctRows (p : Pipeline) (rows : List InputRow) (workers : Option Nat) :
    Except Halt (List OutputRow) :=
  let workers := match workers with
    | some (n + 1) => n + 1
    | _ => defaultWorkers
  let tasks := (shares (rows.length / workers) rows).map fun share =>
    Task.spawn fun _ => p.processAll share
  (tasks.mapM Task.get).map List.flatten

end JetEnergy.Batch
