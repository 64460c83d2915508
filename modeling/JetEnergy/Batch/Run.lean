import JetEnergy.Batch.Pipeline
import JetEnergy.Loading

/-!
  A batch run.

  * `Settings.pipeline` loads what the corrections need: the chain first, then
    the residual scale, then the uncertainty table.
  * `Settings.run` reads the jets after that and corrects them all.
  * `Settings.stops` are the steps of a run that fail, in their order, each taken
    by itself.
-/
namespace JetEnergy.Batch

open Correction Uncertainty Resolution

/-- What to do in a batch run, with the names of its files. -/
structure Settings where
  jets : String
  /-- the correction files, in the order in which they are applied -/
  chain : List String
  uncertainty : Option String := none
  systematic : Systematic := .nominal
  residual : Bool := false
  smearing : Option Variation := none
  seed : UInt64
  workers : Option Nat := none

namespace Settings

/-- The pipeline of some settings; `draw` is the source of smearing factors. -/
def pipeline (s : Settings) (draw : Draw) (d : Directory) : Except (Stop Failure) Pipeline := do
  let chain ← Stop.ofLoad (Chain.load d s.chain)
  let scale ← Stop.ofFailure (Scale.residualIf s.residual)
  let table ← Table.loadFor d s.systematic s.uncertainty
  return {
    chain
    scale
    smearing := s.smearing.map fun variation =>
      { smearer := { variation }, seed := s.seed, draw }
    shifting := table.map fun table => { table, systematic := s.systematic } }

end Settings

/-- What a batch run gives. -/
structure Run where
  ingested : Ingested
  rows : List OutputRow

/-- A batch run in a directory. -/
def Settings.run (s : Settings) (draw : Draw) (d : Directory) : Except (Stop Failure) Run := do
  let pipeline ← s.pipeline draw d
  let ingested ← Stop.ofFailure (load d s.jets)
  let rows ← Stop.ofHalt (correctRows pipeline ingested.rows s.workers)
  return { ingested, rows }

/-- The steps of a run that fail, each taken by itself: the correction files from
    left to right, the uncertainty file or the variation that asks for one, and
    the jets. -/
def Settings.stops (s : Settings) (d : Directory) : List (Stop Failure) :=
  (Chain.stops d s.chain).map Stop.inRun ++
    (errorOf? (Uncertainty.Table.loadFor d s.systematic s.uncertainty)).toList ++
    ((errorOf? (load d s.jets)).map .failure).toList

end JetEnergy.Batch
