import JetEnergy.Jet

/-!
  The rows that go into a batch and come out of it.
-/
namespace JetEnergy.Batch

/-- A jet to be corrected. -/
structure InputRow where
  /-- the number of the row, the header being 1 -/
  line : Nat
  jet : Jet
  /-- the momentum of the matched generated jet -/
  genPt : Option Float
  deriving Repr

/-- A row that holds no jet, and why. -/
structure RejectedRow where
  line : Nat
  reason : String
  deriving DecidableEq, Repr

/-- A jet after its correction. What a step did not give is absent. -/
structure OutputRow where
  line : Nat
  jet : Jet
  genPt : Option Float
  status : String
  failedStage : Option Nat := none
  /-- the momentum after the chain, with the residual scale if there is one -/
  correctedPt : Option Float := none
  scaleFactor : Option Float := none
  smearFactor : Option Float := none
  uncertaintyLow : Option Float := none
  uncertaintyHigh : Option Float := none
  finalPt : Option Float := none
  deriving Repr

/-- Whether a row has a final momentum. -/
def OutputRow.isCorrected (r : OutputRow) : Bool :=
  r.finalPt.isSome

end JetEnergy.Batch
