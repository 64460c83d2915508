import JetEnergy.Correction.Table

/-!
  Stages and chains of corrections.

  * A stage corrects the jet that was last put into it: it multiplies the
    momentum with the factor of its table.
  * A chain puts the momentum that one stage gives into the next. The first
    failure ends it.
-/
namespace JetEnergy.Correction

/-! ## Stages -/

/-- What can correct a momentum: the corrected momentum of every jet. -/
class Corrector (σ : Type) where
  corrected : σ → Jet → Outcome

/-- The corrected momentum of a jet by the factor of a table. A negative factor
    is a failure. -/
def Table.corrected (t : Table) (jet : Jet) : Outcome :=
  match (t.outcome jet).refuseNegative with
  | .value factor => .value (jet.pt * factor)
  | failure => failure

instance : Corrector Table := ⟨Table.corrected⟩

/-- A stage of a chain, with the jet that was last put into it. -/
structure Stage (σ : Type) where
  level : σ
  jet : Jet := .zero

namespace Stage

variable {σ : Type}

/-- The stage with another jet in it. -/
def put (s : Stage σ) (jet : Jet) : Stage σ :=
  { s with jet }

/-- The corrected momentum of the jet in a stage. -/
def corrected [Corrector σ] (s : Stage σ) : Outcome :=
  Corrector.corrected s.level s.jet

end Stage

/-! ## Chains -/

/-- How a jet fared in a chain. -/
structure Passage where
  /-- the momentum after the last stage, or the first failure -/
  outcome : Outcome
  /-- the position of the stage that failed -/
  failedStage : Option Nat
  stagesRun : Nat
  deriving Repr

/-- The same passage with one more stage in front that succeeded. -/
def Passage.afterStage (p : Passage) : Passage :=
  { p with failedStage := p.failedStage.map (· + 1), stagesRun := p.stagesRun + 1 }

/-- Stages in the order in which they are applied. -/
abbrev Chain (σ : Type) := List (Stage σ)

namespace Chain

variable {σ : Type} [Corrector σ]

/-- Sends a jet through a chain. The stages it reaches hold the jet they were
    given afterwards, with the momentum of the stage before. -/
def run : Chain σ → Jet → Passage × Chain σ
  | [], jet => (⟨.value jet.pt, none, 0⟩, [])
  | s :: rest, jet =>
    let s := s.put jet
    match s.corrected.refuseNegative with
    | .value pt =>
      let (passage, rest) := run rest (jet.withPt pt)
      (passage.afterStage, s :: rest)
    | failure => (⟨failure, some 0, 1⟩, s :: rest)

end Chain

end JetEnergy.Correction
