import JetEnergy.Formula.Compile

/-!
  The residual scale: a factor applied to the momentum that a chain gives.

  It is a formula of the momentum with parameters of its own, not a table, and
  it is not held within the range of momenta it was fitted in.
-/
namespace JetEnergy.Correction

/-- A factor that depends on the momentum alone. -/
structure Scale where
  formula : Formula
  parameters : List Float

namespace Scale

/-- The scale of a formula in `x`, the momentum. -/
def compile (formula : List Char) (parameters : List Float) :
    Except Formula.FormulaError Scale :=
  (Formula.compile formula 1).map (⟨·, parameters⟩)

/-- The factor at a momentum. -/
def factor (s : Scale) (pt : Float) : Float :=
  s.formula.value [pt] s.parameters

/-- The scaled momentum. -/
def apply (s : Scale) (pt : Float) : Float :=
  pt * s.factor pt

/-- The shape of the residual for small-radius jets with subtracted
    constituents. -/
def residualFormula : String := "[3] + ([0]-[3]) / (1.0 + pow(x/[2],[1]))"

/-- The fitted parameters of the residual. -/
def residualParameters : List Float := [2.27008, 0.918625, 1.43067, 1.00002]

/-- The residual scale. -/
def residual : Except Formula.FormulaError Scale :=
  compile residualFormula.toList residualParameters

end Scale

end JetEnergy.Correction
