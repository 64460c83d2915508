/-!
  Smearing of simulated jets.

  Simulated jets have a better resolution than real ones. Their momenta are
  multiplied with factors drawn around 1, with the width
  `√(max (s² - 1) 0) · σ(pt)`: `s` is the measured scale factor of the jet's
  direction, `σ` the simulated resolution.

  * `ScaleFactors.factor` looks a direction up in bins that exclude their upper
    ends; outside all bins it is 1.
  * `Function.value` is the resolution within the range of its fit.
  * `Smearer.spread` says whether there is anything to draw.
-/
namespace JetEnergy.Resolution

/-- The column of a scale-factor table. -/
inductive Variation where
  | nominal
  | low
  | high
  deriving DecidableEq, Repr

/-! ## Scale factors -/

/-- The scale factors from the direction `etaLow` to below `etaHigh`. -/
structure Bin where
  etaLow : Float
  etaHigh : Float
  nominal : Float
  low : Float
  high : Float
  deriving Repr

namespace Bin

/-- Whether a direction lies in a bin. -/
def contains (b : Bin) (eta : Float) : Bool :=
  b.etaLow ≤ eta && eta < b.etaHigh

/-- The scale factor of a column. -/
def factor (b : Bin) : Variation → Float
  | .nominal => b.nominal
  | .low => b.low
  | .high => b.high

end Bin

/-- A table of scale factors. -/
abbrev ScaleFactors := List Bin

namespace ScaleFactors

/-- The scale factor of a direction, from the first bin that contains it. -/
def factor (bins : ScaleFactors) (eta : Float) (v : Variation) : Float :=
  match bins.find? (·.contains eta) with
  | some b => b.factor v
  | none => 1

/-- The measured scale factors. -/
def measured : ScaleFactors := [
  ⟨-5.191, -3.139, 1.1922, 1.0434, 1.341⟩,
  ⟨-3.139, -2.964, 1.1869, 1.0626, 1.3112⟩,
  ⟨-2.964, -2.853, 1.7788, 1.578, 1.9796⟩,
  ⟨-2.853, -2.500, 1.3418, 1.1327, 1.5509⟩,
  ⟨-2.500, -2.322, 1.2963, 1.0592, 1.5334⟩,
  ⟨-2.322, -2.043, 1.1512, 1.0372, 1.2652⟩,
  ⟨-2.043, -1.930, 1.1426, 1.0212, 1.264⟩,
  ⟨-1.930, -1.740, 1.1000, 0.9921, 1.2079⟩,
  ⟨-1.740, -1.305, 1.1278, 1.0292, 1.2264⟩,
  ⟨-1.305, -1.131, 1.1609, 1.0584, 1.2634⟩,
  ⟨-1.131, -0.783, 1.1464, 1.0832, 1.2096⟩,
  ⟨-0.783, -0.522, 1.1948, 1.1296, 1.26⟩,
  ⟨-0.522, 0.000, 1.15958, 1.095, 1.224⟩,
  ⟨0.000, 0.522, 1.15958, 1.095, 1.224⟩,
  ⟨0.522, 0.783, 1.1948, 1.1296, 1.26⟩,
  ⟨0.783, 1.131, 1.1464, 1.0832, 1.2096⟩,
  ⟨1.131, 1.305, 1.1609, 1.0584, 1.2634⟩,
  ⟨1.305, 1.740, 1.1278, 1.0292, 1.2264⟩,
  ⟨1.740, 1.930, 1.1000, 0.9921, 1.2079⟩,
  ⟨1.930, 2.043, 1.1426, 1.0212, 1.264⟩,
  ⟨2.043, 2.322, 1.1512, 1.0372, 1.2652⟩,
  ⟨2.322, 2.500, 1.2963, 1.0592, 1.5334⟩,
  ⟨2.500, 2.853, 1.3418, 1.1327, 1.5509⟩,
  ⟨2.853, 2.964, 1.7788, 1.578, 1.9796⟩,
  ⟨2.964, 3.139, 1.1869, 1.0626, 1.3112⟩,
  ⟨3.139, 5.191, 1.1922, 1.0434, 1.341⟩]

end ScaleFactors

/-! ## Resolution -/

/-- The simulated relative resolution `√(alpha² + beta² / pt)`. -/
structure Function where
  alpha : Float
  beta : Float
  deriving Repr

namespace Function

/-- The fitted resolution. -/
def fitted : Function := ⟨0.0415552, 0.960013⟩

/-- The least momentum of the fit. -/
def leastPt : Float := 30

/-- The greatest momentum of the fit. -/
def greatestPt : Float := 800

/-- The resolution at a momentum. At an end of the fit's range and beyond, it
    is that of one unit inside. -/
def value (f : Function) (pt : Float) : Float :=
  let pt := if pt ≤ leastPt then leastPt + 1 else if greatestPt ≤ pt then greatestPt - 1 else pt
  (f.alpha * f.alpha + f.beta * f.beta / pt).sqrt

end Function

/-! ## Smearing -/

/-- What a smearing factor can be. -/
inductive Spread where
  /-- exactly 1 -/
  | none
  /-- drawn from the normal distribution around 1 with a positive finite width -/
  | normal (width : Float)
  deriving Repr

/-- What smearing needs to know. -/
structure Smearer where
  scaleFactors : ScaleFactors := .measured
  function : Function := .fitted
  variation : Variation

namespace Smearer

/-- The width of the factors at a reference momentum in a direction. A scale
    factor that is not a number asks for no smearing, as one below 1 does. -/
def width (s : Smearer) (pt eta : Float) : Float :=
  let factor := s.scaleFactors.factor eta s.variation
  let excess := factor * factor - 1
  (if 0 < excess then excess else 0).sqrt * s.function.value pt

/-- What the factors look like: a width of zero, or one that is not a finite
    number, leaves nothing to draw. -/
def spread (s : Smearer) (pt eta : Float) : Spread :=
  let width := s.width pt eta
  if 0 < width && width.isFinite then .normal width else .none

end Smearer

/-- A source of smearing factors: from a seed and a width to a factor. -/
abbrev Draw := UInt64 → Float → Float

/-- The factor of a spread. -/
def Spread.factor (draw : Draw) (seed : UInt64) : Spread → Float
  | none => 1
  | normal width => draw seed width

end JetEnergy.Resolution
