import JetEnergy.Formula.Expr
import JetEnergy.Resolution

/-!
  A source of smearing factors.

  The seed is stirred into two words, and these become a normally distributed
  number by the method of Box and Muller. The same seed gives the same factor.
-/
namespace JetEnergy.Resolution

/-- A word in which every bit of the given one has its effect on every bit. -/
def stir (word : UInt64) : UInt64 :=
  let word := (word ^^^ (word >>> 30)) * 0xBF58476D1CE4E5B9
  let word := (word ^^^ (word >>> 27)) * 0x94D049BB133111EB
  word ^^^ (word >>> 31)

/-- The distance between the seeds of neighbouring words. -/
def stride : UInt64 := 0x9E3779B97F4A7C15

/-- The number above 0 and up to 1 that the upper 53 bits of a word stand for. -/
def unitNumber (word : UInt64) : Float :=
  ((word >>> 11).toFloat + 1) / 9007199254740992

/-- A normally distributed number around 0 with width 1. -/
def standardNormal (seed : UInt64) : Float :=
  let radius := (-2 * (unitNumber (stir (seed + stride))).log).sqrt
  let angle := 2 * Formula.pi * unitNumber (stir (seed + 2 * stride))
  radius * angle.cos

/-- Normally distributed factors around 1. -/
def normalDraw : Draw := fun seed width =>
  1 + width * standardNormal seed

end JetEnergy.Resolution
