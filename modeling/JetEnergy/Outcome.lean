/-!
  What a correction gives for a jet.

  Every failure is an outcome, not an error: the caller decides whether to skip
  the jet or to leave it as it is.
-/
namespace JetEnergy

/-- The outcome of correcting one jet. -/
inductive Outcome where
  | value (x : Float)
  /-- no bin contains the jet -/
  | noMatch
  /-- the formula of the jet's bin depends on nothing -/
  | noDependencies
  /-- the formula of the jet's bin depends on more than four observables -/
  | tooManyDependencies (count : Nat)
  /-- a factor or a momentum came out negative -/
  | negative (x : Float)
  deriving Repr

namespace Outcome

/-- The value of a success. -/
def value? : Outcome → Option Float
  | value x => some x
  | _ => none

/-- The word for an outcome in tables and messages. -/
def label : Outcome → String
  | value _ => "ok"
  | noMatch => "no_match"
  | noDependencies => "no_dependencies"
  | tooManyDependencies _ => "too_many_dependencies"
  | negative _ => "negative"

/-- A negative value counts as a failure. -/
def refuseNegative : Outcome → Outcome
  | value x => if x < 0 then negative x else value x
  | o => o

end Outcome

/-- What stops the program, so that it answers nothing: an access past the end
    of a list of fields or nodes, or a sum that is no machine word. -/
inductive Halt where
  /-- The row on line `line` ends before the bounds of its `bin`-th bin. -/
  | missingBound (line bin : Nat)
  /-- The only node of a record is neither above nor below the momentum, which
      happens to a momentum that is not a number. -/
  | missingNode
  /-- The widths in force for the row on line `line` ask for more fields than a
      word can count. -/
  | tooWide (line : Nat)
  /-- The greatest parameter of a formula has the greatest word as its index, so
      its slots cannot be counted. -/
  | tooManySlots
  deriving DecidableEq, Repr

/-- The words for a stop. -/
def Halt.message : Halt → String
  | missingBound line bin => s!"the row on line {line} ends before the bounds of bin {bin + 1}"
  | missingNode => "a momentum that is not a number has no place at a single node"
  | tooWide line => s!"the row on line {line} must have more fields than a word can count"
  | tooManySlots => "a formula has more parameters than a word can count"

end JetEnergy
