import JetEnergy.Window
import JetEnergy.Outcome
import JetEnergy.Formula.Compile
import JetEnergy.TableFile.Scan

/-!
  The rows of a correction file.

      low high (per bin)  count  low high (per dependency)  parameter …

  `count` is the number of fields after it. In some files it follows the
  dependencies instead; the parameters start at the same field either way.

  * `Layout.ofFields` tells the two layouts apart.
  * `Ranges.ofRow?` decodes a row that is long enough for its context. It adds up
    the widths in force as a machine word, and halts if they do not fit in one.
  * `Entry.outcome` evaluates a decoded row for a jet.
-/
namespace JetEnergy.Correction

open TableFile

/-! ## Layouts -/

/-- Where the count of a row stands. -/
inductive Layout where
  | afterBins
  | afterDependencies
  deriving DecidableEq, Repr

/-- Whether the first field is the number of fields after it. -/
def isCount : List Field → Bool
  | [] => false
  | f :: rest => Decimal.leadingInt f == rest.length

/-- Whether the two numbers after the first one are in descending order. -/
def descends : List Float → Bool
  | _ :: low :: high :: _ => high < low
  | _ => false

/-- The layout of the fields after the bins, for some dependencies: the count
    stands where it is right. If it is right in both places, it follows the
    bins unless the first dependency would descend then. -/
def Layout.ofFields (dependencies : Nat) (fields : List Field) : Layout :=
  if dependencies = 0 then .afterBins
  else
    match isCount fields, isCount (fields.drop (2 * dependencies)) with
    | false, true => .afterDependencies
    | true, true =>
      if descends (fields.map Decimal.leadingFloat) then .afterDependencies else .afterBins
    | _, _ => .afterBins

/-! ## Ranges and parameters -/

/-- The numbers of a row: its windows and its parameters. -/
structure Ranges where
  bins : List Window
  dependencies : List Window
  parameters : List Float

/-- The fewest fields of a row. The widths of a context are any numbers, so this
    need not be a word. -/
def leastFields (c : Context) : Nat :=
  2 * c.binCount + 2 * c.dependencyCount + 1

namespace Ranges

/-- The numbers in the fields of a row. The counts of its context say where they
    stand; an observable of the context without a range of its own has no
    window. -/
def ofFields (c : Context) (fields : List Field) : Ranges :=
  let numbers := fields.map Decimal.leadingFloat
  let afterBins := numbers.drop (2 * c.binCount)
  let first := match Layout.ofFields c.dependencyCount (fields.drop (2 * c.binCount)) with
    | .afterBins => afterBins.drop 1
    | .afterDependencies => afterBins
  { bins := Window.ofPairs c.bins (pairUp (numbers.take (2 * c.binCount)))
    dependencies := Window.ofPairs c.dependencies (pairUp (first.take (2 * c.dependencyCount)))
    parameters := numbers.drop (leastFields c) }

/-- The numbers of a row, if it is long enough. -/
def ofRow? (r : Row) : Except Halt (Option Ranges) :=
  if Decimal.indexBound ≤ leastFields r.context then .error (.tooWide r.line)
  else if r.fields.length < leastFields r.context then .ok none
  else .ok (some (ofFields r.context r.fields))

end Ranges

/-! ## Formulas -/

/-- The number of dependencies at which the last one is read as a parameter. -/
def foldedCount : Nat := 4

/-- The letter of the dependency that is read as a parameter. -/
def foldedLetter : Char := 't'

/-- The text of the formula of a row: with four dependencies the last one is
    the parameter after the row's own. -/
def formulaText (source : List Char) (ranges : Ranges) : List Char :=
  if ranges.dependencies.length = foldedCount then
    Formula.fold foldedLetter ranges.parameters.length source
  else source

/-- The number of variables of the formula of a row, between one and three. -/
def formulaArity (ranges : Ranges) : Nat :=
  max 1 (min ranges.dependencies.length Formula.greatestArity)

/-! ## Entries -/

/-- A row ready for use. -/
structure Entry extends Ranges where
  formula : Formula
  /-- the number of its line -/
  line : Nat

namespace Entry

/-- Whether the jet lies in every bin. -/
def holds (e : Entry) (jet : Jet) : Bool :=
  e.bins.all (·.holds jet)

/-- The value of the formula for a jet. Each dependency is moved into its
    window first; a fourth one is handed over as a further parameter. -/
def outcome (e : Entry) (jet : Jet) : Outcome :=
  match e.dependencies with
  | [] => .noDependencies
  | [x, y, z, t] =>
    .value (e.formula.valueWithExtra [x.read jet, y.read jet, z.read jet] e.parameters (t.read jet))
  | ds =>
    if foldedCount < ds.length then .tooManyDependencies ds.length
    else .value (e.formula.value (ds.map (·.read jet)) e.parameters)

end Entry

end JetEnergy.Correction
