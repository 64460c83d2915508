import JetEnergy.Jet
import JetEnergy.Decimal.Numeral
import JetEnergy.TableFile.Line

/-!
  Headings, and the context in which rows are read.

      number-of-bins bin … number-of-dependencies dependency … formula …

  * `Heading.ofFields?` decodes a heading that is long enough for the numbers
    it declares, and counts the observables it does not know.
  * A heading that is too short keeps the observables and the formula of the
    context, but the numbers it declares hold for the rows below it:
    `Context.narrow`.
-/
namespace JetEnergy.TableFile

/-- What a heading says: the observables of bins and dependencies, and the
    formula. -/
structure Heading where
  bins : List Observable
  dependencies : List Observable
  formula : List Char
  deriving DecidableEq, Repr

/-- A heading with the numbers of bin ranges and dependency ranges that a row
    carries. -/
structure Context extends Heading where
  binCount : Nat
  dependencyCount : Nat
  deriving DecidableEq, Repr

/-- The context that a heading opens. -/
def Heading.context (h : Heading) : Context :=
  { h with binCount := h.bins.length, dependencyCount := h.dependencies.length }

/-- The count that a field declares, unless it is negative. -/
def count? (field : Field) : Option Nat :=
  match Decimal.leadingInt field with
  | .ofNat n => some n
  | .negSucc _ => none

/-- The number of bins that a heading declares. -/
def declaredBins? (fields : List Field) : Option Nat :=
  fields.head?.bind count?

/-- The number of dependencies that a heading declares, after its bins. -/
def declaredDependencies? (fields : List Field) : Option Nat :=
  (declaredBins? fields).bind fun bins => fields[bins + 1]?.bind count?

/-- The observable of a field. -/
def observable? (field : Field) : Option Observable :=
  Observable.ofName? (String.ofList field)

/-- The number of fields that name no observable. -/
def unknownCount (fields : List Field) : Nat :=
  fields.countP fun f => (observable? f).isNone

/-- The heading in a list of fields, and the number of observables it does not
    know. -/
def Heading.ofFields? (fields : List Field) : Option (Heading × Nat) :=
  match declaredBins? fields, declaredDependencies? fields with
  | some bins, some dependencies =>
    fields[bins + dependencies + 2]?.map fun formula =>
      let binFields := (fields.drop 1).take bins
      let dependencyFields := (fields.drop (bins + 2)).take dependencies
      let decode (f : Field) := (observable? f).getD .unnamed
      (⟨binFields.map decode, dependencyFields.map decode, formula⟩,
        unknownCount (binFields ++ dependencyFields))
  | _, _ => none

/-- The context under a heading that is too short: the numbers it declares
    replace those in force. -/
def Context.narrow (c : Context) (fields : List Field) : Context :=
  { c with
    binCount := (declaredBins? fields).getD c.binCount
    dependencyCount := (declaredDependencies? fields).getD c.dependencyCount }

end JetEnergy.TableFile
