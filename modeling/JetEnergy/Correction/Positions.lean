import JetEnergy.Correction.Entry
import JetEnergy.TableFile.Positions

/-!
  Reading the rows of a correction file by positions.

  `guardedRanges` decodes a row through guarded accesses only.
-/
namespace JetEnergy.Correction

open TableFile

/-- Whether the field at a position is the number of fields after it. -/
def guardedIsCount (fields : List Field) (i : Nat) : Except Fault Bool := do
  match Decimal.leadingInt (← entry fields i) with
  | .ofNat n => return n == (← less (← less fields.length i) 1)
  | .negSucc _ => return false

/-- The layout of a row, by positions. -/
def guardedLayout (bins dependencies : Nat) (fields : List Field) (numbers : List Float) :
    Except Fault Layout :=
  if dependencies = 0 then .ok .afterBins
  else do
    let afterBins ← guardedIsCount fields (2 * bins)
    let afterDependencies ← guardedIsCount fields (2 * bins + 2 * dependencies)
    let low ← entry numbers (2 * bins + 1)
    let high ← entry numbers (2 * bins + 2)
    match afterBins, afterDependencies with
    | false, true => return .afterDependencies
    | true, true => if high < low then return .afterDependencies else return .afterBins
    | _, _ => return .afterBins

/-- A list cut into lists of two; a last element without a neighbour is left
    out. -/
def chunks {α : Type} : List α → List (List α)
  | a :: b :: rest => [a, b] :: chunks rest
  | _ => []

/-- The windows of observables between numbers, by positions. -/
def guardedWindows (observables : List Observable) (numbers : List Float) :
    Except Fault (List Window) :=
  (observables.zip (chunks numbers)).mapM fun (observable, pair) =>
    return Window.ofBounds observable (← entry pair 0) (← entry pair 1)

/-- The position at which the dependencies start. -/
def Layout.start (bins : Nat) : Layout → Nat
  | afterBins => 2 * bins + 1
  | afterDependencies => 2 * bins

/-- The numbers of a row, by positions. -/
def guardedRanges (r : Row) : Except Fault (Option Ranges) := do
  let bins := r.context.binCount
  let dependencies := r.context.dependencyCount
  let least ← word (2 * bins + 2 * dependencies + 1)
  if r.fields.length < least then return none
  else
    let numbers := r.fields.map Decimal.leadingFloat
    let binWindows ← guardedWindows r.context.bins (← slice numbers 0 (2 * bins))
    let start := (← guardedLayout bins dependencies r.fields numbers).start bins
    let dependencyWindows ← guardedWindows r.context.dependencies
      (← slice numbers start (← word (start + 2 * dependencies)))
    let parameters ← slice numbers least numbers.length
    return some ⟨binWindows, dependencyWindows, parameters⟩

end JetEnergy.Correction
