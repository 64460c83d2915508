import JetEnergy.Jet

/-!
  Windows on one observable.

  * `Window.ofBounds` puts two bounds in order.
  * `contains` holds of a value that is not outside, so a value that is not a
    number lies in every window.
  * `clamp` moves a value outside to the bound it passed.
-/
namespace JetEnergy

/-- A range of values of one observable, both bounds included. -/
structure Window where
  observable : Observable
  low : Float
  high : Float
  deriving Repr

namespace Window

/-- The window between two bounds given in either order. -/
def ofBounds (observable : Observable) (a b : Float) : Window :=
  if b < a then ⟨observable, b, a⟩ else ⟨observable, a, b⟩

/-- Whether a value is not outside the window. -/
def contains (w : Window) (x : Float) : Bool :=
  !(x < w.low || w.high < x)

/-- The value itself inside the window, and the nearer bound outside. -/
def clamp (w : Window) (x : Float) : Float :=
  if x < w.low then w.low else if w.high < x then w.high else x

/-- Whether a jet's value of the observable lies in the window. -/
def holds (w : Window) (jet : Jet) : Bool :=
  w.contains (jet.value w.observable)

/-- A jet's value of the observable, moved into the window. -/
def read (w : Window) (jet : Jet) : Float :=
  w.clamp (jet.value w.observable)

/-- The windows of several observables, each with its two bounds; whichever
    list is longer, its rest is left out. -/
def ofPairs (observables : List Observable) (bounds : List (Float × Float)) : List Window :=
  (observables.zip bounds).map fun (o, a, b) => ofBounds o a b

end Window

/-- A list cut into pairs of neighbours; a last element without one is left
    out. -/
def pairUp {α : Type} : List α → List (α × α)
  | a :: b :: rest => (a, b) :: pairUp rest
  | _ => []

end JetEnergy
