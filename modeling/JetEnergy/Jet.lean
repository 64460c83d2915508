/-!
  Jets and what can be read off them.

  * `Jet` holds the kinematics of a jet and the pile-up density of its event.
  * `Observable` names a column of a correction file; a name outside the five
    known ones stands for `unnamed`, which reads as 0.
-/
namespace JetEnergy

/-- The kinematics of one jet, with the pile-up density of its event. -/
structure Jet where
  pt : Float
  eta : Float
  phi : Float
  area : Float
  rho : Float
  deriving Repr

/-- The jet with all observables at 0. -/
def Jet.zero : Jet := ⟨0, 0, 0, 0, 0⟩

/-- The same jet with another transverse momentum. -/
def Jet.withPt (jet : Jet) (pt : Float) : Jet :=
  { jet with pt }

/-- What a column of a correction file refers to. -/
inductive Observable where
  | unnamed
  | pt
  | eta
  | phi
  | area
  | rho
  deriving DecidableEq, Repr

namespace Observable

/-- The spelling in correction files. -/
def name : Observable → String
  | unnamed => "None"
  | pt => "JetPt"
  | eta => "JetEta"
  | phi => "JetPhi"
  | area => "JetA"
  | rho => "Rho"

/-- The observables that a file can name. -/
def named : List Observable :=
  [pt, eta, phi, area, rho]

/-- The observable of a spelling, letter for letter. -/
def ofName? (spelling : String) : Option Observable :=
  named.find? fun o => o.name == spelling

end Observable

/-- The value of an observable. -/
def Jet.value (jet : Jet) : Observable → Float
  | .unnamed => 0
  | .pt => jet.pt
  | .eta => jet.eta
  | .phi => jet.phi
  | .area => jet.area
  | .rho => jet.rho

end JetEnergy
