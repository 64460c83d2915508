import JetEnergy.Formula.Lexer
import JetEnergy.Formula.Parser
import JetEnergy.Formula.Program
import JetEnergy.Outcome

/-!
  Formulas ready for use.

  * `compile` turns a text into a `Formula` of one to three variables: its tree
    and the program of the tree.
  * `fold` turns a variable that stands alone into a parameter. That is how
    a fourth variable reaches a formula that has room for three.
-/
namespace JetEnergy

open Formula

/-- A formula with its number of variables. -/
structure Formula where
  source : List Char
  arity : Nat
  tree : Expr
  program : Program := Program.ofExpr tree
  program_eq : program = Program.ofExpr tree := by rfl

namespace Formula

/-- The tree of a text over the variables of a scope. -/
def treeOf (scope : Scope) (source : List Char) : Except FormulaError Expr :=
  match tokens source with
  | .error e => .error e
  | .ok ts => parse scope (Text.Utf8.size source) ts

/-- The formula of a text, of `arity` variables. -/
def compile (source : List Char) (arity : Nat) : Except FormulaError Formula :=
  if 1 ≤ arity ∧ arity ≤ greatestArity then
    match treeOf (.standard arity) source with
    | .error e => .error e
    | .ok tree => .ok { source, arity, tree }
  else .error ⟨0, .unsupportedArity arity⟩

/-- The number of parameters that can make a difference: one more than the
    greatest index, if that is a word. -/
def slots (f : Formula) : Except Halt Nat :=
  match f.program.greatest with
  | none => .ok 0
  | some i => if i + 1 < Decimal.indexBound then .ok (i + 1) else .error .tooManySlots

/-- The value for given variables and parameters. -/
def value (f : Formula) (vars params : List Float) : Float :=
  f.program.value (.ofLists vars params)

/-- The value with one more parameter after the list. -/
def valueWithExtra (f : Formula) (vars params : List Float) (extra : Float) : Float :=
  f.program.value (.withExtra vars params extra)

/-! ## Folding a variable into a parameter -/

/-- The reference to a parameter. -/
def referenceTo (slot : Nat) : List Char :=
  '[' :: Nat.toDigits 10 slot ++ [']']

/-- A text in which `letter`, wherever it stands alone, is a reference to a
    parameter; `previous` is the character before the text. A letter stands
    alone if it has no ASCII letter beside it. -/
def foldAfter (letter : Char) (slot : Nat) (previous : Option Char) : List Char → List Char
  | [] => []
  | c :: rest =>
    let alone := c = letter && !previous.any Char.isAlpha && !rest.head?.any Char.isAlpha
    (if alone then referenceTo slot else [c]) ++ foldAfter letter slot (some c) rest

/-- A formula whose variable `letter` is parameter `slot`. -/
def fold (letter : Char) (slot : Nat) (source : List Char) : List Char :=
  foldAfter letter slot none source

end Formula

end JetEnergy
