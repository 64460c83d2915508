import JetEnergy.Formula.Expr

/-!
  Formulas as programs for a stack.

  * `Expr.code` lists the operations of a tree, operands first.
  * `run` executes code on a stack of limited room. An operation without
    enough operands and a push without room are faults of their own.
  * A `Program` carries its code with the room it needs, counted in advance;
    there is always room for `inlineRoom` values.
-/
namespace JetEnergy.Formula

/-- One step of a program. -/
inductive Instruction where
  | number (value : Float)
  | var (index : Nat)
  | param (index : Nat)
  | unary (op : UnaryOp)
  | binary (op : BinaryOp)
  | gaussian
  | gaussianNorm
  deriving Repr

namespace Instruction

/-- How many values a step takes from the stack. -/
def takes : Instruction → Nat
  | number _ | var _ | param _ => 0
  | unary _ => 1
  | binary _ => 2
  | gaussian => 3
  | gaussianNorm => 4

end Instruction

/-- A list of steps. -/
abbrev Code := List Instruction

/-- The steps of a tree: those of its operands from left to right, then its
    own. -/
def Expr.code : Expr → Code
  | number v => [.number v]
  | var i => [.var i]
  | param i => [.param i]
  | unary op a => a.code ++ [.unary op]
  | binary op a b => a.code ++ b.code ++ [.binary op]
  | gaussian x m s => x.code ++ m.code ++ s.code ++ [.gaussian]
  | gaussianNorm x m s n => x.code ++ m.code ++ s.code ++ n.code ++ [.gaussianNorm]

/-! ## Execution -/

/-- What can go wrong with a stack. -/
inductive StackFault where
  /-- a step takes more values than there are -/
  | underflow
  /-- a step pushes a value for which there is no room -/
  | overflow
  /-- the program does not end with exactly one value -/
  | unbalanced
  deriving DecidableEq, Repr

/-- A value on top of a stack with room for `room` values. -/
def push (room : Nat) (v : Float) (stack : List Float) : Except StackFault (List Float) :=
  if stack.length < room then .ok (v :: stack) else .error .overflow

/-- One step on a stack, its top first. -/
def Instruction.step (env : Environment) (room : Nat) :
    Instruction → List Float → Except StackFault (List Float)
  | number v, stack => push room v stack
  | var i, stack => push room (env.var i) stack
  | param i, stack => push room (env.param i) stack
  | unary op, a :: stack => push room (op.apply a) stack
  | binary op, b :: a :: stack => push room (op.apply a b) stack
  | gaussian, s :: m :: x :: stack => push room (Formula.gaussian x m s false) stack
  | gaussianNorm, n :: s :: m :: x :: stack => push room (Formula.gaussian x m s (n != 0)) stack
  | _, _ => .error .underflow

/-- Steps one after the other. -/
def run (env : Environment) (room : Nat) : Code → List Float → Except StackFault (List Float)
  | [], stack => .ok stack
  | i :: code, stack =>
    match i.step env room stack with
    | .error fault => .error fault
    | .ok stack => run env room code stack

/-- The value that code leaves on an empty stack. -/
def result (env : Environment) (room : Nat) (code : Code) : Except StackFault Float :=
  match run env room code [] with
  | .error fault => .error fault
  | .ok [v] => .ok v
  | .ok _ => .error .unbalanced

/-! ## Programs -/

/-- The greatest height of the stack while code runs that starts at height
    `height`; `peak` is the greatest so far. -/
def peakHeight (height peak : Nat) : Code → Nat
  | [] => peak
  | i :: code =>
    let height := height + 1 - i.takes
    peakHeight height (max peak height) code

/-- The greatest parameter index in code, if there is one. -/
def greatestParam? : Code → Option Nat
  | [] => none
  | .param i :: code => some ((greatestParam? code).elim i (max i))
  | _ :: code => greatestParam? code

/-- Code with the greatest height of its stack and the greatest parameter it
    reads. -/
structure Program where
  code : Code
  height : Nat
  greatest : Option Nat
  deriving Repr

namespace Program

/-- The program of a tree. -/
def ofExpr (e : Expr) : Program :=
  ⟨e.code, peakHeight 0 0 e.code, greatestParam? e.code⟩

/-- The room that every program has. -/
def inlineRoom : Nat := 32

/-- The room for a program's stack. -/
def room (p : Program) : Nat :=
  if p.height ≤ inlineRoom then inlineRoom else p.height

/-- The value of a program, not a number after a fault. -/
def value (p : Program) (env : Environment) : Float :=
  match result env p.room p.code with
  | .ok v => v
  | .error _ => 0 / 0

end Program

end JetEnergy.Formula
