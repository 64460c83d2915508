import JetEnergy.Decimal.Style

/-!
  Formulas as trees, and their values.

  * `Expr` is a tree over numbers, variables, parameters and operations, each
    operation with as many operands as it takes.
  * `Expr.value` is its value in an environment. Both operands of every
    operation are evaluated, `&&` and `||` included.
  * A variable or parameter that an environment lacks reads as 0.
-/
namespace JetEnergy.Formula

/-! ## Operations -/

/-- The operations on one number. -/
inductive UnaryOp where
  | neg | not | exp | log | log10 | sqrt | abs | sin | cos | tan | atan | sq
  deriving DecidableEq, Repr

/-- The operations on two numbers. -/
inductive BinaryOp where
  | add | sub | mul | div | pow
  | lt | gt | le | ge | eq | ne
  | and | or
  | atan2 | min | max
  deriving DecidableEq, Repr

/-- 1 for true, 0 for false. -/
def truth (b : Bool) : Float :=
  if b then 1 else 0

/-- The value of an operation on one number; `!` holds of zeros only. -/
def UnaryOp.apply : UnaryOp → Float → Float
  | neg, x => -x
  | not, x => truth (x == 0)
  | exp, x => x.exp
  | log, x => x.log
  | log10, x => x.log10
  | sqrt, x => x.sqrt
  | abs, x => x.abs
  | sin, x => x.sin
  | cos, x => x.cos
  | tan, x => x.tan
  | atan, x => x.atan
  | sq, x => x * x

/-- The lesser of two numbers; a number wins over what is none. -/
def lesser (x y : Float) : Float :=
  if x.isNaN then y else if y.isNaN then x else if y < x then y else x

/-- The greater of two numbers; a number wins over what is none. -/
def greater (x y : Float) : Float :=
  if x.isNaN then y else if y.isNaN then x else if x < y then y else x

/-- The value of an operation on two numbers. Comparisons and connectives give
    1 or 0, and every number but a zero counts as true. -/
def BinaryOp.apply : BinaryOp → Float → Float → Float
  | add, x, y => x + y
  | sub, x, y => x - y
  | mul, x, y => x * y
  | div, x, y => x / y
  | pow, x, y => x.pow y
  | lt, x, y => truth (x < y)
  | gt, x, y => truth (x > y)
  | le, x, y => truth (x ≤ y)
  | ge, x, y => truth (x ≥ y)
  | eq, x, y => truth (x == y)
  | ne, x, y => truth (x != y)
  | and, x, y => truth (x != 0 && y != 0)
  | or, x, y => truth (x != 0 || y != 0)
  | atan2, x, y => x.atan2 y
  | min, x, y => lesser x y
  | max, x, y => greater x y

/-- The ratio of a circle's circumference to its diameter. -/
def pi : Float := 3.14159265358979323846

/-- The Gaussian `exp (-((x - mean) / sigma) ^ 2 / 2)`, divided by its integral
    if `normalized`; 0 for a width of zero. -/
def gaussian (x mean sigma : Float) (normalized : Bool) : Float :=
  if sigma == 0 then 0
  else
    let arg := (x - mean) / sigma
    let density := (-0.5 * arg * arg).exp
    if normalized then density / ((2 * pi).sqrt * sigma) else density

/-! ## Trees -/

/-- A formula as a tree. -/
inductive Expr where
  | number (value : Float)
  | var (index : Nat)
  | param (index : Nat)
  | unary (op : UnaryOp) (operand : Expr)
  | binary (op : BinaryOp) (left right : Expr)
  | gaussian (x mean sigma : Expr)
  /-- the Gaussian with a flag that asks for the normalized one -/
  | gaussianNorm (x mean sigma flag : Expr)
  deriving Repr

/-- The values that variables and parameters read. -/
structure Environment where
  var : Nat → Float
  param : Nat → Float

namespace Environment

/-- The entry of a list, 0 past its end. -/
def entry (values : List Float) (i : Nat) : Float :=
  values.getD i 0

/-- The environment of a list of variables and a list of parameters. -/
def ofLists (vars params : List Float) : Environment :=
  ⟨entry vars, entry params⟩

/-- The environment in which one more parameter follows the list. -/
def withExtra (vars params : List Float) (extra : Float) : Environment :=
  ⟨entry vars, fun i => if i = params.length then extra else entry params i⟩

end Environment

/-- The value of a tree. -/
def Expr.value (env : Environment) : Expr → Float
  | number v => v
  | var i => env.var i
  | param i => env.param i
  | unary op a => op.apply (a.value env)
  | binary op a b => op.apply (a.value env) (b.value env)
  | gaussian x m s => Formula.gaussian (x.value env) (m.value env) (s.value env) false
  | gaussianNorm x m s n =>
    Formula.gaussian (x.value env) (m.value env) (s.value env) (n.value env != 0)

/-! ## Trees as text -/

/-- The word for an operation on one number. -/
def UnaryOp.title : UnaryOp → String
  | neg => "Neg" | not => "Not" | exp => "Exp" | log => "Log" | log10 => "Log10"
  | sqrt => "Sqrt" | abs => "Abs" | sin => "Sin" | cos => "Cos" | tan => "Tan"
  | atan => "Atan" | sq => "Sq"

/-- The word for an operation on two numbers. -/
def BinaryOp.title : BinaryOp → String
  | add => "Add" | sub => "Sub" | mul => "Mul" | div => "Div" | pow => "Pow"
  | lt => "Lt" | gt => "Gt" | le => "Le" | ge => "Ge" | eq => "Eq" | ne => "Ne"
  | and => "And" | or => "Or" | atan2 => "Atan2" | min => "Min" | max => "Max"

/-- A tree with its operations in front of their operands, in parentheses. -/
def Expr.describe : Expr → String
  | number v => Decimal.messageStyle.write v
  | var i => s!"v{i}"
  | param i => s!"p{i}"
  | unary op a => s!"({op.title} {a.describe})"
  | binary op a b => s!"({op.title} {a.describe} {b.describe})"
  | gaussian x m s => s!"(Gaus {x.describe} {m.describe} {s.describe})"
  | gaussianNorm x m s n =>
    s!"(GausNorm {x.describe} {m.describe} {s.describe} {n.describe})"

end JetEnergy.Formula
