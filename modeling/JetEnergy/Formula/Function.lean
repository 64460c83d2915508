import JetEnergy.Formula.Expr

/-!
  The named functions of formulas.

  * `Function.ofName?` knows each function by a short name and by a spelling
    in the namespace `TMath`.
  * `Function.call` builds the tree of a call, or says how many arguments the
    function takes.
-/
namespace JetEnergy.Formula

/-- A named function. -/
inductive Function where
  | unary (op : UnaryOp)
  | binary (op : BinaryOp)
  /-- with three arguments, or with a fourth that asks for normalization -/
  | gaussian
  deriving DecidableEq, Repr

namespace Function

/-- The functions by name. -/
def table : List (String × Function) :=
  [("exp", unary .exp), ("TMath::Exp", unary .exp),
   ("log", unary .log), ("TMath::Log", unary .log),
   ("log10", unary .log10), ("TMath::Log10", unary .log10),
   ("sqrt", unary .sqrt), ("TMath::Sqrt", unary .sqrt),
   ("abs", unary .abs), ("fabs", unary .abs), ("TMath::Abs", unary .abs),
   ("sin", unary .sin), ("TMath::Sin", unary .sin),
   ("cos", unary .cos), ("TMath::Cos", unary .cos),
   ("tan", unary .tan), ("TMath::Tan", unary .tan),
   ("atan", unary .atan), ("TMath::ATan", unary .atan),
   ("sq", unary .sq), ("TMath::Sq", unary .sq),
   ("pow", binary .pow), ("TMath::Power", binary .pow),
   ("atan2", binary .atan2), ("TMath::ATan2", binary .atan2),
   ("min", binary .min), ("TMath::Min", binary .min),
   ("max", binary .max), ("TMath::Max", binary .max),
   ("gaus", gaussian), ("TMath::Gaus", gaussian)]

/-- The function of a name. -/
def ofName? (name : String) : Option Function :=
  table.lookup name

/-- The tree of a call, or how many arguments the function takes. -/
def call : Function → List Expr → Except String Expr
  | unary op, [a] => .ok (.unary op a)
  | unary _, _ => .error "1 argument"
  | binary op, [a, b] => .ok (.binary op a b)
  | binary _, _ => .error "2 arguments"
  | gaussian, [x, mean, sigma] => .ok (.gaussian x mean sigma)
  | gaussian, [x, mean, sigma, flag] => .ok (.gaussianNorm x mean sigma flag)
  | gaussian, _ => .error "3 or 4 arguments"

end Function

end JetEnergy.Formula
