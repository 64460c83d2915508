import JetEnergy.Formula.Token
import JetEnergy.Formula.Function

/-!
  From tokens to trees.

  Operators in layers, loosest first:

      ||    &&    < > <= >= == !=    + -    * /    unary - + !    ^

  The first five layers group to the left. The exponent of `^` is a unary
  layer again, so `2^-3^2` is `2^(-(3^2))` and `-x^2` is `-(x^2)`.

  * `layer`, `operands`, `unary`, `power`, `primary`, `arguments` and
    `someArguments` read one construct each at the start of a list of tokens;
    what follows it is returned with a proof that it is shorter.
  * `parse` reads a whole list.
-/
namespace JetEnergy.Formula

/-! ## Names -/

/-- The names of the variables in order, and how many of them the formula has. -/
structure Scope where
  names : List String
  arity : Nat

/-- The scope of a correction formula: the first `arity` of x, y and z. -/
def Scope.standard (arity : Nat) : Scope :=
  ⟨["x", "y", "z"], arity⟩

namespace Scope

/-- The variable at a position, if the formula has it. -/
def var (scope : Scope) (name : String) (index : Nat) : Except Cause Expr :=
  if index < scope.arity then .ok (.var index)
  else .error (.missingVariable name (index + 1) scope.arity)

/-- The tree of a name that stands alone: a variable, π, or one of the shapes
    `gaus` and `expo`, whose parameters start at `[0]`. -/
def resolve (scope : Scope) (name : String) : Except Cause Expr :=
  match scope.names.idxOf? name with
  | some index => scope.var name index
  | none =>
    if name = "pi" ∨ name = "TMath::Pi" then .ok (.number pi)
    else if name = "gaus" then
      (scope.var name 0).map fun x =>
        .binary .mul (.param 0) (.gaussian x (.param 1) (.param 2))
    else if name = "expo" then
      (scope.var name 0).map fun x =>
        .unary .exp (.binary .add (.param 0) (.binary .mul (.param 1) x))
    else .error (.unknownName name)

end Scope

/-- The tree of a call of a name. -/
def callNamed (name : String) (args : List Expr) : Except Cause Expr :=
  match Function.ofName? name with
  | none => .error (.unknownFunction name)
  | some f => match f.call args with
    | .ok e => .ok e
    | .error expected => .error (.wrongCount name expected args.length)

/-- An answer whose error shows at byte `offset`. -/
def locate {α : Type} (offset : Nat) : Except Cause α → Except FormulaError α
  | .ok a => .ok a
  | .error cause => .error ⟨offset, cause⟩

/-! ## Operators -/

/-- How many layers group to the left. -/
def layers : Nat := 5

/-- The operation of a symbol in a layer that groups to the left. -/
def operator? : Nat → Symbol → Option BinaryOp
  | 0, .either => some .or
  | 1, .both => some .and
  | 2, .less => some .lt
  | 2, .greater => some .gt
  | 2, .atMost => some .le
  | 2, .atLeast => some .ge
  | 2, .equal => some .eq
  | 2, .unequal => some .ne
  | 3, .plus => some .add
  | 3, .minus => some .sub
  | 4, .star => some .mul
  | 4, .slash => some .div
  | _, _ => none

/-! ## Constructs -/

/-- What follows a construct: strictly less than was there. -/
abbrev Rest (ts : List Token) := { rest : List Token // rest.length < ts.length }

/-- A construct at the start of `ts`, and what follows it. -/
abbrev Parsed (α : Type) (ts : List Token) := Except FormulaError (α × Rest ts)

section
variable (scope : Scope) (finish : Nat)

mutual

/-- A construct of layer `k`: operands of the next layer, grouped to the left. -/
def layer (k : Nat) (ts : List Token) : Parsed Expr ts :=
  if k < layers then
    match layer (k + 1) ts with
    | .error e => .error e
    | .ok (left, ⟨rest, h⟩) =>
      match operands k left rest with
      | .error e => .error e
      | .ok (e, ⟨rest', h'⟩) => .ok (e, ⟨rest', Nat.lt_of_le_of_lt h' h⟩)
  else unary ts
termination_by (ts.length, layers + 3 - min k layers)

/-- The operators of layer `k` with their right operands, as long as there are
    any. -/
def operands (k : Nat) (left : Expr) (ts : List Token) :
    Except FormulaError (Expr × { rest : List Token // rest.length ≤ ts.length }) :=
  match ts with
  | [] => .ok (left, ⟨[], Nat.le_refl _⟩)
  | t :: ts =>
    match operator? k t.symbol with
    | none => .ok (left, ⟨t :: ts, Nat.le_refl _⟩)
    | some op =>
      match layer (k + 1) ts with
      | .error e => .error e
      | .ok (right, ⟨rest, h⟩) =>
        match operands k (.binary op left right) rest with
        | .error e => .error e
        | .ok (e, ⟨rest', h'⟩) =>
          .ok (e, ⟨rest', Nat.le_trans h' (Nat.le_trans (Nat.le_of_lt h) (Nat.le_succ _))⟩)
termination_by (ts.length, layers + 4)

/-- Signs and negations, then a power. -/
def unary (ts : List Token) : Parsed Expr ts :=
  match ts with
  | [] => power []
  | t :: ts =>
    match t.symbol with
    | .minus =>
      match unary ts with
      | .error e => .error e
      | .ok (a, ⟨rest, h⟩) => .ok (.unary .neg a, ⟨rest, Nat.lt_succ_of_lt h⟩)
    | .plus =>
      match unary ts with
      | .error e => .error e
      | .ok (a, ⟨rest, h⟩) => .ok (a, ⟨rest, Nat.lt_succ_of_lt h⟩)
    | .bang =>
      match unary ts with
      | .error e => .error e
      | .ok (a, ⟨rest, h⟩) => .ok (.unary .not a, ⟨rest, Nat.lt_succ_of_lt h⟩)
    | _ => power (t :: ts)
termination_by (ts.length, 2)

/-- A primary construct, raised to a unary one or not. -/
def power (ts : List Token) : Parsed Expr ts :=
  match primary ts with
  | .error e => .error e
  | .ok (base, ⟨[], h⟩) => .ok (base, ⟨[], h⟩)
  | .ok (base, ⟨t :: rest, h⟩) =>
    match t.symbol with
    | .power =>
      match unary rest with
      | .error e => .error e
      | .ok (exponent, ⟨rest', h'⟩) =>
        .ok (.binary .pow base exponent, ⟨rest', Nat.lt_trans h' (Nat.lt_of_succ_lt h)⟩)
    | _ => .ok (base, ⟨t :: rest, h⟩)
termination_by (ts.length, 1)
decreasing_by
  · exact Prod.Lex.right _ (Nat.lt_succ_self _)
  · exact Prod.Lex.left _ _ (Nat.lt_of_succ_lt h)

/-- A number, a parameter, a formula in parentheses, a name or a call. -/
def primary (ts : List Token) : Parsed Expr ts :=
  match ts with
  | [] => .error ⟨finish, .unexpectedEnd⟩
  | t :: ts =>
    match t.symbol with
    | .number v => .ok (.number v, ⟨ts, Nat.lt_succ_self _⟩)
    | .parameter i => .ok (.param i, ⟨ts, Nat.lt_succ_self _⟩)
    | .openParen =>
      match layer 0 ts with
      | .error e => .error e
      | .ok (_, ⟨[], _⟩) => .error ⟨t.offset, .unmatchedOpen⟩
      | .ok (inner, ⟨u :: rest, h⟩) =>
        match u.symbol with
        | .closeParen => .ok (inner, ⟨rest, Nat.lt_succ_of_lt (Nat.lt_of_succ_lt h)⟩)
        | _ => .error ⟨t.offset, .unmatchedOpen⟩
    | .name name =>
      match ts with
      | [] => (locate t.offset (scope.resolve name)).map fun e => (e, ⟨[], Nat.lt_succ_self _⟩)
      | u :: ts =>
        match u.symbol with
        | .openParen =>
          match arguments u.offset ts with
          | .error e => .error e
          | .ok (args, ⟨rest, h⟩) =>
            (locate t.offset (callNamed name args)).map fun e =>
              (e, ⟨rest, Nat.lt_succ_of_lt (Nat.lt_succ_of_lt h)⟩)
        | _ =>
          (locate t.offset (scope.resolve name)).map fun e => (e, ⟨u :: ts, Nat.lt_succ_self _⟩)
    | s => .error ⟨t.offset, .unexpectedSymbol s⟩
termination_by (ts.length, 0)

/-- The arguments of a call whose parenthesis was opened at byte `opened`, up
    to the closing parenthesis. -/
def arguments (opened : Nat) (ts : List Token) : Parsed (List Expr) ts :=
  match ts with
  | [] => someArguments opened []
  | t :: ts =>
    match t.symbol with
    | .closeParen => .ok ([], ⟨ts, Nat.lt_succ_self _⟩)
    | _ => someArguments opened (t :: ts)
termination_by (ts.length, layers + 5)

/-- The same for at least one argument. -/
def someArguments (opened : Nat) (ts : List Token) : Parsed (List Expr) ts :=
  match layer 0 ts with
  | .error e => .error e
  | .ok (_, ⟨[], _⟩) => .error ⟨opened, .unmatchedOpen⟩
  | .ok (arg, ⟨t :: rest, h⟩) =>
    match t.symbol with
    | .comma =>
      match someArguments opened rest with
      | .error e => .error e
      | .ok (args, ⟨rest', h'⟩) => .ok (arg :: args, ⟨rest', Nat.lt_trans h' (Nat.lt_of_succ_lt h)⟩)
    | .closeParen => .ok ([arg], ⟨rest, Nat.lt_of_succ_lt h⟩)
    | s => .error ⟨t.offset, .expectedSeparator s⟩
termination_by (ts.length, layers + 4)
decreasing_by
  · exact Prod.Lex.right _ (by simp [layers])
  · exact Prod.Lex.left _ _ (Nat.lt_of_succ_lt h)

end

end

/-- The tree of a list of tokens, all of which it takes; `finish` is the byte
    at which the formula ends. -/
def parse (scope : Scope) (finish : Nat) (ts : List Token) : Except FormulaError Expr :=
  match layer scope finish 0 ts with
  | .error e => .error e
  | .ok (e, ⟨[], _⟩) => .ok e
  | .ok (_, ⟨t :: _, _⟩) =>
    match t.symbol with
    | .closeParen => .error ⟨t.offset, .unmatchedClose⟩
    | s => .error ⟨t.offset, .unexpectedSymbol s⟩

end JetEnergy.Formula
