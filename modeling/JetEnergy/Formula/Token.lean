import JetEnergy.Decimal.Style

/-!
  The symbols of a formula, and what can be wrong with one.

  * `Token` is a symbol with the place where it starts, counted in bytes.
  * `FormulaError` is a cause with a place; `message` words it.
-/
namespace JetEnergy.Formula

/-- A symbol of a formula. -/
inductive Symbol where
  | number (value : Float)
  /-- a name, with its namespaces (`TMath::Exp`) -/
  | name (text : String)
  /-- `[i]`, a reference to a parameter -/
  | parameter (index : Nat)
  | plus
  | minus
  | star
  | slash
  /-- `^` or `**` -/
  | power
  | openParen
  | closeParen
  | comma
  | less
  | greater
  | atMost
  | atLeast
  | equal
  | unequal
  /-- `&&` -/
  | both
  /-- `||` -/
  | either
  /-- `!` -/
  | bang
  deriving Repr

/-- The words for a symbol in messages. -/
def Symbol.describe : Symbol → String
  | number value => s!"Number({Decimal.messageStyle.write value})"
  | name text => s!"Ident(\"{text}\")"
  | parameter index => s!"Param({index})"
  | plus => "Plus"
  | minus => "Minus"
  | star => "Star"
  | slash => "Slash"
  | power => "Pow"
  | openParen => "LParen"
  | closeParen => "RParen"
  | comma => "Comma"
  | less => "Lt"
  | greater => "Gt"
  | atMost => "Le"
  | atLeast => "Ge"
  | equal => "EqEq"
  | unequal => "Ne"
  | both => "AndAnd"
  | either => "OrOr"
  | bang => "Not"

/-- A symbol and the byte at which it starts. -/
structure Token where
  symbol : Symbol
  offset : Nat
  deriving Repr

/-! ## Errors -/

/-- The largest number of variables of a formula. -/
def greatestArity : Nat := 3

/-- What is wrong with a formula. -/
inductive Cause where
  | unsupportedArity (arity : Nat)
  | strayCharacter (c : Char)
  | openReference
  | badReference (text : String)
  | unexpectedEnd
  | unexpectedSymbol (symbol : Symbol)
  | unmatchedOpen
  | unmatchedClose
  | expectedSeparator (found : Symbol)
  | unknownFunction (name : String)
  | wrongCount (name expected : String) (count : Nat)
  | unknownName (name : String)
  /-- the formula has fewer variables than the name needs -/
  | missingVariable (name : String) (needed arity : Nat)
  deriving Repr

/-- The words for a cause. -/
def Cause.message : Cause → String
  | unsupportedArity arity => s!"unsupported arity {arity}, expected 1..={greatestArity}"
  | strayCharacter c => s!"unexpected character '{c}'"
  | openReference => "unterminated parameter reference"
  | badReference text => s!"invalid parameter reference '[{text}]'"
  | unexpectedEnd => "unexpected end of formula"
  | unexpectedSymbol symbol => s!"unexpected token {symbol.describe}"
  | unmatchedOpen => "unmatched '('"
  | unmatchedClose => "unmatched ')'"
  | expectedSeparator found => s!"expected ',' or ')', found {found.describe}"
  | unknownFunction name => s!"unknown function '{name}'"
  | wrongCount name expected count => s!"function '{name}' takes {expected}, got {count}"
  | unknownName name => s!"unknown identifier '{name}'"
  | missingVariable name needed arity =>
    s!"variable '{name}' needs {needed} inputs, formula has {arity}"

/-- Why a formula is refused, and the byte at which that shows. -/
structure FormulaError where
  offset : Nat
  cause : Cause
  deriving Repr

/-- The words for an error, with its place. -/
def FormulaError.message (e : FormulaError) : String :=
  s!"{e.cause.message} (at offset {e.offset})"

end JetEnergy.Formula
