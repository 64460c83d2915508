import JetEnergy.Formula.Token
import JetEnergy.Decimal.Numeral
import JetEnergy.Text.Blank
import JetEnergy.Text.Utf8

/-!
  From the text of a formula to its tokens.

  * `lexeme` reads the symbol at the start of a text and says how many
    characters it takes beyond the first: always the longest possible symbol.
  * `tokens` reads symbol after symbol and skips the gaps between them.
-/
namespace JetEnergy.Formula

/-- The characters that may stand between symbols: ASCII white space. -/
def isGap (c : Char) : Bool :=
  c = ' ' || c = '\t' || c = '\n' || c = '\x0c' || c = '\r'

/-- The characters that a name goes on with: letters, digits, underscores and
    doubled colons. -/
def takeName : List Char → List Char
  | ':' :: ':' :: rest => ':' :: ':' :: takeName rest
  | c :: rest => if c.isAlphanum || c = '_' then c :: takeName rest else []
  | [] => []

/-- The operators and punctuation marks: the symbol at the start of a text, and
    whether it takes a second character. -/
def mark? (c : Char) (next : Option Char) : Option (Symbol × Nat) :=
  match c, next with
  | '*', some '*' => some (.power, 1)
  | '<', some '=' => some (.atMost, 1)
  | '>', some '=' => some (.atLeast, 1)
  | '=', some '=' => some (.equal, 1)
  | '!', some '=' => some (.unequal, 1)
  | '&', some '&' => some (.both, 1)
  | '|', some '|' => some (.either, 1)
  | '+', _ => some (.plus, 0)
  | '-', _ => some (.minus, 0)
  | '*', _ => some (.star, 0)
  | '/', _ => some (.slash, 0)
  | '^', _ => some (.power, 0)
  | '(', _ => some (.openParen, 0)
  | ')', _ => some (.closeParen, 0)
  | ',', _ => some (.comma, 0)
  | '<', _ => some (.less, 0)
  | '>', _ => some (.greater, 0)
  | '!', _ => some (.bang, 0)
  | _, _ => none

/-- The parameter reference whose bracket has just been opened. -/
def reference (rest : List Char) : Except Cause (Symbol × Nat) :=
  let inner := rest.takeWhile (· ≠ ']')
  if inner.length = rest.length then .error .openReference
  else
    let text := Text.trim inner
    match Decimal.index? text with
    | some index => .ok (.parameter index, inner.length + 1)
    | none => .error (.badReference (String.ofList text))

/-- The symbol that starts with `c` and goes on in `rest`, and how many
    characters of `rest` it takes. -/
def lexeme (c : Char) (rest : List Char) : Except Cause (Symbol × Nat) :=
  match Decimal.Numeral.unsigned? (c :: rest) with
  | some (n, after) => .ok (.number n.toFloat, rest.length - after.length)
  | none =>
    if c.isAlpha || c = '_' then
      let tail := takeName rest
      .ok (.name (String.ofList (c :: tail)), tail.length)
    else if c = '[' then reference rest
    else match mark? c rest.head? with
      | some found => .ok found
      | none => .error (.strayCharacter c)

/-- The tokens of a text that starts at byte `offset`. -/
def tokensFrom (offset : Nat) : List Char → Except FormulaError (List Token)
  | [] => .ok []
  | c :: rest =>
    if isGap c then tokensFrom (offset + c.utf8Size) rest
    else match lexeme c rest with
      | .error cause => .error ⟨offset, cause⟩
      | .ok (symbol, extra) =>
        (tokensFrom (offset + Text.Utf8.size (c :: rest.take extra)) (rest.drop extra)).map
          (⟨symbol, offset⟩ :: ·)
termination_by text => text.length
decreasing_by all_goals (simp only [List.length_cons, List.length_drop]; omega)

/-- The tokens of a formula. -/
def tokens (source : List Char) : Except FormulaError (List Token) :=
  tokensFrom 0 source

end JetEnergy.Formula
