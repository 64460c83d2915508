/-!
  Numerals in text, and the numbers they stand for.

  A numeral has a sign, digits with at most one point among or beside them,
  and an exponent: `[+|-] (digits [. digits*] | . digits) [(e|E) [+|-] digits]`.

  * `Numeral.leading?` reads the longest numeral at the start of a text and
    returns what follows it; an incomplete exponent is not part of it.
  * `leadingFloat` and `leadingInt` are the lenient readings of a field: the
    number of the longest numeral it starts with, and 0 if there is none.
  * `float?` and `index?` read a whole text or nothing.
-/
namespace JetEnergy.Decimal

/-- A numeral, standing for `± digits · 10 ^ (exponent - places)`: its digits
    read as one natural number, how many of them stand after the point, and
    its exponent. -/
structure Numeral where
  negative : Bool
  digits : Nat
  places : Nat
  exponent : Int
  deriving DecidableEq, Repr

namespace Numeral

/-- The double nearest to a numeral, of two equally near ones the even one. -/
def toFloat (n : Numeral) : Float :=
  let magnitude := match n.exponent - n.places with
    | .ofNat e => Float.ofScientific n.digits false e
    | .negSucc e => Float.ofScientific n.digits true (e + 1)
  if n.negative then -magnitude else magnitude

end Numeral

/-! ## Parts of a numeral -/

/-- The natural number that a row of digits stands for. -/
def natOfDigits (digits : List Char) : Nat :=
  digits.foldl (fun n d => 10 * n + (d.toNat - '0'.toNat)) 0

/-- An optional sign (`true` for minus), and what follows it. -/
def takeSign : List Char → Bool × List Char
  | '-' :: rest => (true, rest)
  | '+' :: rest => (false, rest)
  | rest => (false, rest)

/-- The digits after a point, and what follows them. -/
def takeFraction : List Char → List Char × List Char
  | '.' :: rest => (rest.takeWhile Char.isDigit, rest.dropWhile Char.isDigit)
  | rest => ([], rest)

/-- A complete exponent, and what follows it; 0 and the whole text if it does
    not start with one. -/
def takeExponent : List Char → Int × List Char
  | [] => (0, [])
  | c :: rest =>
    if c = 'e' ∨ c = 'E' then
      let (negative, after) := takeSign rest
      let digits := after.takeWhile Char.isDigit
      if digits.isEmpty then (0, c :: rest)
      else
        let size : Int := natOfDigits digits
        (if negative then -size else size, after.dropWhile Char.isDigit)
    else (0, c :: rest)

namespace Numeral

/-- The longest numeral without a sign at the start of a text, and what
    follows it. -/
def unsigned? (text : List Char) : Option (Numeral × List Char) :=
  let whole := text.takeWhile Char.isDigit
  let (fraction, rest) := takeFraction (text.dropWhile Char.isDigit)
  if whole.isEmpty && fraction.isEmpty then none
  else
    let (exponent, rest) := takeExponent rest
    some (⟨false, natOfDigits (whole ++ fraction), fraction.length, exponent⟩, rest)

/-- The longest numeral at the start of a text, and what follows it. -/
def leading? (text : List Char) : Option (Numeral × List Char) :=
  let (negative, rest) := takeSign text
  (unsigned? rest).map fun (n, rest) => ({ n with negative }, rest)

end Numeral

/-! ## Lenient readings -/

/-- The number of the longest numeral that a field starts with, 0 if it starts
    with none. -/
def leadingFloat (field : List Char) : Float :=
  match Numeral.leading? field with
  | some (n, _) => n.toFloat
  | none => 0

/-- The number of whole numbers below zero that a field can hold; there are as
    many from zero on. -/
def intBound : Nat := Nat.pow 2 63

/-- The least whole number read from a field. -/
def leastInt : Int := -intBound

/-- The greatest whole number read from a field. -/
def greatestInt : Int := intBound - 1

/-- The whole number that a field starts with, 0 if it starts with none, held
    between `leastInt` and `greatestInt`. -/
def leadingInt (field : List Char) : Int :=
  let (negative, rest) := takeSign field
  let size : Int := natOfDigits (rest.takeWhile Char.isDigit)
  if negative then max (-size) leastInt else min size greatestInt

/-! ## Strict readings -/

/-- The double that a whole text stands for: a numeral, or with an optional
    sign one of the words `inf`, `infinity` and `nan` in any case. -/
def float? (text : List Char) : Option Float :=
  let (negative, rest) := takeSign text
  let signed (x : Float) := if negative then -x else x
  let word := String.ofList (rest.map Char.toLower)
  if word = "inf" ∨ word = "infinity" then some (signed (1 / 0))
  else if word = "nan" then some (signed (0 / 0))
  else match Numeral.leading? text with
    | some (n, []) => some n.toFloat
    | _ => none

/-- An index is below this bound. -/
def indexBound : Nat := Nat.pow 2 64

/-- The index that a whole text stands for: digits, a plus sign before them or
    not, of a number below `indexBound`. -/
def index? (text : List Char) : Option Nat :=
  let digits := match text with
    | '+' :: rest => rest
    | rest => rest
  if !digits.isEmpty && digits.all Char.isDigit && natOfDigits digits < indexBound then
    some (natOfDigits digits)
  else none

end JetEnergy.Decimal
