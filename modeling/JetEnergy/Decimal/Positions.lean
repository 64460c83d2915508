/-!
  The scan for a number, over the bytes of a field.

  `prefixLength` counts the bytes at the start of a field that are a number, or a
  whole number: a sign, digits, a point with digits, a complete exponent.
-/
namespace JetEnergy.Decimal

/-- Whether a byte is an ASCII character of a kind. -/
def isAscii (kind : Char → Bool) (b : UInt8) : Bool :=
  b < 0x80 && kind (Char.ofNat b.toNat)

def isSign (c : Char) : Bool := c == '+' || c == '-'

def isPoint (c : Char) : Bool := c == '.'

def isMark (c : Char) : Bool := c == 'e' || c == 'E'

/-- How many bytes of a sign a byte sequence starts with. -/
def signLength (bytes : List UInt8) : Nat :=
  if bytes.head?.any (isAscii isSign) then 1 else 0

/-- How many digits a byte sequence starts with. -/
def digitsLength (bytes : List UInt8) : Nat :=
  (bytes.takeWhile (isAscii Char.isDigit)).length

/-- How many bytes of a complete exponent a byte sequence starts with. -/
def exponentLength (bytes : List UInt8) : Nat :=
  if bytes.head?.any (isAscii isMark) then
    let i := 1 + signLength (bytes.drop 1)
    let digits := digitsLength (bytes.drop i)
    if 0 < digits then i + digits else 0
  else 0

/-- How many bytes of a number a byte sequence starts with, of a whole number if
    it is not to be `fractional`; 0 if there are no digits. -/
def prefixLength (fractional : Bool) (bytes : List UInt8) : Nat :=
  let sign := signLength bytes
  let whole := digitsLength (bytes.drop sign)
  let i := sign + whole
  if !fractional then if 0 < whole then i else 0
  else
    let point := (bytes.drop i).head?.any (isAscii isPoint)
    let places := if point then digitsLength (bytes.drop (i + 1)) else 0
    let j := if point && 0 < whole + places then i + 1 + places else i
    if whole + places = 0 then 0 else j + exponentLength (bytes.drop j)

end JetEnergy.Decimal
