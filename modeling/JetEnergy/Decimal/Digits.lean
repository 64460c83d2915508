import JetEnergy.Decimal.Binary

/-!
  The decimal digits of a double.

  * `shortest` finds the fewest digits that read back as the same double, and
    of those the nearest to it.
  * `fixedDigits` rounds to a number of places after the point. It starts from the
    exact value and sends a half to the even neighbour.
-/
namespace JetEnergy.Decimal

/-- The number `digits · 10 ^ exponent`. -/
structure Scaled where
  digits : Nat
  exponent : Int
  deriving DecidableEq, Repr

namespace Scaled

/-- The same number without zeros at the end of its digits; at most `fuel`
    of them are dropped. -/
def dropZeros : Nat → Scaled → Scaled
  | 0, d => d
  | fuel + 1, d =>
    if d.digits ≠ 0 ∧ d.digits % 10 = 0 then dropZeros fuel ⟨d.digits / 10, d.exponent + 1⟩
    else d

end Scaled

/-! ## Fewest digits -/

/-- A magnitude with the interval of numbers that round to it, all in one
    unit: `low`, `value` and `high` over `den`. -/
structure Interval where
  low : Nat
  value : Nat
  high : Nat
  den : Nat
  /-- whether the ends round to the value too -/
  closed : Bool

namespace Interval

/-- The interval of `mantissa · 2 ^ exponent`, in quarters of its last place.
    It reaches half a place to either side, but below a power of two, where
    the places are half as wide, a quarter. -/
def ofBinary (mantissa : Nat) (exponent : Int) : Interval :=
  let unit := (⟨1, 1⟩ : Ratio).scale 2 (exponent - 2)
  let below := if mantissa = leadingBit ∧ exponent ≠ leastExponent then 1 else 2
  { low := (4 * mantissa - below) * unit.num
    value := 4 * mantissa * unit.num
    high := (4 * mantissa + 2) * unit.num
    den := unit.den
    closed := mantissa % 2 = 0 }

/-- The same interval in units of `10 ^ e`. -/
def scale (i : Interval) : Int → Interval
  | .ofNat e => { i with den := i.den * Nat.pow 10 e }
  | .negSucc e =>
    let s := Nat.pow 10 (e + 1)
    { i with low := i.low * s, value := i.value * s, high := i.high * s }

/-- Whether the whole number `n` lies in the interval. -/
def holds (i : Interval) (n : Nat) : Bool :=
  if i.closed then i.low ≤ n * i.den && n * i.den ≤ i.high
  else i.low < n * i.den && n * i.den < i.high

/-- The whole number of the interval that is nearest to its value, if it has
    one: a neighbour of the value is in it then. -/
def nearest? (i : Interval) (tie : Tie) : Option Nat :=
  let down := i.value / i.den
  match i.holds down, i.holds (down + 1) with
  | true, true => some (divideRounded tie i.value i.den)
  | true, false => some down
  | false, true => some (down + 1)
  | false, false => none

end Interval

/-- The number of the interval with the fewest digits, from `n` digits on,
    where `top` is the exponent of the first digit. After `fuel` more digits
    the nearest number is taken as it is. -/
def shortestFrom (tie : Tie) (i : Interval) (top : Int) : Nat → Nat → Scaled
  | 0, n =>
    let i := i.scale (top - n + 1)
    ⟨divideRounded tie i.value i.den, top - n + 1⟩
  | fuel + 1, n =>
    match (i.scale (top - n + 1)).nearest? tie with
    | some digits => ⟨digits, top - n + 1⟩
    | none => shortestFrom tie i top fuel (n + 1)

/-- The fewest digits that read back as the double `mantissa · 2 ^ exponent`,
    of those the nearest to it. The nearest number with seventeen digits always
    reads back. -/
def shortest (tie : Tie) (mantissa : Nat) (exponent : Int) : Scaled :=
  let top := (Ratio.ofBinary mantissa exponent).decimalExponent
  (shortestFrom tie (Interval.ofBinary mantissa exponent) top 16 1).dropZeros 20

/-! ## A given number of places -/

/-- The double `mantissa · 2 ^ exponent` in units of `10 ^ -places`, rounded. -/
def fixedDigits (places : Nat) (mantissa : Nat) (exponent : Int) : Nat :=
  let r := (Ratio.ofBinary mantissa exponent).scale 10 places
  divideRounded .toEven r.num r.den

end JetEnergy.Decimal
