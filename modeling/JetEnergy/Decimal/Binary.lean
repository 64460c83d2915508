/-!
  A double as an exact number.

  * `shape` takes a double apart: not a number, an infinity, or a sign with a
    mantissa and a power of two.
  * `Ratio` is a nonnegative number as a quotient of natural numbers; a finite
    magnitude is one, exactly.
  * `divideRounded` rounds a quotient to a nearest natural number, and a `Tie`
    says what becomes of a half.
-/
namespace JetEnergy.Decimal

/-- What a double is. -/
inductive Shape where
  | nan
  | infinite (negative : Bool)
  /-- `± mantissa · 2 ^ exponent` -/
  | finite (negative : Bool) (mantissa : Nat) (exponent : Int)
  deriving DecidableEq, Repr

/-- The exponent of the doubles nearest to zero. -/
def leastExponent : Int := -1074

/-- The mantissa of the powers of two, apart from the smallest ones: 53 bits. -/
def leadingBit : Nat := Nat.pow 2 52

/-- Takes a double apart: 52 bits of fraction, 11 of exponent, one of sign. -/
def shape (x : Float) : Shape :=
  let bits := x.toBits.toNat
  let negative := Nat.pow 2 63 ≤ bits
  let biased : Nat := bits / leadingBit % Nat.pow 2 11
  let fraction : Nat := bits % leadingBit
  if biased = 2047 then
    if fraction = 0 then .infinite negative else .nan
  else if biased = 0 then .finite negative fraction leastExponent
  else .finite negative (leadingBit + fraction) (leastExponent + biased - 1)

/-! ## Quotients -/

/-- The number `num / den`, with `0 < den` wherever it is used. -/
structure Ratio where
  num : Nat
  den : Nat
  deriving DecidableEq, Repr

namespace Ratio

/-- The number `r · b ^ e`. -/
def scale (r : Ratio) (b : Nat) : Int → Ratio
  | .ofNat e => ⟨r.num * Nat.pow b e, r.den⟩
  | .negSucc e => ⟨r.num, r.den * Nat.pow b (e + 1)⟩

/-- The number `mantissa · 2 ^ exponent`. -/
def ofBinary (mantissa : Nat) (exponent : Int) : Ratio :=
  (⟨mantissa, 1⟩ : Ratio).scale 2 exponent

/-- Whether a number is below `10 ^ e`. -/
def belowTenTo (r : Ratio) (e : Int) : Bool :=
  let s := r.scale 10 (-e)
  s.num < s.den

/-- The exponent `e` with `10 ^ e ≤ r < 10 ^ (e + 1)`, for a positive `r`: the
    binary logarithm fixes it up to one, and comparisons decide. -/
def decimalExponent (r : Ratio) : Int :=
  let guess := ((r.num.log2 : Int) - r.den.log2) * 30103 / 100000
  if r.belowTenTo (guess - 1) then guess - 2
  else if r.belowTenTo guess then guess - 1
  else if r.belowTenTo (guess + 1) then guess
  else guess + 1

end Ratio

/-- What becomes of a number halfway between two neighbours. -/
inductive Tie where
  | toEven
  | up
  deriving DecidableEq, Repr

/-- The natural number nearest to `num / den`. -/
def divideRounded (tie : Tie) (num den : Nat) : Nat :=
  let q := num / den
  let r := num % den
  if 2 * r < den then q
  else if den < 2 * r then q + 1
  else match tie with
    | .toEven => if q % 2 = 0 then q else q + 1
    | .up => q + 1

end JetEnergy.Decimal
