import JetEnergy.Decimal.Digits

/-!
  How doubles are written.

  * `Style.write` writes the fewest digits that read back, positionally for
    the exponents of a window and with an exponent outside it.
  * `writeFixed` writes a given number of places after the point.

  Both write `NaN`, never signed, `inf` and `-inf`, and keep the sign of
  a negative zero.
-/
namespace JetEnergy.Decimal

/-- The choices of one way to write the fewest digits. -/
structure Style where
  /-- the least exponent of a first digit that is written positionally -/
  lowest : Int
  /-- the exponents from this one on are not written positionally -/
  bound : Int
  /-- the digit that a half goes to -/
  tie : Tie
  /-- whether a positive exponent gets a plus sign -/
  plus : Bool

/-- A number written with the digits `digits`, the first of them at exponent
    `top`. -/
def Style.arrange (style : Style) (digits : List Char) (top : Int) : List Char :=
  if style.lowest ≤ top ∧ top < style.bound then
    match top with
    | .ofNat n =>
      let whole := digits.take (n + 1)
      let fraction := digits.drop (n + 1)
      whole ++ List.replicate (n + 1 - whole.length) '0' ++ '.' ::
        (if fraction.isEmpty then ['0'] else fraction)
    | .negSucc n => ['0', '.'] ++ List.replicate n '0' ++ digits
  else
    digits.take 1 ++ (if digits.length ≤ 1 then [] else '.' :: digits.drop 1) ++ ['e'] ++
      (if style.plus && 0 < top then ['+'] else []) ++ (toString top).toList

/-- The text of a double, given the text of a nonzero finite magnitude and that
    of zero. -/
def writeShape (zero : String) (magnitude : Nat → Int → String) : Shape → String
  | .nan => "NaN"
  | .infinite negative => if negative then "-inf" else "inf"
  | .finite negative mantissa exponent =>
    (if negative then "-" else "") ++ if mantissa = 0 then zero else magnitude mantissa exponent

/-- The fewest digits that read back. -/
def Style.write (style : Style) (x : Float) : String :=
  writeShape "0.0" (fun mantissa exponent =>
    let d := shortest style.tie mantissa exponent
    let digits := Nat.toDigits 10 d.digits
    String.ofList (style.arrange digits (d.exponent + digits.length - 1))) (shape x)

/-- Digits with a point before the last `places` of them, and without one if
    `places` is 0. -/
def insertPoint (places : Nat) (n : Nat) : String :=
  let digits := Nat.toDigits 10 n
  let digits := List.replicate (places + 1 - digits.length) '0' ++ digits
  let whole := digits.take (digits.length - places)
  match digits.drop (digits.length - places) with
  | [] => String.ofList whole
  | fraction => String.ofList (whole ++ '.' :: fraction)

/-- A double with `places` digits after the point. -/
def writeFixed (places : Nat) (x : Float) : String :=
  writeShape (insertPoint places 0)
    (fun mantissa exponent => insertPoint places (fixedDigits places mantissa exponent)) (shape x)

/-! ## The styles in use -/

/-- Numbers in messages: positional from 0.0001 to below 10¹⁶. -/
def messageStyle : Style := ⟨-4, 16, .up, false⟩

/-- Numbers in exported tables: positional from 0.00001 to below 10¹⁶. -/
def exportStyle : Style := ⟨-5, 16, .toEven, false⟩

/-- Numbers in JSON: as in exported tables, with a plus sign before a positive
    exponent. -/
def jsonStyle : Style := ⟨-5, 16, .toEven, true⟩

end JetEnergy.Decimal
