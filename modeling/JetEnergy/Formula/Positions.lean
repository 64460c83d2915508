import JetEnergy.Decimal.Positions
import JetEnergy.Formula.Compile

/-!
  Reading a formula byte by byte.

  * `byteAt`, `dropBytes` and `cut` are the accesses to a text and to its bytes.
    Each can fail, with a `Breach` of its own.
  * `tokensAt` reads the tokens of a formula through them alone, by positions in
    its bytes, and `compileAt` the tree of these tokens.
-/
namespace JetEnergy.Formula

open Decimal Text.Utf8

/-! ## Accesses -/

/-- What reading by positions can come upon. -/
inductive Breach where
  /-- a position past the end -/
  | outside
  /-- a cut inside a character -/
  | split
  /-- a stretch that ends before it starts, or a lexeme without a byte -/
  | backward
  /-- a number that the strict reading does not take for one -/
  | unreadable
  deriving DecidableEq, Repr

/-- The byte at a position, if there is one. -/
def byteAt (bytes : List UInt8) (i : Nat) : Except Breach UInt8 :=
  match bytes[i]? with
  | some b => .ok b
  | none => .error .outside

/-- A text without its first bytes, if these are whole characters. -/
def dropBytes : List Char → Nat → Except Breach (List Char)
  | text, 0 => .ok text
  | [], _ + 1 => .error .outside
  | c :: text, n + 1 =>
    if c.utf8Size ≤ n + 1 then dropBytes text (n + 1 - c.utf8Size) else .error .split

/-- The first bytes of a text, if these are whole characters. -/
def takeBytes : List Char → Nat → Except Breach (List Char)
  | _, 0 => .ok []
  | [], _ + 1 => .error .outside
  | c :: text, n + 1 =>
    if c.utf8Size ≤ n + 1 then (takeBytes text (n + 1 - c.utf8Size)).map (c :: ·)
    else .error .split

/-- The part of a text from byte `start` on and before byte `stop`, if it can be
    cut in both places. -/
def cut (source : List Char) (start stop : Nat) : Except Breach (List Char) :=
  if start ≤ stop then do takeBytes (← dropBytes source start) (stop - start)
  else .error .backward

/-! ## Scans -/

/-- The position where bytes of a kind end that start at position `i`. -/
def scanOver (kind : Char → Bool) (bytes : List UInt8) (i : Nat) : Except Breach Nat :=
  if h : i < bytes.length then do
    if isAscii kind (← byteAt bytes i) then scanOver kind bytes (i + 1) else return i
  else return i
termination_by bytes.length - i

/-- Whether there is a byte of a kind at a position. -/
def testAt (kind : Char → Bool) (bytes : List UInt8) (i : Nat) : Except Breach Bool :=
  if i < bytes.length then return isAscii kind (← byteAt bytes i) else return false

/-- The position where a point with its digits ends. -/
def scanFraction (bytes : List UInt8) (i : Nat) : Except Breach Nat := do
  if ← testAt isPoint bytes i then scanOver Char.isDigit bytes (i + 1) else return i

/-- The position where a complete exponent ends. -/
def scanExponent (bytes : List UInt8) (i : Nat) : Except Breach Nat := do
  if ← testAt isMark bytes i then
    let j := if ← testAt isSign bytes (i + 1) then i + 2 else i + 1
    if ← testAt Char.isDigit bytes j then scanOver Char.isDigit bytes j else return i
  else return i

/-- The position where a number ends. -/
def scanNumber (bytes : List UInt8) (i : Nat) : Except Breach Nat := do
  scanExponent bytes (← scanFraction bytes (← scanOver Char.isDigit bytes i))

def isNameStart (c : Char) : Bool := c.isAlpha || c = '_'

def isNameChar (c : Char) : Bool := c.isAlphanum || c = '_'

def isColon (c : Char) : Bool := c = ':'

def isBracket (c : Char) : Bool := c = '['

/-- The position where the characters end that a name goes on with. -/
def scanName (bytes : List UInt8) (i : Nat) : Except Breach Nat :=
  if h : i < bytes.length then do
    let b ← byteAt bytes i
    if isAscii isNameChar b then scanName bytes (i + 1)
    else if isAscii isColon b && bytes[i + 1]?.any (isAscii isColon) then scanName bytes (i + 2)
    else return i
  else return i
termination_by bytes.length - i

/-! ## Tokens -/

/-- How many bytes of a text stand before its first closing bracket. -/
def closing? (text : List Char) : Option Nat :=
  if ']' ∈ text then some (size (text.takeWhile (· ≠ ']'))) else none

/-- A symbol with the position where it ends, or why there is none. -/
abbrev Found := Except Breach (Except Cause (Symbol × Nat))

/-- The number at a position. -/
def numberAt (source : List Char) (i : Nat) : Found := do
  let stop ← scanNumber (encode source) i
  match Decimal.float? (← cut source i stop) with
  | some x => return .ok (.number x, stop)
  | none => throw .unreadable

/-- The name at a position. -/
def nameAt (source : List Char) (i : Nat) : Found := do
  let stop ← scanName (encode source) i
  return .ok (.name (String.ofList (← cut source i stop)), stop)

/-- The reference whose bracket is opened at a position. -/
def referenceAt (source : List Char) (i : Nat) : Found := do
  match closing? (← dropBytes source i) with
  | none => return .error .openReference
  | some distance =>
    let text := Text.trim (← cut source (i + 1) (i + distance))
    match Decimal.index? text with
    | some index => return .ok (.parameter index, i + distance + 1)
    | none => return .error (.badReference (String.ofList text))

/-- The mark that starts with byte `b` at a position. Bytes are compared as the
    characters with their numbers. -/
def markAt (source : List Char) (i : Nat) (b : UInt8) : Found :=
  match mark? (Char.ofNat b.toNat)
      ((encode source)[i + 1]?.map fun next => Char.ofNat next.toNat) with
  | some (symbol, extra) => return .ok (symbol, i + 1 + extra)
  | none => return .error (.strayCharacter ((← dropBytes source i).head?.getD '?'))

/-- The symbol that starts with byte `b` at a position. -/
def lexemeAt (source : List Char) (i : Nat) (b : UInt8) : Found :=
  if isAscii Char.isDigit b ||
      isAscii isPoint b && (encode source)[i + 1]?.any (isAscii Char.isDigit) then
    numberAt source i
  else if isAscii isNameStart b then nameAt source i
  else if isAscii isBracket b then referenceAt source i
  else markAt source i b

/-- The tokens of a formula from position `i` on. -/
def tokensAt (source : List Char) (i : Nat) : Except Breach (Except FormulaError (List Token)) :=
  if _h : i < (encode source).length then do
    let b ← byteAt (encode source) i
    if isAscii isGap b then tokensAt source (i + 1)
    else match ← lexemeAt source i b with
      | .error cause => return .error ⟨i, cause⟩
      | .ok (symbol, stop) =>
        if _hstop : i < stop then return (← tokensAt source stop).map (⟨symbol, i⟩ :: ·)
        else throw .backward
  else return .ok []
termination_by (encode source).length - i

/-- The tree of a formula, read by positions. The parser takes its tokens one by one
    and has no positions in the text. -/
def compileAt (source : List Char) (arity : Nat) : Except Breach (Except FormulaError Expr) :=
  if 1 ≤ arity ∧ arity ≤ greatestArity then do
    let read ← tokensAt source 0
    return do parse (.standard arity) (size source) (← read)
  else return .error ⟨0, .unsupportedArity arity⟩

end JetEnergy.Formula
