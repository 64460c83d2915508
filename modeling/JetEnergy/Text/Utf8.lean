/-!
  Bytes read as UTF-8.

  * `pieces` cuts a byte sequence into characters and broken pieces; a broken
    piece is the longest start of a character that the next byte does not
    continue, or a single byte that starts none.
  * `decodeLossy` writes U+FFFD for each broken piece.
  * `decode` accepts well-formed sequences only, and else names the offset of
    the first broken piece.
  * `encode` writes a text as bytes again, and `size` counts them.
-/
namespace JetEnergy.Text.Utf8

/-- A part of a byte sequence. -/
inductive Piece where
  | char (c : Char)
  | broken

/-- What a lead byte asks for: how many bytes follow it, and between which
    bounds the first of them lies (the later ones lie between 80 and BF). -/
def lead (a : UInt8) : Option (Nat × UInt8 × UInt8) :=
  if 0xC2 ≤ a && a ≤ 0xDF then some (1, 0x80, 0xBF)
  else if a == 0xE0 then some (2, 0xA0, 0xBF)
  else if a == 0xED then some (2, 0x80, 0x9F)
  else if 0xE1 ≤ a && a ≤ 0xEF then some (2, 0x80, 0xBF)
  else if a == 0xF0 then some (3, 0x90, 0xBF)
  else if 0xF1 ≤ a && a ≤ 0xF3 then some (3, 0x80, 0xBF)
  else if a == 0xF4 then some (3, 0x80, 0x8F)
  else none

/-- The bytes that continue a character: at most `n`, the first between `low`
    and `high`. -/
def following : Nat → UInt8 → UInt8 → List UInt8 → List UInt8
  | n + 1, low, high, b :: bytes =>
    if low ≤ b && b ≤ high then b :: following n 0x80 0xBF bytes else []
  | _, _, _, _ => []

/-- The code point of a lead byte and the `n` bytes after it: the low `6 - n`
    bits of the one, six bits of each of the others. -/
def codePoint (a : UInt8) (tail : List UInt8) : Nat :=
  tail.foldl (fun n b => 64 * n + b.toNat % 64) (a.toNat % Nat.pow 2 (6 - tail.length))

/-- The piece that byte `a` starts, and how many of the bytes after it belong
    to it. -/
def piece (a : UInt8) (rest : List UInt8) : Piece × Nat :=
  if a < 0x80 then (.char (Char.ofNat a.toNat), 0)
  else match lead a with
    | none => (.broken, 0)
    | some (n, low, high) =>
      let tail := following n low high rest
      if tail.length = n then (.char (Char.ofNat (codePoint a tail)), n)
      else (.broken, tail.length)

/-- The pieces of a byte sequence after the pieces `done`, last one first. -/
def piecesAfter (done : List Piece) : List UInt8 → List Piece
  | [] => done.reverse
  | a :: rest => piecesAfter ((piece a rest).1 :: done) (rest.drop (piece a rest).2)
termination_by bytes => bytes.length
decreasing_by simp only [List.length_drop, List.length_cons]; omega

/-- The pieces of a byte sequence. -/
def pieces (bytes : List UInt8) : List Piece :=
  piecesAfter [] bytes

/-- The text of a byte sequence, with U+FFFD for each broken piece. -/
def decodeLossy (bytes : List UInt8) : List Char :=
  (pieces bytes).map fun
    | .char c => c
    | .broken => '\uFFFD'

/-- The characters before the first broken piece, last one first, and the
    offset of that piece. -/
def decodePieces (done : List Char) (offset : Nat) : List Piece → Except Nat (List Char)
  | [] => .ok done.reverse
  | .char c :: ps => decodePieces (c :: done) (offset + c.utf8Size) ps
  | .broken :: _ => .error offset

/-- The text of a byte sequence, or the offset of its first broken piece. -/
def decode (bytes : List UInt8) : Except Nat (List Char) :=
  decodePieces [] 0 (pieces bytes)

/-- The bytes of a text. -/
def encode (text : List Char) : List UInt8 :=
  text.flatMap String.utf8EncodeChar

/-- How many bytes a text takes. -/
def size : List Char → Nat
  | [] => 0
  | c :: text => c.utf8Size + size text

end JetEnergy.Text.Utf8
