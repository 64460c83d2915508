/-!
  Blank characters, and the words between them.

  * `isBlank` is Unicode's property White_Space.
  * `trim` drops the blank characters at both ends of a text.
  * `words` are the maximal runs of characters that are not blank, in order.
-/
namespace JetEnergy.Text

/-- The characters with Unicode's property White_Space, 25 in all. -/
def isBlank (c : Char) : Bool :=
  let n := c.toNat
  (9 ≤ n && n ≤ 13) || n == 0x20 || n == 0x85 || n == 0xA0 || n == 0x1680 ||
    (0x2000 ≤ n && n ≤ 0x200A) || n == 0x2028 || n == 0x2029 || n == 0x202F ||
    n == 0x205F || n == 0x3000

/-- A text without the blank characters at its end. -/
def trimEnd (text : List Char) : List Char :=
  (text.reverse.dropWhile isBlank).reverse

/-- A text without the blank characters at either end. -/
def trim (text : List Char) : List Char :=
  trimEnd (text.dropWhile isBlank)

/-! ## Words -/

/-- A text read so far: its finished words, last one first, and the word under
    way, last character first. -/
structure WordsSoFar where
  finished : List (List Char) := []
  current : List Char := []

namespace WordsSoFar

/-- A word under way ends here. -/
def close (s : WordsSoFar) : WordsSoFar :=
  if s.current.isEmpty then s else ⟨s.current.reverse :: s.finished, []⟩

/-- One more character: a blank one ends the word under way, any other one
    belongs to it. -/
def step (s : WordsSoFar) (c : Char) : WordsSoFar :=
  if isBlank c then s.close else ⟨s.finished, c :: s.current⟩

end WordsSoFar

/-- The words of a text: its maximal runs of characters that are not blank. -/
def words (text : List Char) : List (List Char) :=
  (text.foldl WordsSoFar.step {}).close.finished.reverse

end JetEnergy.Text
