/-!
  The lines of a text.

  A line feed ends a line, together with a carriage return right before it.
  Text after the last line feed is a line as well, an empty rest is not.
-/
namespace JetEnergy.Text

/-- A text read so far: its finished lines, last one first, and the line under
    way, last character first. -/
structure LinesSoFar where
  finished : List (List Char) := []
  current : List Char := []

namespace LinesSoFar

/-- The characters of a line, last one first, without the carriage return at
    its end. -/
def dropReturn : List Char → List Char
  | '\r' :: line => line
  | line => line

/-- One more character. -/
def step (s : LinesSoFar) (c : Char) : LinesSoFar :=
  if c = '\n' then ⟨(dropReturn s.current).reverse :: s.finished, []⟩
  else ⟨s.finished, c :: s.current⟩

/-- The lines once the text has ended. -/
def lines (s : LinesSoFar) : List (List Char) :=
  (if s.current.isEmpty then s.finished else s.current.reverse :: s.finished).reverse

end LinesSoFar

/-- The lines of a text. -/
def lines (text : List Char) : List (List Char) :=
  (text.foldl LinesSoFar.step {}).lines

end JetEnergy.Text
