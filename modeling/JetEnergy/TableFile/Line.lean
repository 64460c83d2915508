import JetEnergy.Text.Blank
import JetEnergy.Text.Lines

/-!
  The lines of a correction or uncertainty file.

  A line whose first character after leading spaces is an opening brace is a
  heading, any other line with fields is a row. Braces mean nothing else: they
  are dropped, wherever they stand, before a line is cut into fields.
-/
namespace JetEnergy.TableFile

/-- A field of a line: characters that are neither blank nor braces. -/
abbrev Field := List Char

/-- Whether a line opens with a brace. Only spaces may stand before it. -/
def opensHeading : List Char → Bool
  | '{' :: _ => true
  | ' ' :: rest => opensHeading rest
  | _ => false

/-- A line without its braces. -/
def dropBraces (line : List Char) : List Char :=
  line.filter fun c => c ≠ '{' ∧ c ≠ '}'

/-- The fields of a line. -/
def fieldsOf (line : List Char) : List Field :=
  Text.words (dropBraces line)

/-- A line by kind. -/
inductive Line where
  /-- no field -/
  | blank
  | heading (fields : List Field)
  | row (fields : List Field)
  deriving DecidableEq, Repr

/-- The kind of a line. -/
def Line.read (line : List Char) : Line :=
  match fieldsOf line with
  | [] => .blank
  | fields => if opensHeading line then .heading fields else .row fields

/-- The lines of a file. -/
def linesOf (text : List Char) : List Line :=
  (Text.lines text).map Line.read

end JetEnergy.TableFile
