import JetEnergy.Csv.Reader

/-!
  Tables of comma-separated fields, written.

  A field is quoted if it holds a comma, a quote or a line end, and its quotes
  are doubled then. A line feed ends every record.
-/
namespace JetEnergy.Csv

/-- Whether a field has to be quoted. -/
def needsQuotes (field : List Char) : Bool :=
  field.any fun c => Marked.mark c ≠ .other

/-- A text with its quotes doubled. -/
def doubleQuotes (field : List Char) : List Char :=
  field.flatMap fun c => if Marked.mark c = .quote then [c, c] else [c]

/-- A field as it is written. -/
def writeField (field : List Char) : List Char :=
  if needsQuotes field then '"' :: doubleQuotes field ++ ['"'] else field

/-- A record as it is written. -/
def writeRecord (fields : List (List Char)) : List Char :=
  [','].intercalate (fields.map writeField) ++ ['\n']

/-- Records as they are written. -/
def write (records : List (List (List Char))) : List Char :=
  records.flatMap writeRecord

end JetEnergy.Csv
