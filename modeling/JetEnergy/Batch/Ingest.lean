import JetEnergy.Batch.Row
import JetEnergy.Csv.Reader
import JetEnergy.Decimal.Numeral
import JetEnergy.Failure
import JetEnergy.Text.Blank
import JetEnergy.Text.Utf8

/-!
  Reading jets from a table of comma-separated fields.

  The columns `pt` and `eta` are required; `phi`, `area` and `rho` read as 0
  where they are missing, and a jet without `gen_pt` has no generated match.
  Columns may stand in any order and their names are in any case.

  * `Columns.ofHeader` finds the columns, `Columns.row` reads one record.
  * `ingest` reads a whole table. A record that holds no jet is rejected with a
    reason; a table without any jet is refused.
-/
namespace JetEnergy.Batch

/-! ## Records as text -/

/-- The bytes that are dropped at both ends of a field before it is decoded:
    ASCII white space. -/
def isBlankByte (b : UInt8) : Bool :=
  b = 0x20 || (0x09 ≤ b && b ≤ 0x0D && b ≠ 0x0B)

/-- A field without white space bytes at either end. -/
def trimBytes (field : List UInt8) : List UInt8 :=
  ((field.dropWhile isBlankByte).reverse.dropWhile isBlankByte).reverse

/-- A field that is not UTF-8. -/
structure EncodingError where
  /-- the position of its record, the header being 0 -/
  record : Nat
  /-- the place where the reader began to look for the record -/
  start : Csv.Position
  /-- the position of the field -/
  field : Nat
  /-- the number of bytes of the field that are text -/
  valid : Nat
  deriving DecidableEq, Repr

/-- The words for an encoding error. -/
def EncodingError.message (e : EncodingError) : String :=
  s!"CSV parse error: record {e.record} (line {e.start.line}, field: {e.field}, " ++
    s!"byte: {e.start.offset}): invalid utf-8: invalid UTF-8 in field {e.field} " ++
    s!"near byte index {e.valid}"

/-- The texts of some fields, the first of them at position `position`; or the
    position of the first one that is not UTF-8, and how much of it is. -/
def decodeFields (position : Nat) : List (List UInt8) → Except (Nat × Nat) (List (List Char))
  | [] => .ok []
  | field :: fields =>
    match Text.Utf8.decode field with
    | .error valid => .error (position, valid)
    | .ok text => (decodeFields (position + 1) fields).map (Text.trim text :: ·)

/-- The trimmed texts of some fields of a record. -/
def textsOf (number : Nat) (record : Csv.Record UInt8) (fields : List (List UInt8)) :
    Except EncodingError (List (List Char)) :=
  match decodeFields 0 fields with
  | .ok texts => .ok texts
  | .error (field, valid) => .error ⟨number, record.start, field, valid⟩

/-- The texts of the header. -/
def headerTexts (record : Csv.Record UInt8) : Except EncodingError (List (List Char)) :=
  textsOf 0 record record.fields

/-- The texts of the record at a position after the header. White space bytes
    are dropped before a field is decoded. -/
def recordTexts (number : Nat) (record : Csv.Record UInt8) :
    Except EncodingError (List (List Char)) :=
  textsOf number record (record.fields.map trimBytes)

/-! ## Columns -/

/-- The name that a header field gives to its column: without byte order marks
    before it, in lower case. -/
def columnName (text : List Char) : List Char :=
  ((Text.trim text).dropWhile (· = '\uFEFF')).map Char.toLower

/-- The names of the columns, in order. -/
abbrev Columns := List (List Char)

namespace Columns

/-- The columns of a header. -/
def ofHeader (texts : List (List Char)) : Columns :=
  texts.map columnName

/-- The position of the last column of a name. -/
def position? (columns : Columns) (name : String) : Option Nat :=
  (columns.reverse.idxOf? name.toList).map fun fromEnd => columns.length - 1 - fromEnd

/-- The required columns. -/
def required : List String := ["pt", "eta"]

/-- The field of a record in the column of a name, unless it is empty or
    missing. -/
def field? (columns : Columns) (record : List (List Char)) (name : String) :
    Option (List Char) :=
  match columns.position? name with
  | none => none
  | some i => ((record[i]?).map Text.trim).filter fun text => !text.isEmpty

/-- The finite number in the column of a name, if the record has a field there. -/
def number? (columns : Columns) (record : List (List Char)) (name : String) :
    Except String (Option Float) :=
  match columns.field? record name with
  | none => .ok none
  | some text =>
    match Decimal.float? text with
    | some x =>
      if x.isFinite then .ok (some x)
      else .error s!"Invalid `{name}` value: '{String.ofList text}'"
    | none => .error s!"Invalid `{name}` value: '{String.ofList text}'"

/-- The finite number in a column that must have one. -/
def requiredNumber (columns : Columns) (record : List (List Char)) (name : String) :
    Except String Float :=
  match columns.number? record name with
  | .error reason => .error reason
  | .ok (some x) => .ok x
  | .ok none => .error s!"Missing required value: `{name}`"

/-- The jet in a record, and the momentum of its match; or what is wrong with
    the first field that is wrong, in the order pt, eta, phi, area, rho, gen_pt. -/
def row (columns : Columns) (line : Nat) (record : List (List Char)) :
    Except String InputRow := do
  let pt ← columns.requiredNumber record "pt"
  let eta ← columns.requiredNumber record "eta"
  let phi ← columns.number? record "phi"
  let area ← columns.number? record "area"
  let rho ← columns.number? record "rho"
  let genPt ← columns.number? record "gen_pt"
  return ⟨line, ⟨pt, eta, phi.getD 0, area.getD 0, rho.getD 0⟩, genPt⟩

end Columns

/-! ## Tables -/

/-- The jets of a table. -/
structure Ingested where
  rows : List InputRow
  rejected : List RejectedRow
  /-- the number of records after the header -/
  rowsRead : Nat
  deriving Repr

/-- What becomes of a record with a number of its own. -/
def readRecord (columns : Columns) (line : Nat)
    (record : Except EncodingError (List (List Char))) : Except RejectedRow InputRow :=
  match record with
  | .error e => .error ⟨line, "CSV parse error: " ++ e.message⟩
  | .ok texts =>
    match columns.row line texts with
    | .error reason => .error ⟨line, reason⟩
    | .ok row => .ok row

/-- The jets and the rejected rows among what became of some records. -/
def sortRows : List (Except RejectedRow InputRow) → List InputRow × List RejectedRow
  | [] => ([], [])
  | .ok row :: rest => (row :: (sortRows rest).1, (sortRows rest).2)
  | .error row :: rest => ((sortRows rest).1, row :: (sortRows rest).2)

/-- The jets of a header and the records after it. Records are numbered from 2
    on, after the header. -/
def ingestRecords (header : List (List Char))
    (records : List (Except EncodingError (List (List Char)))) : Except Failure Ingested :=
  let columns := Columns.ofHeader header
  match Columns.required.find? fun name => (columns.position? name).isNone with
  | some name => .error (.missingColumn name)
  | none =>
    let read := (records.zipIdx 2).map fun (record, line) => readRecord columns line record
    let (rows, rejected) := sortRows read
    if rows.isEmpty then .error .noJets else .ok ⟨rows, rejected, records.length⟩

/-- The jets of a table in bytes. -/
def ingest (bytes : List UInt8) : Except Failure Ingested :=
  match Csv.recordsOfBytes bytes with
  | [] => ingestRecords [] []
  | header :: records =>
    match headerTexts header with
    | .error e => .error (.headerUnreadable e.message)
    | .ok texts =>
      ingestRecords texts ((records.zipIdx 1).map fun (record, n) => recordTexts n record)

end JetEnergy.Batch
