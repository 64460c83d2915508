/-!
  Tables of comma-separated fields, read.

  A comma ends a field, a line feed or a carriage return ends a record, and
  records without any field are none. A quote that starts a field opens a
  quoted stretch, in which every symbol stands for itself and two quotes for
  one; after its closing quote a field goes on unquoted. The end of the text
  ends everything that is open.

  * `Record` is a record with the place where the reader began to look for it:
    right after the symbol that ended the record before.
  * `records` reads a text over any alphabet in which commas, quotes and line
    ends can be told apart: `Marked`.
-/
namespace JetEnergy.Csv

/-- The symbols that matter. -/
inductive Mark where
  | comma
  | quote
  | carriageReturn
  | lineFeed
  | other
  deriving DecidableEq, Repr

/-- An alphabet in which the symbols that matter can be told apart. -/
class Marked (α : Type) where
  mark : α → Mark

/-- The mark of a code point. -/
def markOf (n : Nat) : Mark :=
  if n = 0x2C then .comma
  else if n = 0x22 then .quote
  else if n = 0x0D then .carriageReturn
  else if n = 0x0A then .lineFeed
  else .other

instance : Marked Char := ⟨fun c => markOf c.toNat⟩

instance : Marked UInt8 := ⟨fun b => markOf b.toNat⟩

/-- A place in a text: how many symbols are before it, and the number of its
    line, from 1 on. -/
structure Position where
  offset : Nat := 0
  line : Nat := 1
  deriving DecidableEq, Repr

/-- A record, with the place where the reader began to look for it. -/
structure Record (α : Type) where
  start : Position
  fields : List (List α)
  deriving DecidableEq, Repr

/-- What the reader is in the middle of. -/
inductive Mode where
  /-- between records -/
  | between
  /-- before the first symbol of a field -/
  | atField
  | inField
  /-- after an opening quote -/
  | quoted
  /-- after a quote in a quoted stretch -/
  | afterQuote
  deriving DecidableEq, Repr

/-- A text read so far. Lists are kept in reverse: the finished records, the
    finished fields of the record under way, and the symbols of the field under
    way. -/
structure Reading (α : Type) where
  mode : Mode := .between
  field : List α := []
  fields : List (List α) := []
  records : List (Record α) := []
  /-- the place where the reader began to look for the record under way -/
  start : Position := {}
  /-- the place of the next symbol -/
  here : Position := {}

namespace Reading

variable {α : Type}

/-- The field under way goes on with a symbol. -/
def keep (r : Reading α) (a : α) (mode : Mode) : Reading α :=
  { r with field := a :: r.field, mode }

/-- The field under way ends, and another one follows. -/
def endField (r : Reading α) : Reading α :=
  { r with field := [], fields := r.field.reverse :: r.fields, mode := .atField }

/-- The record under way ends with the field under way. -/
def endRecord (r : Reading α) : Reading α :=
  { r with
    mode := .between
    field := []
    fields := []
    records := ⟨r.start, (r.field.reverse :: r.fields).reverse⟩ :: r.records
    start := r.here }

/-- A symbol outside quoted stretches, where a quote does not open one. -/
def plain (r : Reading α) (a : α) : Mark → Reading α
  | .comma => r.endField
  | .carriageReturn | .lineFeed => r.endRecord
  | .quote | .other => r.keep a .inField

/-- A symbol at the start of a field. -/
def opening (r : Reading α) (a : α) : Mark → Reading α
  | .quote => { r with mode := .quoted }
  | m => r.plain a m

/-- The reading past a symbol of some mark. -/
def advance (r : Reading α) (m : Mark) : Reading α :=
  { r with here :=
      ⟨r.here.offset + 1, if m = .lineFeed then r.here.line + 1 else r.here.line⟩ }

/-- A symbol of some mark. -/
def take (r : Reading α) (a : α) (m : Mark) : Reading α :=
  match r.mode with
  | .between =>
    match m with
    | .carriageReturn | .lineFeed => r
    | m => r.opening a m
  | .atField => r.opening a m
  | .inField => r.plain a m
  | .quoted =>
    match m with
    | .quote => { r with mode := .afterQuote }
    | _ => r.keep a .quoted
  | .afterQuote =>
    match m with
    | .quote => r.keep a .quoted
    | m => r.plain a m

/-- One more symbol. -/
def step [Marked α] (r : Reading α) (a : α) : Reading α :=
  (r.advance (Marked.mark a)).take a (Marked.mark a)

/-- The records once the text has ended. -/
def finish (r : Reading α) : List (Record α) :=
  match r.mode with
  | .between => r.records.reverse
  | _ => r.endRecord.records.reverse

end Reading

/-- The records of a text. -/
def records {α : Type} [Marked α] (text : List α) : List (Record α) :=
  (text.foldl Reading.step {}).finish

/-- The records of a byte sequence. A byte order mark before them counts for
    places, but belongs to no field. -/
def recordsOfBytes : List UInt8 → List (Record UInt8)
  | 0xEF :: 0xBB :: 0xBF :: bytes =>
    (bytes.foldl Reading.step { here := { offset := 3 } }).finish
  | bytes => records bytes

end JetEnergy.Csv
