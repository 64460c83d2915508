import JetEnergy.Decimal.Style

/-!
  JSON values, and their text.

  * `Json.ofFields` builds an object, its fields in the order of their names.
  * `Json.render` writes a value with an indentation of two spaces. What is
    not a finite number is written as `null`.
-/
namespace JetEnergy

/-- A JSON value; arrays and truth values are not needed. -/
inductive Json where
  | null
  | count (n : Nat)
  | number (x : Float)
  | text (s : String)
  | object (fields : List (String × Json))
  deriving Repr

namespace Json

/-- The object of some fields, in the order of their names. -/
def ofFields (fields : List (String × Json)) : Json :=
  object (fields.mergeSort fun a b => a.1 ≤ b.1)

/-- A value that may be absent. -/
def ofOption {α : Type} (write : α → Json) : Option α → Json
  | some a => write a
  | none => null

/-! ## Text -/

/-- The text of a character in a string: quotes, backslashes and control
    characters are escaped. -/
def escape (c : Char) : List Char :=
  match c with
  | '"' => ['\\', '"']
  | '\\' => ['\\', '\\']
  | '\n' => ['\\', 'n']
  | '\r' => ['\\', 'r']
  | '\t' => ['\\', 't']
  | '\x08' => ['\\', 'b']
  | '\x0c' => ['\\', 'f']
  | c =>
    if c.toNat < 0x20 then
      ['\\', 'u', '0', '0', Nat.digitChar (c.toNat / 16), Nat.digitChar (c.toNat % 16)]
    else [c]

/-- The text of a string. -/
def quote (s : String) : String :=
  String.ofList ('"' :: s.toList.flatMap escape ++ ['"'])

/-- The space before a line at a depth. -/
def margin (depth : Nat) : String :=
  String.ofList (List.replicate (2 * depth) ' ')

mutual

/-- The text of a value that starts at a depth. -/
def renderAt (depth : Nat) : Json → String
  | null => "null"
  | count n => toString n
  | number x => if x.isFinite then Decimal.jsonStyle.write x else "null"
  | text s => quote s
  | object [] => "\x7b\x7d"
  | object fields =>
    "\x7b\n" ++ ",\n".intercalate (renderFields (depth + 1) fields) ++
      "\n" ++ margin depth ++ "\x7d"

/-- The texts of fields at a depth. -/
def renderFields (depth : Nat) : List (String × Json) → List String
  | [] => []
  | (name, value) :: rest =>
    (margin depth ++ quote name ++ ": " ++ renderAt depth value) :: renderFields depth rest

end

/-- The text of a value. -/
def render (j : Json) : String :=
  renderAt 0 j

end Json

end JetEnergy
