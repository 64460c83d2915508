import JetEnergy.Batch.Export
import JetEnergy.Proofs.Csv.Writing
import JetEnergy.Proofs.Decimal.Numbers
import JetEnergy.Proofs.Decimal.Numerals
import Mathlib.Data.List.Forall2

/-!
  What can be read in an exported table.

  * `OutputRow.columns` names the values of a row, in order, and `Value.ShownAs` says
    which cells show a value: a cell is empty for a value that is absent, and for no
    other; numbers of rows and stages are read back from theirs.
  * `Value.shownAs_field`: the field that is written for a value shows it. A double
    has a text, whatever it is (`Decimal.Style.write_ne_nil`).
  * `ShowsRows` says how a table shows some rows. `showsRows_outputRecords`: the
    records of the rows do so, before they are text.
  * `exported_rows_read_back`: so does what is read in the bytes of the text.
-/
namespace JetEnergy

/-! ## Texts of numbers -/

namespace Decimal

theorem Style.arrange_ne_nil (style : Style) (digits : List Char) (top : Int) :
    style.arrange digits top ≠ [] := by
  unfold arrange
  split
  · cases top <;> simp
  · simp

/-- Every double has a text. -/
theorem Style.write_ne_nil (style : Style) (x : Float) : (style.write x).toList ≠ [] := by
  unfold write writeShape
  split
  · decide
  · split <;> decide
  · next negative mantissa exponent =>
    rw [String.toList_append, ne_eq, List.append_eq_nil_iff]
    rintro ⟨-, hmagnitude⟩
    split at hmagnitude
    · revert hmagnitude
      decide
    · rw [String.toList_ofList] at hmagnitude
      exact style.arrange_ne_nil _ _ hmagnitude

end Decimal

namespace Batch

/-! ## The values of a row -/

/-- A value in a column. -/
inductive Value
  | natural (n : Option Nat)
  | number (x : Option Float)
  | text (s : String)

namespace Value

/-- The field that is written for a value. -/
def field : Value → String
  | natural n => (n.map toString).getD ""
  | number x => optionalField x
  | text s => s

/-- A cell shows a value. -/
def ShownAs : Value → List Char → Prop
  | natural n, cell => (cell = [] ↔ n = none) ∧ ∀ k, n = some k → Decimal.AllDigits cell ∧
      Decimal.natOfDigits cell = k ∧ (k < Decimal.indexBound → Decimal.index? cell = some k)
  | number x, cell => (cell = [] ↔ x = none) ∧ ∀ y, x = some y → cell = (numberField y).toList
  | text s, cell => cell = s.toList

theorem shownAs_field (v : Value) : v.ShownAs v.field.toList := by
  cases v with
  | natural n => cases n with
    | none => exact ⟨by simp [field], nofun⟩
    | some n =>
      have htext : (field (natural (some n))).toList = Nat.toDigits 10 n := Nat.toList_repr
      have hne : Nat.toDigits 10 n ≠ [] := Nat.toDigits_ne_nil
      have hall : Decimal.AllDigits (Nat.toDigits 10 n) := fun _ => Decimal.isDigit_of_mem_digits
      rw [htext]
      refine ⟨by simp [hne], ?_⟩
      rintro _ ⟨rfl⟩
      refine ⟨hall, Decimal.natOfDigits_toDigits n, fun hbound => ?_⟩
      rw [hall.index?_eq hne, Decimal.natOfDigits_toDigits, if_pos hbound]
  | number x => cases x with
    | none => exact ⟨by simp [field, optionalField], nofun⟩
    | some x =>
      have hne : (numberField x).toList ≠ [] := Decimal.exportStyle.write_ne_nil x
      refine ⟨by simpa [field, optionalField] using hne, ?_⟩
      rintro _ ⟨rfl⟩
      rfl
  | text s => rfl

end Value

namespace OutputRow

/-- The values of a row with the names of their columns. -/
def columns (r : OutputRow) : List (String × Value) :=
  [("line", .natural (some r.line)),
   ("raw_pt", .number (some r.jet.pt)),
   ("eta", .number (some r.jet.eta)),
   ("phi", .number (some r.jet.phi)),
   ("area", .number (some r.jet.area)),
   ("rho", .number (some r.jet.rho)),
   ("gen_pt", .number r.genPt),
   ("status", .text r.status),
   ("failed_stage", .natural r.failedStage),
   ("corrected_pt", .number r.correctedPt),
   ("scale_factor", .number r.scaleFactor),
   ("smear_factor", .number r.smearFactor),
   ("uncertainty_low", .number r.uncertaintyLow),
   ("uncertainty_high", .number r.uncertaintyHigh),
   ("final_pt", .number r.finalPt)]

/-- A record shows a row: its cells are those of the columns, one after the other. -/
def ShownBy (r : OutputRow) (record : List (List Char)) : Prop :=
  List.Forall₂ (fun column cell => column.2.ShownAs cell) r.columns record

theorem fields_eq (r : OutputRow) : r.fields = r.columns.map fun column => column.2.field := rfl

theorem shownBy_fields (r : OutputRow) : r.ShownBy (r.fields.map String.toList) := by
  rw [ShownBy, fields_eq, List.map_map, List.forall₂_map_right_iff, List.forall₂_same]
  exact fun column _ => column.2.shownAs_field

end OutputRow

/-! ## Tables of rows -/

/-- A table shows some rows, in their order. -/
structure ShowsRows (rows : List OutputRow) (table : List (List (List Char))) : Prop where
  length : table.length = rows.length + 1
  width : ∀ record ∈ table, record.length = 15
  header : ∀ r ∈ rows, table.head? = some (r.columns.map fun column => column.1.toList)
  shown : List.Forall₂ OutputRow.ShownBy rows table.tail

theorem outputRecords_of_ne_nil {rows : List OutputRow} (h : rows ≠ []) :
    outputRecords rows = outputHeader :: rows.map OutputRow.fields := by
  cases rows with
  | nil => exact absurd rfl h
  | cons r rows => rfl

theorem length_of_mem_outputRecords {rows : List OutputRow} {record : List String}
    (h : record ∈ outputRecords rows) : record.length = 15 := by
  cases rows with
  | nil => cases h
  | cons r rows =>
    rcases List.mem_cons.1 h with rfl | h
    · rfl
    · obtain ⟨r, -, rfl⟩ := List.mem_map.1 h
      rfl

theorem showsRows_outputRecords {rows : List OutputRow} (h : rows ≠ []) :
    ShowsRows rows ((outputRecords rows).map (·.map String.toList)) where
  length := by simp [outputRecords_of_ne_nil h]
  width record hrecord := by
    obtain ⟨fields, hfields, rfl⟩ := List.mem_map.1 hrecord
    rw [List.length_map, length_of_mem_outputRecords hfields]
  header r _ := by
    rw [outputRecords_of_ne_nil h]
    rfl
  shown := by
    rw [outputRecords_of_ne_nil h, List.map_cons, List.tail_cons, List.map_map,
      List.forall₂_map_right_iff, List.forall₂_same]
    exact fun r _ => r.shownBy_fields

/-- The text of a table of rows starts with the first letter of its header. -/
theorem head?_write_outputRecords {rows : List OutputRow} (h : rows ≠ []) :
    (Csv.write ((outputRecords rows).map (·.map String.toList))).head? = some 'l' := by
  have hheader : (Csv.writeRecord (outputHeader.map String.toList)).head? = some 'l' := by decide
  rw [outputRecords_of_ne_nil h, List.map_cons, Csv.write, List.flatMap_cons, List.head?_append,
    hheader, Option.some_or]

/-- An exported table is read back from its bytes: the names of the columns, and then
    a record for each row, in order. Without rows nothing is written. -/
theorem exported_rows_read_back :
    exportRows [] = "" ∧ ∀ rows : List OutputRow, rows ≠ [] →
      ∃ table, ShowsRows rows table ∧
        Csv.textsOfBytes (exportRows rows).toUTF8.toList = table.map (·.map .ok) := by
  refine ⟨rfl, fun rows hrows => ⟨_, showsRows_outputRecords hrows, ?_⟩⟩
  have hvisible : ∀ record ∈ (outputRecords rows).map (·.map String.toList),
      Csv.Visible record := by
    intro record hrecord
    refine Csv.visible_of_length ?_
    rw [(showsRows_outputRecords hrows).width record hrecord]
    decide
  exact Csv.textsOfBytes_write hvisible (by rw [head?_write_outputRecords hrows]; decide)

/-- A status may hold commas, quotes and line ends. -/
theorem exported_rows_read_back_of_one : ∃ (row : OutputRow) (table : List (List (List Char))),
    row.status = "no, \"really\"\r\nno" ∧ [row] ≠ [] ∧ ShowsRows [row] table ∧
      Csv.textsOfBytes (exportRows [row]).toUTF8.toList = table.map (·.map .ok) := by
  let row : OutputRow :=
    { line := 2
      jet := ⟨50, 0.5, 0, 0.5, 10⟩
      genPt := none
      status := "no, \"really\"\r\nno"
      failedStage := some 0 }
  obtain ⟨table, hshows, hread⟩ := exported_rows_read_back.2 [row] (List.cons_ne_nil _ _)
  exact ⟨row, table, rfl, List.cons_ne_nil _ _, hshows, hread⟩

end Batch

end JetEnergy
