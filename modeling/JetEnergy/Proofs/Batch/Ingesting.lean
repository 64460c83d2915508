import JetEnergy.Batch.Ingest
import JetEnergy.Proofs.TableFile.Scanning

/-!
  What becomes of the records of a table.

  * `Columns.At`, `Columns.Holds` and `Columns.Cell` say, without reading a
    record, which field counts for a column and what it holds: the last column of
    a name, a trimmed text that is not empty, a finite number or nothing.
  * `Columns.Complete` are the records that hold a jet. `exists_row_iff`: these are
    the ones that become rows; `row_ok_iff`: they do so with the values of their
    cells, which are finite by `finite_of_row`.
  * `sortRows` splits what became of the records, in order: `perm_sortRows`,
    `rows_sublist` and `rejected_sublist` for the numbers of both parts.
  * `Ingested.Accounts` says how the jets of a table account for its records, and
    `accounts_of_ingest` that they do.
-/
namespace JetEnergy.Batch

/-! ## Cells -/

namespace Columns

/-- Column `name` is the one at position `i`: the last one of this name. -/
def At (columns : Columns) (name : String) (i : Nat) : Prop :=
  columns[i]? = some name.toList ∧ ∀ j, i < j → columns[j]? ≠ some name.toList

/-- The text of a record in the column of a name: trimmed, and not empty. -/
def Holds (columns : Columns) (record : List (List Char)) (name : String)
    (text : List Char) : Prop :=
  ∃ i field, columns.At name i ∧ record[i]? = some field ∧ Text.trim field = text ∧ text ≠ []

/-- What a record has in the column of a name: nothing, or a finite number. -/
inductive Cell (columns : Columns) (record : List (List Char)) (name : String) :
    Option Float → Prop
  | blank : (∀ text, ¬ columns.Holds record name text) → Cell columns record name none
  | number {text : List Char} {x : Float} : columns.Holds record name text →
      Decimal.float? text = some x → x.isFinite → Cell columns record name (some x)

/-- A record holds a jet: the required columns have a number, and no other column
    has a text that is none. -/
structure Complete (columns : Columns) (record : List (List Char)) : Prop where
  required : ∀ name ∈ required, ∃ x, columns.Cell record name (some x)
  optional : ∀ name ∈ ["phi", "area", "rho", "gen_pt"], ∃ v, columns.Cell record name v

section
variable {columns : Columns} {record : List (List Char)} {name : String}

theorem position?_eq_some_iff {i : Nat} :
    columns.position? name = some i ↔ columns.At name i := by
  simp only [position?, Option.map_eq_some_iff, List.idxOf?_eq_some_iff, At,
    List.getElem_reverse, List.length_reverse, List.getElem?_eq_some_iff, ne_eq, not_exists]
  constructor
  · rintro ⟨k, ⟨hk, hname, hfirst⟩, rfl⟩
    refine ⟨⟨by omega, hname⟩, fun j hj hlt hother => hfirst (columns.length - 1 - j) (by omega) ?_⟩
    simpa only [show columns.length - 1 - (columns.length - 1 - j) = j by omega] using hother
  · rintro ⟨⟨hi, hname⟩, hlast⟩
    refine ⟨columns.length - 1 - i, ⟨by omega, ?_, fun j hj => hlast _ (by omega) (by omega)⟩,
      by omega⟩
    simpa only [show columns.length - 1 - (columns.length - 1 - i) = i by omega] using hname

theorem field?_eq_some_iff {text : List Char} :
    columns.field? record name = some text ↔ columns.Holds record name text := by
  rw [field?, Holds]
  cases hposition : columns.position? name with
  | none =>
    have hnone : ∀ i, ¬ columns.At name i := fun i hi => by
      rw [position?_eq_some_iff.2 hi] at hposition
      cases hposition
    simp [hnone]
  | some i =>
    have hat : ∀ j, columns.At name j ↔ j = i := fun j => by
      rw [← position?_eq_some_iff, hposition, Option.some.injEq, eq_comm]
    simp only [hat, Option.filter_eq_some_iff, Option.map_eq_some_iff, Bool.not_eq_true',
      List.isEmpty_eq_false_iff]
    constructor
    · rintro ⟨⟨field, hfield, htrim⟩, hne⟩
      exact ⟨i, field, rfl, hfield, htrim, hne⟩
    · rintro ⟨_, field, rfl, hfield, htrim, hne⟩
      exact ⟨⟨field, hfield, htrim⟩, hne⟩

theorem number?_ok_iff {v : Option Float} :
    columns.number? record name = .ok v ↔ columns.Cell record name v := by
  rw [number?]
  cases hfield : columns.field? record name with
  | none =>
    have hblank : ∀ text, ¬ columns.Holds record name text := fun text htext => by
      rw [field?_eq_some_iff.2 htext] at hfield
      cases hfield
    constructor
    · rintro ⟨⟩
      exact .blank hblank
    · rintro (_ | ⟨htext, -, -⟩)
      · rfl
      · exact absurd htext (hblank _)
  | some text =>
    have htext := field?_eq_some_iff.1 hfield
    -- the text of a cell is the one that was found
    have hcell : columns.Cell record name v ↔
        ∃ x, v = some x ∧ Decimal.float? text = some x ∧ x.isFinite := by
      constructor
      · rintro (hblank | ⟨htext', hx, hfinite⟩)
        · exact absurd htext (hblank _)
        · cases hfield.symm.trans (field?_eq_some_iff.2 htext')
          exact ⟨_, rfl, hx, hfinite⟩
      · rintro ⟨x, rfl, hx, hfinite⟩
        exact .number htext hx hfinite
    rw [hcell]
    dsimp only
    cases hx : Decimal.float? text with
    | none => simp
    | some x =>
      dsimp only
      split
      · next hfinite =>
        constructor
        · rintro ⟨⟩
          exact ⟨x, rfl, rfl, hfinite⟩
        · rintro ⟨_, rfl, ⟨⟩, -⟩
          rfl
      · next hfinite =>
        constructor
        · rintro ⟨⟩
        · rintro ⟨_, -, ⟨⟩, hfinite'⟩
          exact absurd hfinite' hfinite

theorem requiredNumber_ok_iff {x : Float} :
    columns.requiredNumber record name = .ok x ↔ columns.Cell record name (some x) := by
  rw [← number?_ok_iff, requiredNumber]
  cases columns.number? record name with
  | error reason => simp
  | ok v => cases v <;> simp

theorem row_ok_iff {line : Nat} {row : InputRow} :
    columns.row line record = .ok row ↔ ∃ pt eta phi area rho genPt,
      columns.Cell record "pt" (some pt) ∧ columns.Cell record "eta" (some eta) ∧
      columns.Cell record "phi" phi ∧ columns.Cell record "area" area ∧
      columns.Cell record "rho" rho ∧ columns.Cell record "gen_pt" genPt ∧
      row = ⟨line, ⟨pt, eta, phi.getD 0, area.getD 0, rho.getD 0⟩, genPt⟩ := by
  simp only [Columns.row, bind_ok_iff, requiredNumber_ok_iff, number?_ok_iff]
  constructor
  · rintro ⟨pt, hpt, eta, heta, phi, hphi, area, harea, rho, hrho, genPt, hgenPt, hrow⟩
    cases hrow
    exact ⟨pt, eta, phi, area, rho, genPt, hpt, heta, hphi, harea, hrho, hgenPt, rfl⟩
  · rintro ⟨pt, eta, phi, area, rho, genPt, hpt, heta, hphi, harea, hrho, hgenPt, rfl⟩
    exact ⟨pt, hpt, eta, heta, phi, hphi, area, harea, rho, hrho, genPt, hgenPt, rfl⟩

/-- The records that become rows are those that hold a jet. -/
theorem exists_row_iff (line : Nat) :
    (∃ row, columns.row line record = .ok row) ↔ columns.Complete record := by
  constructor
  · rintro ⟨row, hrow⟩
    obtain ⟨pt, eta, phi, area, rho, genPt, hpt, heta, hphi, harea, hrho, hgenPt, -⟩ :=
      row_ok_iff.1 hrow
    exact ⟨by simpa [required] using ⟨⟨pt, hpt⟩, eta, heta⟩,
      by simpa using ⟨⟨phi, hphi⟩, ⟨area, harea⟩, ⟨rho, hrho⟩, genPt, hgenPt⟩⟩
  · rintro ⟨hrequired, hoptional⟩
    simp only [required, List.forall_mem_cons] at hrequired hoptional
    obtain ⟨⟨pt, hpt⟩, ⟨eta, heta⟩, -⟩ := hrequired
    obtain ⟨⟨phi, hphi⟩, ⟨area, harea⟩, ⟨rho, hrho⟩, ⟨genPt, hgenPt⟩, -⟩ := hoptional
    exact ⟨_, row_ok_iff.2
      ⟨pt, eta, phi, area, rho, genPt, hpt, heta, hphi, harea, hrho, hgenPt, rfl⟩⟩

end

end Columns

/-- All values of a row are finite. -/
structure InputRow.Finite (row : InputRow) : Prop where
  pt : row.jet.pt.isFinite
  eta : row.jet.eta.isFinite
  phi : row.jet.phi.isFinite
  area : row.jet.area.isFinite
  rho : row.jet.rho.isFinite
  genPt : ∀ x ∈ row.genPt, x.isFinite

section
variable {columns : Columns} {record : List (List Char)}

theorem Columns.Cell.isFinite {name : String} {v : Option Float}
    (h : columns.Cell record name v) : ∀ x ∈ v, x.isFinite := by
  intro x hx
  cases h with
  | blank => cases hx
  | number _ _ hfinite => cases hx; exact hfinite

theorem Columns.Cell.isFinite_getD {name : String} {v : Option Float}
    (h : columns.Cell record name v) : (v.getD 0).isFinite := by
  cases v with
  | none => decide
  | some x => exact h.isFinite x rfl

theorem Columns.finite_of_row {line : Nat} {row : InputRow}
    (h : columns.row line record = .ok row) : row.Finite := by
  obtain ⟨pt, eta, phi, area, rho, genPt, hpt, heta, hphi, harea, hrho, hgenPt, rfl⟩ :=
    row_ok_iff.1 h
  exact ⟨hpt.isFinite pt rfl, heta.isFinite eta rfl, hphi.isFinite_getD, harea.isFinite_getD,
    hrho.isFinite_getD, hgenPt.isFinite⟩

theorem Columns.line_of_row {line : Nat} {row : InputRow}
    (h : columns.row line record = .ok row) : row.line = line := by
  obtain ⟨pt, eta, phi, area, rho, genPt, -, -, -, -, -, -, rfl⟩ := row_ok_iff.1 h
  rfl

end

/-! ## Rows and rejected rows -/

/-- The number of what became of a record. -/
def numberOf : Except RejectedRow InputRow → Nat
  | .ok row => row.line
  | .error rejected => rejected.line

theorem readRecord_ok_iff {columns : Columns} {line : Nat}
    {record : Except EncodingError (List (List Char))} {row : InputRow} :
    readRecord columns line record = .ok row ↔
      ∃ texts, record = .ok texts ∧ columns.row line texts = .ok row := by
  cases record with
  | error e => simp [readRecord]
  | ok texts =>
    rw [readRecord]
    cases hrow : columns.row line texts <;> simp [hrow]

theorem numberOf_readRecord (columns : Columns) (line : Nat)
    (record : Except EncodingError (List (List Char))) :
    numberOf (readRecord columns line record) = line := by
  cases record with
  | error e => rfl
  | ok texts =>
    rw [readRecord]
    cases hrow : columns.row line texts with
    | error reason => rfl
    | ok row => exact Columns.line_of_row hrow

section
variable (results : List (Except RejectedRow InputRow))

theorem mem_sortRows_iff {row : InputRow} : row ∈ (sortRows results).1 ↔ .ok row ∈ results := by
  induction results with
  | nil => simp [sortRows]
  | cons result results ih =>
    cases result with
    | ok other => simp [sortRows, ih]
    | error rejected => simp [sortRows, ih]

theorem mem_rejected_iff {rejected : RejectedRow} :
    rejected ∈ (sortRows results).2 ↔ .error rejected ∈ results := by
  induction results with
  | nil => simp [sortRows]
  | cons result results ih =>
    cases result with
    | ok row => simp [sortRows, ih]
    | error other => simp [sortRows, ih]

theorem perm_sortRows :
    ((sortRows results).1.map (·.line) ++ (sortRows results).2.map (·.line)).Perm
      (results.map numberOf) := by
  induction results with
  | nil => exact .nil
  | cons result results ih =>
    cases result with
    | ok row => exact ih.cons row.line
    | error rejected => exact List.perm_middle.trans (ih.cons rejected.line)

theorem rows_sublist :
    ((sortRows results).1.map (·.line)).Sublist (results.map numberOf) := by
  induction results with
  | nil => exact .slnil
  | cons result results ih =>
    cases result with
    | ok row => exact ih.cons_cons row.line
    | error rejected => exact ih.cons rejected.line

theorem rejected_sublist :
    ((sortRows results).2.map (·.line)).Sublist (results.map numberOf) := by
  induction results with
  | nil => exact .slnil
  | cons result results ih =>
    cases result with
    | ok row => exact ih.cons row.line
    | error rejected => exact ih.cons_cons rejected.line

end

/-! ## Tables -/

/-- What became of the records of a table, in order. -/
def results (columns : Columns) (records : List (Csv.Record UInt8)) :
    List (Except RejectedRow InputRow) :=
  (((records.zipIdx 1).map fun (record, n) => recordTexts n record).zipIdx 2).map
    fun (record, line) => readRecord columns line record

section
variable (columns : Columns) (records : List (Csv.Record UInt8))

theorem map_numberOf_results :
    (results columns records).map numberOf = List.range' 2 records.length := by
  rw [results, List.map_map]
  refine (List.map_congr_left fun entry _ => ?_).trans
    ((List.zipIdx_map_snd 2 _).trans (by rw [List.length_map, List.length_zipIdx]))
  exact numberOf_readRecord columns entry.2 entry.1

theorem getElem?_results (i : Nat) :
    (results columns records)[i]? =
      records[i]?.map fun record => readRecord columns (i + 2) (recordTexts (i + 1) record) := by
  simp only [results, List.getElem?_map, List.getElem?_zipIdx, Option.map_map]
  cases records[i]? with
  | none => rfl
  | some record => simp [Nat.add_comm]

end

/-- How the jets of a table with some columns account for its records. -/
structure Ingested.Accounts (jets : Ingested) (columns : Columns)
    (records : List (Csv.Record UInt8)) : Prop where
  rowsRead_eq : jets.rowsRead = records.length
  /-- each number from 2 on is that of one row or of one rejected row -/
  lines_perm : (jets.rows.map (·.line) ++ jets.rejected.map (·.line)).Perm
    (List.range' 2 records.length)
  rows_sorted : (jets.rows.map (·.line)).Pairwise (· < ·)
  rejected_sorted : (jets.rejected.map (·.line)).Pairwise (· < ·)
  /-- a record becomes a row exactly if it is text and holds a jet -/
  row_iff : ∀ (i : Nat) (record : Csv.Record UInt8), records[i]? = some record →
    ((∃ row ∈ jets.rows, row.line = i + 2) ↔
      ∃ texts, recordTexts (i + 1) record = .ok texts ∧ columns.Complete texts)
  /-- a row has the values of its record -/
  row_eq : ∀ row ∈ jets.rows, ∃ i record texts, records[i]? = some record ∧ row.line = i + 2 ∧
    recordTexts (i + 1) record = .ok texts ∧ columns.row (i + 2) texts = .ok row
  finite : ∀ row ∈ jets.rows, row.Finite
  rows_ne_nil : jets.rows ≠ []

theorem mem_rows_iff {columns : Columns} {records : List (Csv.Record UInt8)} {row : InputRow} :
    row ∈ (sortRows (results columns records)).1 ↔ ∃ i record texts, records[i]? = some record ∧
      recordTexts (i + 1) record = .ok texts ∧ columns.row (i + 2) texts = .ok row := by
  rw [mem_sortRows_iff, List.mem_iff_getElem?]
  simp only [getElem?_results, Option.map_eq_some_iff, readRecord_ok_iff]
  constructor
  · rintro ⟨i, record, hrecord, texts, htexts, hrow⟩
    exact ⟨i, record, texts, hrecord, htexts, hrow⟩
  · rintro ⟨i, record, texts, hrecord, htexts, hrow⟩
    exact ⟨i, record, hrecord, texts, htexts, hrow⟩

theorem accounts_of_rows {columns : Columns} {records : List (Csv.Record UInt8)}
    (h : (sortRows (results columns records)).1 ≠ []) :
    Ingested.Accounts ⟨(sortRows (results columns records)).1,
      (sortRows (results columns records)).2, records.length⟩ columns records := by
  have hnumbers := map_numberOf_results columns records
  have hsorted : (List.range' 2 records.length).Pairwise (· < ·) := List.pairwise_lt_range' 1
  refine ⟨rfl, hnumbers ▸ perm_sortRows _, hsorted.sublist (hnumbers ▸ rows_sublist _),
    hsorted.sublist (hnumbers ▸ rejected_sublist _), fun i record hrecord => ?_, fun row hrow => ?_,
    fun row hrow => ?_, h⟩
  · constructor
    · rintro ⟨row, hrow, hline⟩
      obtain ⟨j, record', texts, hrecord', htexts, hrow⟩ := mem_rows_iff.1 hrow
      obtain rfl : j = i := by have := Columns.line_of_row hrow; omega
      cases hrecord.symm.trans hrecord'
      exact ⟨texts, htexts, (Columns.exists_row_iff _).1 ⟨row, hrow⟩⟩
    · rintro ⟨texts, htexts, hcomplete⟩
      obtain ⟨row, hrow⟩ := (Columns.exists_row_iff (i + 2)).2 hcomplete
      exact ⟨row, mem_rows_iff.2 ⟨i, record, texts, hrecord, htexts, hrow⟩,
        Columns.line_of_row hrow⟩
  · obtain ⟨i, record, texts, hrecord, htexts, hrow⟩ := mem_rows_iff.1 hrow
    exact ⟨i, record, texts, hrecord, Columns.line_of_row hrow, htexts, hrow⟩
  · obtain ⟨i, record, texts, -, -, hrow⟩ := mem_rows_iff.1 hrow
    exact Columns.finite_of_row hrow

/-- A table that is not refused has a header, and its jets are what becomes of the
    records after it. -/
theorem jets_of_ingest {bytes : List UInt8} {jets : Ingested} (h : ingest bytes = .ok jets) :
    ∃ header records names, Csv.recordsOfBytes bytes = header :: records ∧
      headerTexts header = .ok names ∧
      jets.rows = (sortRows (results (Columns.ofHeader names) records)).1 ∧
      jets.rejected = (sortRows (results (Columns.ofHeader names) records)).2 ∧
      jets.rowsRead = records.length ∧ jets.rows ≠ [] := by
  rw [ingest] at h
  cases hrecords : Csv.recordsOfBytes bytes with
  | nil => rw [hrecords] at h; cases h
  | cons header records =>
    rw [hrecords] at h
    dsimp only at h
    cases hnames : headerTexts header with
    | error e => rw [hnames] at h; cases h
    | ok names =>
      rw [hnames] at h
      refine ⟨header, records, names, rfl, hnames, ?_⟩
      dsimp only [ingestRecords] at h
      split at h
      · cases h
      · split at h
        · cases h
        · next hrows =>
          cases h
          exact ⟨rfl, rfl, by rw [List.length_map, List.length_zipIdx],
            mt List.isEmpty_iff.2 hrows⟩

/-- A table that is not refused has a header, and its jets account for the records
    after it. -/
theorem accounts_of_ingest {bytes : List UInt8} {jets : Ingested} (h : ingest bytes = .ok jets) :
    ∃ header records names, Csv.recordsOfBytes bytes = header :: records ∧
      headerTexts header = .ok names ∧ jets.Accounts (Columns.ofHeader names) records := by
  obtain ⟨header, records, names, hrecords, hnames, hrows, hrejected, hread, hne⟩ :=
    jets_of_ingest h
  obtain ⟨rows, rejected, rowsRead⟩ := jets
  dsimp only at hrows hrejected hread hne
  subst hrows hrejected hread
  exact ⟨header, records, names, hrecords, hnames, accounts_of_rows hne⟩

end JetEnergy.Batch
