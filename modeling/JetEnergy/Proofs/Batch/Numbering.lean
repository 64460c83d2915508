import JetEnergy.Proofs.Batch.Ingesting
import JetEnergy.Proofs.Csv.Lines

/-!
  The numbers of rows, against the lines they stand on.

  A row and a rejected row carry the number of their record, the header being 1.
  This is the line on which the record starts as long as each line holds a record:
  `numbers_lag_lines` says by how much the two differ otherwise.

  * `Ingested.outcomes` are the rows and the rejected rows of a table.
  * `ComesFrom` ties one of them to its record and to the place in the table where
    this record starts.
-/
namespace JetEnergy.Batch

/-- What became of the records of a table: its rows and its rejected rows. -/
def Ingested.outcomes (jets : Ingested) : List (Except RejectedRow InputRow) :=
  jets.rows.map .ok ++ jets.rejected.map .error

/-- Record `n` of a table, the header being 0, starts at place `k` of its contents,
    and the outcome is what became of it. -/
structure ComesFrom (bytes : List UInt8) (columns : Columns)
    (outcome : Except RejectedRow InputRow) (n k : Nat) : Prop where
  starts : Csv.Starts (Csv.contents bytes) n k
  /-- the record is the first one that is read from this place on -/
  record : ∃ record, (Csv.recordsOfBytes bytes)[n]? = some record ∧
    (Csv.records ((Csv.contents bytes).drop k)).head?.map (·.fields) = some record.fields ∧
    outcome = readRecord columns (n + 1) (recordTexts n record)

theorem ComesFrom.numberOf_eq {bytes : List UInt8} {columns : Columns}
    {outcome : Except RejectedRow InputRow} {n k : Nat}
    (h : ComesFrom bytes columns outcome n k) : numberOf outcome = n + 1 := by
  obtain ⟨record, -, -, rfl⟩ := h.record
  exact numberOf_readRecord ..

theorem mem_outcomes_iff {jets : Ingested} {results : List (Except RejectedRow InputRow)}
    (hrows : jets.rows = (sortRows results).1) (hrejected : jets.rejected = (sortRows results).2)
    {outcome : Except RejectedRow InputRow} : outcome ∈ jets.outcomes ↔ outcome ∈ results := by
  rw [Ingested.outcomes, hrows, hrejected, List.mem_append, List.mem_map, List.mem_map]
  cases outcome with
  | ok row => simp [mem_sortRows_iff]
  | error rejected => simp [mem_rejected_iff]

/-- Each record starts somewhere, and reads the same from there on. -/
theorem exists_starts_of_getElem? {bytes : List UInt8} {n : Nat} {record : Csv.Record UInt8}
    (h : (Csv.recordsOfBytes bytes)[n]? = some record) :
    ∃ k, Csv.Starts (Csv.contents bytes) n k ∧
      (Csv.records ((Csv.contents bytes).drop k)).head?.map (·.fields) = some record.fields := by
  have hfields : ((Csv.records (Csv.contents bytes)).map (·.fields))[n]? = some record.fields := by
    rw [← Csv.fields_recordsOfBytes, List.getElem?_map, h, Option.map_some]
  obtain ⟨hn, -⟩ := List.getElem?_eq_some_iff.1 hfields
  obtain ⟨k, hk⟩ := Csv.exists_starts (by simpa using hn)
  refine ⟨k, hk, ?_⟩
  rw [← List.head?_map, ← hk.fields_eq, List.head?_map, List.head?_drop, ← List.getElem?_map,
    hfields]

/-- **A number lags its line by the lines that hold no record.**  Each row and each
    rejected row of a table comes from one of its records, which starts at one
    place. The line of this place is the number that the row carries, and one more
    for each empty line and for each line end in a quoted stretch before it; so the
    number is the line exactly if there are none. -/
theorem numbers_lag_lines {bytes : List UInt8} {jets : Ingested} (h : ingest bytes = .ok jets) :
    ∃ header names, (Csv.recordsOfBytes bytes)[0]? = some header ∧
      headerTexts header = .ok names ∧
      ∀ outcome ∈ jets.outcomes, ∃ i k,
        ComesFrom bytes (Columns.ofHeader names) outcome (i + 1) k ∧
        Csv.lineAt bytes (Csv.placeOf bytes k) = numberOf outcome +
          Csv.emptyLines (Csv.contents bytes) k + Csv.innerLines (Csv.contents bytes) k ∧
        (numberOf outcome = Csv.lineAt bytes (Csv.placeOf bytes k) ↔
          Csv.emptyLines (Csv.contents bytes) k = 0 ∧
          Csv.innerLines (Csv.contents bytes) k = 0) := by
  obtain ⟨header, records, names, hrecords, hnames, hrows, hrejected, -, -⟩ := jets_of_ingest h
  refine ⟨header, names, by rw [hrecords]; rfl, hnames, fun outcome houtcome => ?_⟩
  obtain ⟨i, hi⟩ := List.mem_iff_getElem?.1 ((mem_outcomes_iff hrows hrejected).1 houtcome)
  rw [getElem?_results, Option.map_eq_some_iff] at hi
  obtain ⟨record, hrecord, houtcome⟩ := hi
  have hnth : (Csv.recordsOfBytes bytes)[i + 1]? = some record := by
    rw [hrecords, List.getElem?_cons_succ, hrecord]
  obtain ⟨k, hstarts, hread⟩ := exists_starts_of_getElem? hnth
  have hfrom : ComesFrom bytes (Columns.ofHeader names) outcome (i + 1) k :=
    ⟨hstarts, record, hnth, hread, houtcome.symm⟩
  have hline : Csv.lineAt bytes (Csv.placeOf bytes k) = numberOf outcome +
      Csv.emptyLines (Csv.contents bytes) k + Csv.innerLines (Csv.contents bytes) k := by
    rw [Csv.lineAt_placeOf, hstarts.lineAt_eq, hfrom.numberOf_eq, Nat.add_comm 1]
  exact ⟨i, k, hfrom, hline, by omega⟩

/-- An empty line after the header: the one jet starts on line 3 and carries the
    number 2. -/
theorem numbers_lag_lines_of_empty_line : ∃ bytes jets outcome columns k,
    bytes = "pt,eta\n\n40,0.1\n".toUTF8.toList ∧ ingest bytes = .ok jets ∧
      outcome ∈ jets.outcomes ∧ ComesFrom bytes columns outcome 1 k ∧
      numberOf outcome = 2 ∧ Csv.lineAt bytes (Csv.placeOf bytes k) = 3 := by
  let bytes := "pt,eta\n\n40,0.1\n".toUTF8.toList
  have hrecords : (Csv.recordsOfBytes bytes).length = 2 := by decide +kernel
  have hstarts : Csv.Starts (Csv.contents bytes) 1 8 :=
    ⟨by decide +kernel, by decide +kernel, 0x34, by decide +kernel, by decide +kernel⟩
  have hread : (ingest bytes).toOption.any fun jets => !jets.rows.isEmpty := by decide +kernel
  cases hjets : ingest bytes with
  | error e => rw [hjets] at hread; cases hread
  | ok jets =>
    obtain ⟨header, names, -, -, hall⟩ := numbers_lag_lines hjets
    obtain ⟨row, hrow⟩ := List.exists_mem_of_ne_nil jets.rows fun hnil => by
      simp [hjets, hnil, Except.toOption] at hread
    have houtcome : .ok row ∈ jets.outcomes :=
      List.mem_append_left _ (List.mem_map_of_mem hrow)
    obtain ⟨i, k, hfrom, -, -⟩ := hall _ houtcome
    obtain ⟨record, hrecord, -⟩ := hfrom.record
    obtain ⟨hi, -⟩ := List.getElem?_eq_some_iff.1 hrecord
    obtain rfl : i = 0 := by omega
    obtain rfl : k = 8 := hfrom.starts.unique hstarts
    exact ⟨bytes, jets, _, _, 8, rfl, hjets, houtcome, hfrom, hfrom.numberOf_eq,
      by decide +kernel⟩

end JetEnergy.Batch
