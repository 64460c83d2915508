import Mathlib
import JetEnergy.Proofs.Batch.Ingesting
import JetEnergy.Proofs.Batch.OutputRows
import JetEnergy.Proofs.Lists
import JetEnergy.Report.Batch

/-!
  The figures in the report on a batch.

  * `Figures` are the numbers and rejected rows that a report shows, and
    `Figures.lines` the report with them. `batch_eq`: every report is of this
    form.
  * `failureStatuses_sorted`, `mem_failureStatuses_iff`, `sum_failureCount`: the
    statuses of the jets that were not corrected, and how many jets have them.
  * `Figures.Reconcile` says how the figures agree with each other and with the
    jets that they are about; `reconcile_figures` that those of a report do.
  * `no_jet_lost` puts this together with the records that the jets come from.
-/
namespace JetEnergy

open Batch

namespace Report

/-! ## Failures by status -/

section
variable (outs : List OutputRow)

theorem mem_failureStatuses_iff {status : String} :
    status ∈ failureStatuses outs ↔
      ∃ out ∈ outs, out.isCorrected = false ∧ out.status = status := by
  simp [failureStatuses, List.mem_mergeSort, and_assoc]

theorem failureStatuses_sorted : (failureStatuses outs).Pairwise (· < ·) := by
  have hle : (failureStatuses outs).Pairwise (· ≤ ·) := by
    refine List.Pairwise.sublist (eraseDups_spec _).1 ?_
    have hsorted := @List.pairwise_mergeSort String (· ≤ ·)
      (fun a b c => by simpa using le_trans) (fun a b => by simpa using le_total a b)
      ((outs.filter (!·.isCorrected)).map (·.status))
    simpa using hsorted
  exact (hle.and (eraseDups_spec _).2).imp fun hab => lt_of_le_of_ne hab.1 hab.2

theorem failureCount_eq (status : String) :
    failureCount outs status = ((outs.filter (!·.isCorrected)).map (·.status)).count status := by
  rw [failureCount, List.count_eq_countP, List.countP_map, List.countP_filter]
  refine List.countP_congr fun out _ => ?_
  simp [and_comm]

/-- The jets that were not corrected, by status. -/
theorem sum_failureCount :
    ((failureStatuses outs).map (failureCount outs)).sum = outs.countP (!·.isCorrected) := by
  have hmem : ∀ status, status ∈ failureStatuses outs ↔
      status ∈ (outs.filter (!·.isCorrected)).map (·.status) := by
    intro status
    rw [failureStatuses, List.mem_eraseDups, List.mem_mergeSort]
  have hnodup : (failureStatuses outs).Nodup := (eraseDups_spec _).2
  rw [funext (failureCount_eq outs), sum_count_of_nodup hnodup hmem, List.length_map,
    List.countP_eq_length_filter]

end

/-! ## Figures -/

/-- What a report on a batch shows. -/
structure Figures where
  read : Nat
  jets : Nat
  corrected : Nat
  skipped : Nat
  /-- the statuses of jets that were not corrected, with the number of those jets -/
  failures : List (String × Nat)
  /-- the rejected rows that are shown one by one -/
  shown : List RejectedRow
  /-- how many more of them there are -/
  more : Nat

namespace Figures

/-- The lines of the report with these figures. -/
def lines (f : Figures) : List String :=
  s!"Rows: read={f.read} | jets={f.jets} | corrected={f.corrected} | skipped={f.skipped}\n"
    :: f.failures.map (fun (status, count) => s!"- {status}: {count}\n")
    ++ f.shown.map (fun r => s!"- line {r.line}: {r.reason}\n")
    ++ if f.more = 0 then [] else [s!"- ... {f.more} more\n"]

/-- How figures agree with each other, with the jets of a batch and with its
    rejected rows. -/
structure Reconcile (f : Figures) (outs : List OutputRow) (rejected : List RejectedRow) :
    Prop where
  read_eq : f.read = f.jets + f.skipped
  jets_eq : f.jets = outs.length
  corrected_eq : f.corrected = outs.countP (·.status = "ok")
  skipped_eq : f.skipped = rejected.length
  jets_sum : f.jets = f.corrected + (f.failures.map Prod.snd).sum
  /-- each status is there once, in order -/
  failures_sorted : (f.failures.map Prod.fst).Pairwise (· < ·)
  ok_not_mem : "ok" ∉ f.failures.map Prod.fst
  failure_iff : ∀ status count, (status, count) ∈ f.failures ↔
    status ≠ "ok" ∧ 0 < count ∧ count = outs.countP (·.status = status)
  shown_prefix : f.shown <+: rejected
  shown_length : f.shown.length = min 5 f.skipped
  shown_add_more : f.shown.length + f.more = f.skipped

end Figures

/-- The figures of the report on a batch. -/
def figures (outs : List OutputRow) (rowsRead : Nat) (rejected : List RejectedRow) : Figures where
  read := rowsRead
  jets := outs.length
  corrected := outs.countP (·.isCorrected)
  skipped := rejected.length
  failures := (failureStatuses outs).map fun status => (status, failureCount outs status)
  shown := rejected.take shownCount
  more := rejected.length - shownCount

theorem batch_eq (outs : List OutputRow) (rowsRead : Nat) (rejected : List RejectedRow) :
    batch outs rowsRead rejected = String.join (figures outs rowsRead rejected).lines := by
  rw [batch, batchLines, rejectedLines, Figures.lines, figures]
  dsimp only
  rw [List.map_map]
  split
  · simp [Function.comp_def]
  · simp [Function.comp_def]

section
variable {outs : List OutputRow} {rejected : List RejectedRow}
  (hstatus : ∀ out ∈ outs, out.status = "ok" ↔ out.isCorrected = true)
include hstatus

theorem failureCount_of_ne {status : String} (hne : status ≠ "ok") :
    failureCount outs status = outs.countP (·.status = status) := by
  refine List.countP_congr fun out hout => ?_
  have hbad : out.status = status → ¬ out.isCorrected = true := by
    rintro rfl
    exact mt (hstatus out hout).2 hne
  simpa using hbad

theorem ok_not_mem_failureStatuses : "ok" ∉ failureStatuses outs := by
  rw [mem_failureStatuses_iff]
  rintro ⟨out, hout, hbad, hok⟩
  rw [(hstatus out hout).1 hok] at hbad
  cases hbad

theorem mem_failures_iff {status : String} {count : Nat} :
    (status ∈ failureStatuses outs ∧ failureCount outs status = count) ↔
      status ≠ "ok" ∧ 0 < count ∧ count = outs.countP (·.status = status) := by
  constructor
  · rintro ⟨hmem, rfl⟩
    have hne : status ≠ "ok" := fun h => ok_not_mem_failureStatuses hstatus (h ▸ hmem)
    obtain ⟨out, hout, hbad, rfl⟩ := (mem_failureStatuses_iff outs).1 hmem
    refine ⟨hne, List.countP_pos_iff.2 ⟨out, hout, by simp [hbad]⟩, ?_⟩
    exact failureCount_of_ne hstatus hne
  · rintro ⟨hne, hpos, rfl⟩
    obtain ⟨out, hout, hsame⟩ := List.countP_pos_iff.1 hpos
    have hsame : out.status = status := of_decide_eq_true hsame
    refine ⟨(mem_failureStatuses_iff outs).2 ⟨out, hout, ?_, hsame⟩,
      failureCount_of_ne hstatus hne⟩
    rw [Bool.eq_false_iff]
    exact mt (hstatus out hout).2 (hsame ▸ hne)

theorem reconcile_figures {rowsRead : Nat} (hread : rowsRead = outs.length + rejected.length) :
    (figures outs rowsRead rejected).Reconcile outs rejected := by
  have hstatuses : (figures outs rowsRead rejected).failures.map Prod.fst =
      failureStatuses outs := by
    rw [figures, List.map_map]
    exact List.map_id _
  have hcounts : (figures outs rowsRead rejected).failures.map Prod.snd =
      (failureStatuses outs).map (failureCount outs) := by
    rw [figures, List.map_map]
    rfl
  have hshown : (figures outs rowsRead rejected).shown.length = min 5 rejected.length :=
    List.length_take
  exact {
    read_eq := hread
    jets_eq := rfl
    corrected_eq := List.countP_congr fun out hout => by simpa using (hstatus out hout).symm
    skipped_eq := rfl
    jets_sum := by
      rw [hcounts, sum_failureCount]
      exact (List.length_eq_countP_add_countP (·.isCorrected)).trans (by simp [figures])
    failures_sorted := hstatuses ▸ failureStatuses_sorted outs
    ok_not_mem := hstatuses ▸ ok_not_mem_failureStatuses hstatus
    failure_iff := fun status count => by
      rw [← mem_failures_iff hstatus]
      simp [figures]
    shown_prefix := List.take_prefix ..
    shown_length := hshown
    shown_add_more := by
      rw [hshown]
      show min 5 rejected.length + (rejected.length - 5) = rejected.length
      omega }

end

end Report

/-- **No jet is lost or counted twice in a batch.**  A table that is not refused
    has a header, and every record after it becomes one row or one rejected row,
    numbered from 2 on, in order. It becomes a row exactly if it is text, has
    finite numbers for `pt` and `eta`, and in each other column a finite number or
    nothing; then all values of the row are finite. At least one record does so.
    If a pipeline returns for every row, the figures in the report on its output
    rows agree: the records read are the jets and the skipped rows; the jets are
    those that were corrected and those that were not, by status, each status once
    and in order, and never `ok`; the skipped rows are those shown, the first five
    at most, and the number of those that are not. -/
theorem no_jet_lost {bytes : List UInt8} {jets : Ingested} (h : ingest bytes = .ok jets) :
    ∃ header records names, Csv.recordsOfBytes bytes = header :: records ∧
      headerTexts header = .ok names ∧ jets.Accounts (Columns.ofHeader names) records ∧
      ∀ p : Pipeline, (∀ row ∈ jets.rows, ∃ out after, p.process row = .ok (out, after)) →
        ∃ outs, (∀ workers, correctRows p jets.rows workers = .ok outs) ∧
          outs.map (·.line) = jets.rows.map (·.line) ∧
          ∃ f : Report.Figures,
            Report.batch outs jets.rowsRead jets.rejected = String.join f.lines ∧
            f.read = records.length ∧ f.jets = jets.rows.length ∧
            f.Reconcile outs jets.rejected := by
  obtain ⟨header, records, names, hrecords, hnames, haccounts⟩ := accounts_of_ingest h
  refine ⟨header, records, names, hrecords, hnames, haccounts, fun p hreturns => ?_⟩
  obtain ⟨outs, houts⟩ : ∃ outs, jets.rows.mapM p.output = .ok outs :=
    exists_mapM_iff.2 fun row hrow => by
      obtain ⟨out, hout⟩ := hreturns row hrow
      exact ⟨out, Pipeline.output_ok_iff.2 hout⟩
  have hrows : List.Forall₂ p.InStep jets.rows outs :=
    (mapM_ok_iff.1 houts).imp fun row out => Pipeline.inStep_of_output
  have hlength : outs.length = jets.rows.length := hrows.length_eq.symm
  have hlines : jets.rows.map (·.line) = outs.map (·.line) := by
    rw [← List.forall₂_eq_eq_eq, List.forall₂_map_left_iff, List.forall₂_map_right_iff]
    exact hrows.imp fun row out hrow => hrow.input.1.symm
  have hread : jets.rowsRead = outs.length + jets.rejected.length := by
    have hlengths := haccounts.lines_perm.length_eq
    simp only [List.length_append, List.length_map, List.length_range'] at hlengths
    rw [haccounts.rowsRead_eq, ← hlengths, hlength]
  have hstatus : ∀ out ∈ outs, out.status = "ok" ↔ out.isCorrected = true := by
    intro out hout
    obtain ⟨i, hi, rfl⟩ := List.getElem_of_mem hout
    exact (hrows.get (hlength ▸ hi) hi).finalPt_iff
  exact ⟨outs, fun workers => (correctRows_eq ..).trans houts, hlines.symm,
    Report.figures outs jets.rowsRead jets.rejected, Report.batch_eq .., haccounts.rowsRead_eq,
    hlength, Report.reconcile_figures hstatus hread⟩

/-- Three records, the first of which is corrected, the second has no entry, and
    the third holds no jet. -/
theorem no_jet_lost_of_three_records : ∃ jets outs,
    ingest "pt,eta\n5,0\n5,2\nx,3\n".toUTF8.toList = .ok jets ∧
      jets.rejected = [⟨4, "Invalid `pt` value: 'x'"⟩] ∧
      (∀ workers, correctRows { chain := [{ level := Correction.Chain.momentumTable }] }
        jets.rows workers = .ok outs) ∧
      outs.map (·.line) = [2, 3] ∧ outs.map (·.status) = ["ok", "no_match"] ∧
      ∃ f : Report.Figures, Report.batch outs jets.rowsRead jets.rejected = String.join f.lines ∧
        f.Reconcile outs jets.rejected ∧ f.read = 3 ∧ f.jets = 2 ∧ f.corrected = 1 ∧
        f.skipped = 1 ∧ ("no_match", 1) ∈ f.failures ∧ f.shown = jets.rejected ∧ f.more = 0 := by
  have hpinned : (ingest "pt,eta\n5,0\n5,2\nx,3\n".toUTF8.toList).toOption.any fun jets =>
      jets.rejected = [⟨4, "Invalid `pt` value: 'x'"⟩] ∧ jets.rowsRead = 3 ∧
        (jets.rows.mapM (Pipeline.output
          { chain := [{ level := Correction.Chain.momentumTable }] })).toOption.any (fun outs =>
            outs.map (·.line) = [2, 3] ∧ outs.map (·.status) = ["ok", "no_match"]) := by
    decide +kernel
  cases hjets : ingest "pt,eta\n5,0\n5,2\nx,3\n".toUTF8.toList with
  | error e => rw [hjets] at hpinned; cases hpinned
  | ok jets =>
    rw [hjets] at hpinned
    obtain ⟨hrejected, hrecords, hrows⟩ := of_decide_eq_true hpinned
    obtain ⟨header, records, names, -, -, haccounts, hbatch⟩ := no_jet_lost hjets
    obtain ⟨outs, houts, -, f, hreport, hfound, -, hreconcile⟩ :=
      hbatch { chain := [{ level := Correction.Chain.momentumTable }] } fun row _ => by
        rw [Pipeline.process_eq, Pipeline.outputOf]
        split <;> exact ⟨_, _, rfl⟩
    have hmapM := (correctRows_eq ..).symm.trans (houts none)
    rw [hmapM] at hrows
    obtain ⟨hlines, hstatuses⟩ := of_decide_eq_true hrows
    have hcount : ∀ status, outs.countP (·.status = status) =
        ["ok", "no_match"].countP (· = status) := fun status => by
      rw [← hstatuses, List.countP_map]
      rfl
    have hread : f.read = 3 := hfound.trans (haccounts.rowsRead_eq.symm.trans hrecords)
    have hskipped : f.skipped = 1 := hreconcile.skipped_eq.trans (by rw [hrejected]; rfl)
    have hshown : f.shown.length = 1 := hreconcile.shown_length.trans (by rw [hskipped]; rfl)
    refine ⟨jets, outs, rfl, hrejected, houts, hlines, hstatuses, f, hreport, hreconcile, hread,
      ?_, hreconcile.corrected_eq.trans (hcount "ok"), hskipped,
      (hreconcile.failure_iff _ _).2 ⟨by decide, by decide, (hcount "no_match").symm⟩,
      hreconcile.shown_prefix.eq_of_length (by rw [hshown, hrejected]; rfl), ?_⟩
    · have htotal := hreconcile.read_eq
      omega
    · have htotal := hreconcile.shown_add_more
      omega

end JetEnergy
