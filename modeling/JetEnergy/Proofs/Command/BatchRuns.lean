import JetEnergy.Command.Run
import JetEnergy.Proofs.Batch.Loading
import JetEnergy.Proofs.Directory

/-!
  What a batch leaves behind.

  * `Leaves` are the responses to a batch that corrected its jets: its table is
    printed, or goes to a file, and then nothing else changes.
  * `run_of_failure`, `run_of_halt` and `exists_run_of_rows`: the command after a run
    that failed, one that halted and one that gave rows.
  * `failing_batch_leaves_no_trace` puts this together with the steps of a run.
-/
namespace JetEnergy.Command

open Batch

/-- The responses that leave a table and a report: the table is printed, or it is
    all that a file holds afterwards. A file that cannot be written leaves things
    as they were. -/
inductive Leaves (d : Directory) (table report : String) : Option String → Response → Prop
  | printed : Leaves d table report none ⟨0, table, report, d⟩
  | written {name : String} {after : Directory} :
      d.write name table.toUTF8.toList = .ok after →
      d.Rewritten name table.toUTF8.toList after →
      Leaves d table report (some name) ⟨0, "", report, after⟩
  | refused {name : String} {e : AccessError} :
      d.write name table.toUTF8.toList = .error e →
      Leaves d table report (some name) ⟨4, "", (Failure.outputRefused name e).message ++ "\n", d⟩

section
variable {s : Settings} {draw : Resolution.Draw} {d : Directory} (target : Option String)

theorem fail_eq (d : Directory) (f : Failure) :
    ({ directory := d } : Response).fail f = ⟨f.exitCode, "", f.message ++ "\n", d⟩ := by
  rw [Response.fail, String.empty_append]

theorem run_of_failure {f : Failure} (h : s.run draw d = .error (.failure f)) :
    (batch s target).run draw d = .ok ⟨f.exitCode, "", f.message ++ "\n", d⟩ := by
  rw [run, respond, batchResponse, h, ← fail_eq]
  rfl

theorem run_of_halt {halt : Halt} (h : s.run draw d = .error (.halt halt)) :
    (batch s target).run draw d = .error halt := by
  rw [run, respond, batchResponse, h]
  rfl

theorem exists_run_of_rows {r : Run} (h : s.run draw d = .ok r) :
    ∃ response, (batch s target).run draw d = .ok response ∧
      Leaves d (exportRows r.rows)
        (Report.batch r.rows r.ingested.rowsRead r.ingested.rejected) target response := by
  cases target with
  | none =>
    refine ⟨_, ?_, .printed⟩
    rw [run, respond, batchResponse, h]
    rfl
  | some name =>
    -- the last step of the command is the write, and the run is over by then
    cases hwrite : d.write name (exportRows r.rows).toUTF8.toList with
    | error e =>
      have hlast : (batch s (some name)).respond draw d =
          .error (.failure (.outputRefused name e)) := by
        rw [respond, batchResponse, h]
        dsimp only [bind, Except.bind]
        rw [hwrite]
      refine ⟨_, ?_, .refused hwrite⟩
      rw [run, hlast]
      exact congrArg Except.ok (fail_eq d (.outputRefused name e))
    | ok after =>
      have hlast : (batch s (some name)).respond draw d =
          .ok ⟨0, "", Report.batch r.rows r.ingested.rowsRead r.ingested.rejected, after⟩ := by
        rw [respond, batchResponse, h]
        dsimp only [bind, Except.bind]
        rw [hwrite]
        rfl
      refine ⟨_, ?_, .written hwrite (Directory.rewritten_of_write hwrite)⟩
      rw [run, hlast]

end

theorem exportRows_eq {outs : List OutputRow} (h : outs ≠ []) :
    exportRows outs = String.ofList (Csv.write
      ((outputHeader :: outs.map OutputRow.fields).map (·.map String.toList))) := by
  cases outs with
  | nil => exact absurd rfl h
  | cons out outs => rfl

/-- **A failing batch leaves no trace.**  If a step of a batch fails, taken in the
    order of the correction files, the uncertainty file or the variation that asks
    for one, and the jets, then the first one that does so gives the message, the
    exit code is 2, nothing is printed and the directory is as it was. The one
    exception is a file whose reading halts, which is a correction file with a row
    whose widths fit in no word, or the uncertainty file: then there is neither a
    message nor an exit code, whatever the later files are like.  If no step fails,
    the batch halts exactly at a row that is stuck. Otherwise its table, the header
    and the output row of every row in order, computed from the directory as it
    was, is printed or becomes the content of the output file, wherever that is,
    and no other file changes; only an output file that cannot be written makes it
    fail, and leaves the directory as it was. -/
theorem failing_batch_leaves_no_trace (s : Settings) (target : Option String)
    (draw : Resolution.Draw) (d : Directory) :
    (∀ f rest, s.stops d = .failure f :: rest →
      (batch s target).run draw d = .ok ⟨2, "", f.message ++ "\n", d⟩) ∧
    (∀ halt rest, s.stops d = .halt halt :: rest →
      ((∃ name ∈ s.chain, ∃ text, d.text name = .ok text ∧
          Correction.Table.parse name text = .error (.halt halt) ∧
          ∃ r ∈ TableFile.rowsAmong (TableFile.events text),
            Decimal.indexBound ≤ Correction.leastFields r.context ∧ halt = .tooWide r.line) ∨
        ∃ name text, s.uncertainty = some name ∧ d.text name = .ok text ∧
          Uncertainty.Table.parse name text = .error halt) ∧
      (batch s target).run draw d = .error halt) ∧
    (s.stops d = [] → ∃ p jets, s.pipeline draw d = .ok p ∧ Batch.load d s.jets = .ok jets ∧
      ((∃ row ∈ jets.rows, p.Stuck row) →
        (batch s target).run draw d = .error .missingNode) ∧
      ((∀ row ∈ jets.rows, ¬ p.Stuck row) → ∃ outs response,
        List.Forall₂ (fun row out => ∃ after, p.process row = .ok (out, after)) jets.rows outs ∧
        exportRows outs = String.ofList (Csv.write
          ((outputHeader :: outs.map OutputRow.fields).map (·.map String.toList))) ∧
        (batch s target).run draw d = .ok response ∧
        Leaves d (exportRows outs) (Report.batch outs jets.rowsRead jets.rejected) target
          response)) := by
  rcases s.run_cases draw d with ⟨stop, rest, hstops, hrun⟩ | ⟨p, jets, hstops, hp, hjets, hrun⟩
  · refine ⟨fun f rest' hfirst => ?_, fun halt rest' hfirst => ?_, fun hnone => ?_⟩
    · cases hstops.symm.trans hfirst
      have hcode : f.exitCode = 2 := Settings.exitCode_of_mem_stops (hstops ▸ List.mem_cons_self ..)
      exact hcode ▸ run_of_failure target hrun
    · cases hstops.symm.trans hfirst
      refine ⟨(Settings.halt_mem_stops_iff.1 (hstops ▸ List.mem_cons_self ..)).imp_left ?_,
        run_of_halt target hrun⟩
      rintro ⟨name, hname, text, htext, hparse⟩
      exact ⟨name, hname, text, htext, hparse, Correction.exists_wide_row hparse⟩
    · cases hstops.symm.trans hnone
  · refine ⟨fun f rest hfirst => ?_, fun halt rest hfirst => ?_, fun _ => ?_⟩
    · cases hstops.symm.trans hfirst
    · cases hstops.symm.trans hfirst
    · have hloaded := Settings.loaded_of_pipeline hp
      refine ⟨p, jets, hp, hjets, fun hstuck => ?_, fun hfree => ?_⟩
      · have hrows : correctRows p jets.rows s.workers = .error .missingNode :=
          (Pipeline.correctRows_error_iff hloaded).2 ⟨rfl, hstuck⟩
        rw [hrows] at hrun
        exact run_of_halt target hrun
      · obtain ⟨outs, houts⟩ : ∃ outs, correctRows p jets.rows s.workers = .ok outs :=
          (Pipeline.exists_correctRows_iff hloaded).2 hfree
        rw [houts] at hrun
        obtain ⟨response, hresponse, hleaves⟩ := exists_run_of_rows target hrun
        have hrows := mapM_ok_iff.1 ((correctRows_eq ..).symm.trans houts)
        have hne : outs ≠ [] := by
          rintro rfl
          exact rows_ne_nil_of_load hjets (List.forall₂_nil_right_iff.1 hrows)
        exact ⟨outs, response, hrows.imp fun row out => Pipeline.output_ok_iff.1,
          exportRows_eq hne, hresponse, hleaves⟩

/-- An empty correction file and an uncertainty file with a row that is too short
    for the bins that its first heading names. -/
def shortRowDirectory : Directory where
  files := [(["c"], []),
    (["u"], "\x7b2 JetEta JetPhi 0 None\x7d\n\x7b1 JetEta\x7d\n-5 5 0\n".toUTF8.toList)]

/-- A batch with these files, whose jets are missing. -/
def shortRowSettings : Settings where
  jets := "j"
  chain := ["c"]
  uncertainty := some "u"
  seed := 42

theorem find_shortRow {name : String} (h : name = "c" ∨ name = "u" ∨ name = "j") :
    shortRowDirectory.find name = .ok [name] := by
  have hnul : name.contains '\x00' = false := by rcases h with rfl | rfl | rfl <;> simp
  have hsteps : Directory.stepsOf name = [name] := by rcases h with rfl | rfl | rfl <;> cbv
  rw [Directory.find, hnul, hsteps]
  rcases h with rfl | rfl | rfl <;> decide +kernel

theorem stops_shortRow : shortRowSettings.stops shortRowDirectory =
    [.halt (.missingBound 3 1), .failure (.jetsUnreadable "j" .notFound)] := by
  have hcorrections : errorOf? (Correction.Table.load shortRowDirectory "c") = none := by
    rw [Correction.Table.load, Directory.text, Directory.read, find_shortRow (by decide)]
    decide +kernel
  have hchain : Correction.Chain.stops shortRowDirectory ["c"] = [] := by
    rw [Correction.Chain.stops]
    · exact List.filterMap_cons_none hcorrections
    · exact List.cons_ne_nil _ _
  have hband : Uncertainty.Table.loadFor shortRowDirectory .nominal (some "u") =
      .error (.halt (.missingBound 3 1)) := by
    have htext : shortRowDirectory.text "u" =
        .ok "\x7b2 JetEta JetPhi 0 None\x7d\n\x7b1 JetEta\x7d\n-5 5 0\n".toList := by
      rw [Directory.text, Directory.read, find_shortRow (by decide)]
      cbv
    have hparse : errorOf? (Uncertainty.Table.parse "u"
        "\x7b2 JetEta JetPhi 0 None\x7d\n\x7b1 JetEta\x7d\n-5 5 0\n".toList) =
          some (.missingBound 3 1) := by decide +kernel
    exact Uncertainty.Table.loadFor_error_iff.2
      (Or.inr (Or.inl ⟨"u", _, _, rfl, htext, errorOf?_eq_some_iff.1 hparse, rfl⟩))
  have hjets : Batch.load shortRowDirectory "j" = .error (.jetsUnreadable "j" .notFound) := by
    rw [Batch.load, Directory.read, find_shortRow (by decide)]
    cbv
  rw [Settings.stops]
  dsimp only [shortRowSettings]
  rw [hchain, hband, hjets]
  rfl

/-- The uncertainty file halts the batch before its jets are missed. -/
theorem batch_halts_of_short_row :
    shortRowSettings.stops shortRowDirectory =
        [.halt (.missingBound 3 1), .failure (.jetsUnreadable "j" .notFound)] ∧
      ∀ target draw,
        (batch shortRowSettings target).run draw shortRowDirectory = .error (.missingBound 3 1) :=
  ⟨stops_shortRow, fun target draw =>
    ((failing_batch_leaves_no_trace shortRowSettings target draw shortRowDirectory).2.1 _ _
      stops_shortRow).2⟩

end JetEnergy.Command
