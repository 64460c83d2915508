import JetEnergy.Command.Run
import JetEnergy.Proofs.Batch.Loading
import JetEnergy.Proofs.Batch.OutputRows
import JetEnergy.Proofs.Decimal.Products

/-!
  A jet on its own and the same jet in a batch.

  * `Verdict.toRow` is the output row that says what a verdict says.
  * `process_eq_reach`: without smearing, a pipeline makes of a jet the row of
    its verdict, and halts where the verdict halts.
  * `verdict_eq_pipeline`: so do the two commands with the same files, failure by
    failure.
  * `single_jet_as_in_batch` puts this together with the report and the exit code.
-/
namespace JetEnergy

open Correction Uncertainty Batch

namespace Verdict

/-- The output row that says what a verdict says. -/
def toRow (v : Verdict) (line : Nat) (genPt : Option Float) : OutputRow where
  line
  jet := v.jet
  genPt
  status := v.passage.outcome.label
  failedStage := v.passage.failedStage
  correctedPt := v.correctedPt
  scaleFactor := v.scaleFactor
  uncertaintyLow := (v.band.bind BandResult.band?).map (·.low)
  uncertaintyHigh := (v.band.bind BandResult.band?).map (·.high)
  finalPt := v.finalPt

/-- A verdict without a momentum is final; a momentum has its band looked up, and
    is shifted by it. -/
theorem consult_eq (v : Verdict) (table : Option Uncertainty.Table) :
    v.consult table = match v.correctedPt with
      | none => .ok { v with finalPt := none }
      | some pt => match table with
        | none => .ok { v with finalPt := some pt }
        | some t => (t.band (v.jet.withPt pt)).map fun result =>
            { v with
              band := some result
              finalPt := some (v.systematic.move result.band? pt) } := by
  unfold consult
  cases v.correctedPt with
  | none => cases table <;> rfl
  | some pt =>
    cases table with
    | none => rfl
    | some t =>
      dsimp only
      cases hband : t.band (v.jet.withPt pt) with
      | error h => rfl
      | ok result =>
        rw [Table.shift_of_band hband]
        rfl

section
variable {scale : Option Scale} {systematic : Systematic} {jet : Jet} {passage : Passage}

theorem ofPassage_of_failure (h : passage.outcome.value? = none) :
    ofPassage scale systematic jet passage = ⟨jet, passage, none, none, systematic, none⟩ := by
  unfold ofPassage
  simp only [h]

theorem ofPassage_of_value {pt : Float} (h : passage.outcome.value? = some pt) :
    ofPassage scale systematic jet passage =
      ⟨jet, passage, scale.map (·.factor pt), none, systematic, none⟩ := by
  unfold ofPassage
  rw [h]
  cases scale <;> rfl

end

/-- A factor that is not there changes nothing. -/
theorem correctedPt_eq (v : Verdict) :
    v.correctedPt = v.passage.outcome.value?.map (Pipeline.times · v.scaleFactor) := by
  rw [correctedPt]
  cases v.scaleFactor with
  | none => exact congrArg (Option.map · _) (funext Decimal.mul_one_eq)
  | some factor => rfl

theorem toRow_of_value {v : Verdict} {pt : Float} (h : v.passage.outcome.value? = some pt)
    (line : Nat) (genPt : Option Float) :
    v.toRow line genPt = { Pipeline.bare ⟨line, v.jet, genPt⟩ v.passage with
      correctedPt := some (Pipeline.times pt v.scaleFactor)
      scaleFactor := v.scaleFactor
      uncertaintyLow := (v.band.bind BandResult.band?).map (·.low)
      uncertaintyHigh := (v.band.bind BandResult.band?).map (·.high)
      finalPt := v.finalPt } := by
  rw [toRow, correctedPt_eq, h]
  rfl

/-- A batch without smearing makes of a jet the row of its verdict, and halts
    where the verdict does. -/
theorem process_eq_reach (chain : Chain Correction.Table) (scale : Option Scale)
    (table : Option Uncertainty.Table) (systematic : Systematic) (line : Nat) (jet : Jet)
    (genPt : Option Float) :
    Pipeline.process { chain, scale, shifting := table.map (⟨·, systematic⟩) } ⟨line, jet, genPt⟩ =
      (reach chain scale table systematic jet).map fun v => (v.toRow line genPt,
        { chain := (chain.run jet).2, scale, shifting := table.map (⟨·, systematic⟩) }) := by
  rw [Pipeline.process_eq, Pipeline.outputOf, reach, consult_eq, correctedPt_eq]
  dsimp only
  cases hvalue : (chain.run jet).1.outcome.value? with
  | none =>
    rw [ofPassage_of_failure hvalue]
    dsimp only
    rw [hvalue]
    refine congrArg (fun out => Except.ok (out, _)) ?_
    rw [toRow, correctedPt]
    dsimp only
    rw [hvalue]
    rfl
  | some pt =>
    rw [ofPassage_of_value hvalue]
    dsimp only
    rw [hvalue, Option.map_some, Pipeline.finish, Pipeline.shift_eq]
    cases table with
    | none =>
      refine congrArg (fun out => Except.ok (out, _)) ?_
      rw [toRow_of_value hvalue]
      rfl
    | some t =>
      have hunsmeared : ∀ x, Pipeline.times x none = x := fun _ => rfl
      simp only [Option.map_some, Pipeline.scaleFactor?, Pipeline.smearFactor?, hunsmeared]
      cases t.band (jet.withPt (Pipeline.times pt (scale.map (·.factor pt)))) with
      | error halt => rfl
      | ok result =>
        refine congrArg (fun out => Except.ok (out, _)) ?_
        rw [toRow_of_value hvalue]
        rfl

theorem of_reach {chain : Chain Correction.Table} {scale : Option Scale}
    {table : Option Uncertainty.Table} {systematic : Systematic} {jet : Jet} {v : Verdict}
    (h : reach chain scale table systematic jet = .ok v) :
    v.jet = jet ∧ v.passage = (chain.run jet).1 ∧ (v.correctedPt = none → v.band = none) := by
  rw [reach, consult_eq] at h
  cases hpt : (ofPassage scale systematic jet (chain.run jet).1).correctedPt with
  | none =>
    rw [hpt] at h
    cases h
    exact ⟨rfl, rfl, fun _ => rfl⟩
  | some pt =>
    rw [hpt] at h
    cases table with
    | none => cases h; exact ⟨rfl, rfl, fun _ => rfl⟩
    | some t =>
      dsimp only at h
      cases hband : t.band ((ofPassage scale systematic jet (chain.run jet).1).jet.withPt pt) with
      | error halt => rw [hband] at h; cases h
      | ok result =>
        rw [hband] at h
        cases h
        exact ⟨rfl, rfl, fun hnone => by cases hpt.symm.trans hnone⟩

theorem status_toRow_iff {v : Verdict} {line : Nat} {genPt : Option Float} :
    (v.toRow line genPt).status = "ok" ↔ v.correctedPt.isSome := by
  rw [correctedPt, Option.isSome_map]
  exact Outcome.label_eq_ok_iff

end Verdict

/-! ## Reports -/

section
variable {v : Verdict} {line : Nat} {genPt : Option Float}

theorem Report.verdict_of_value {pt : Float} (h : (v.toRow line genPt).correctedPt = some pt) :
    ∃ before after, Report.verdict v =
      before ++ s!"Corrected pt: {Decimal.writeFixed 4 pt}\n" ++ after := by
  have hpt : v.correctedPt = some pt := h
  refine ⟨Report.jetLine v.jet ++
      v.scaleFactor.elim "" (fun factor => s!"Residual scale: {Decimal.writeFixed 6 factor}\n"),
    s!"Factor: {Decimal.writeFixed 6 (pt / v.jet.pt)}\n" ++
      v.band.elim "" (fun band => Report.bandLine band ++ Report.shiftLine v), ?_⟩
  rw [Report.verdict, Report.correctionLines, hpt]
  cases v.scaleFactor <;> cases v.band <;>
    simp only [String.append_assoc, Option.elim_none, Option.elim_some]

theorem Report.verdict_of_failure (h : (v.toRow line genPt).correctedPt = none)
    (hband : v.band = none) :
    Report.verdict v = Report.jetLine v.jet ++ Report.failureLine v.passage := by
  have hpt : v.correctedPt = none := h
  rw [Report.verdict, Report.correctionLines, hpt, hband]
  exact String.append_empty

end

/-! ## Commands -/

namespace Command

/-- The settings of a batch without smearing that loads what `correct` loads. -/
def CorrectSettings.asBatch (s : CorrectSettings) (jets : String) (seed : UInt64)
    (workers : Option Nat) : Batch.Settings where
  jets
  chain := s.chain
  uncertainty := s.uncertainty
  systematic := s.systematic
  residual := s.residual
  seed
  workers

/-- A batch fails to load where a single jet does, and gives the row of its
    verdict otherwise. -/
theorem verdict_eq_pipeline (s : CorrectSettings) (jets : String) (seed : UInt64)
    (workers : Option Nat) (draw : Resolution.Draw) (d : Directory) (line : Nat)
    (genPt : Option Float) :
    (do
      let p ← (s.asBatch jets seed workers).pipeline draw d
      Stop.ofHalt (p.output ⟨line, s.jet, genPt⟩)) = (s.verdict d).map (·.toRow line genPt) := by
  obtain ⟨scale, hscale⟩ := exists_residualIf s.residual
  unfold Settings.pipeline CorrectSettings.verdict
  dsimp only [CorrectSettings.asBatch]
  rw [hscale]
  cases hchain : Chain.load d s.chain with
  | error e => rfl
  | ok chain =>
    cases htable : Table.loadFor d s.systematic s.uncertainty with
    | error e => rfl
    | ok table =>
      show Stop.ofHalt
          (Pipeline.output { chain, scale, shifting := table.map (⟨·, s.systematic⟩) } _) =
        (Stop.ofHalt (Verdict.reach chain scale table s.systematic s.jet)).map (·.toRow line genPt)
      rw [Pipeline.output, Verdict.process_eq_reach]
      cases Verdict.reach chain scale table s.systematic s.jet <;> rfl

theorem exists_run_correct {s : CorrectSettings} {d : Directory} {v : Verdict}
    (h : s.verdict d = .ok v) (draw : Resolution.Draw) :
    ∃ r, (Command.correct s).run draw d = .ok r ∧ (s.json = false → r.output = Report.verdict v) ∧
      r.exitCode = if v.correctedPt.isSome then 0 else 4 := by
  have hresponse : correctResponse s d = .ok ((({
      output := if s.json then printed (Report.verdictJson v) else Report.verdict v
      directory := d } : Response)).failIf (failureOf v)) := by
    rw [correctResponse, h]
    rfl
  refine ⟨_, by rw [run, respond, hresponse], ?_⟩
  rw [failureOf]
  cases v.correctedPt.isSome with
  | true => exact ⟨fun hjson => by rw [hjson]; rfl, rfl⟩
  | false => exact ⟨fun hjson => by rw [hjson]; rfl, rfl⟩

end Command

/-- **A jet on its own is corrected as in a batch.**  For every chain, residual
    scale, table and variation, a pipeline without smearing makes of a jet the row
    of its verdict: with the outcome of the chain, the corrected momentum, the
    factor, the band and the final momentum of the verdict. It halts where the
    verdict does. The report prints the corrected momentum of the row, or that
    there is none. On files, a batch cannot be loaded where the single jet cannot,
    for the same reason; where there is a verdict, the command exits with 4 if the
    row is not `ok`, and with 0 if it is. -/
theorem single_jet_as_in_batch :
    (∀ (chain : Chain Correction.Table) scale table systematic line jet genPt,
      Pipeline.process { chain, scale, shifting := table.map (⟨·, systematic⟩) }
          ⟨line, jet, genPt⟩ =
        (Verdict.reach chain scale table systematic jet).map (fun v => (v.toRow line genPt,
          { chain := (chain.run jet).2, scale, shifting := table.map (⟨·, systematic⟩) })) ∧
      ∀ v, Verdict.reach chain scale table systematic jet = .ok v →
        v.jet = jet ∧ v.passage = (chain.run jet).1 ∧
        (∀ pt, (v.toRow line genPt).correctedPt = some pt → ∃ before after, Report.verdict v =
          before ++ s!"Corrected pt: {Decimal.writeFixed 4 pt}\n" ++ after) ∧
        ((v.toRow line genPt).correctedPt = none →
          Report.verdict v = Report.jetLine jet ++ Report.failureLine v.passage)) ∧
    ∀ (s : Command.CorrectSettings) jets seed workers draw d line genPt,
      (do
        let p ← (s.asBatch jets seed workers).pipeline draw d
        Stop.ofHalt (p.output ⟨line, s.jet, genPt⟩)) = (s.verdict d).map (·.toRow line genPt) ∧
      ∀ v, s.verdict d = .ok v → ∃ r, (Command.correct s).run draw d = .ok r ∧
        (s.json = false → r.output = Report.verdict v) ∧
        (r.exitCode = 4 ↔ (v.toRow line genPt).status ≠ "ok") ∧
        (r.exitCode = 0 ↔ (v.toRow line genPt).status = "ok") := by
  refine ⟨fun chain scale table systematic line jet genPt =>
    ⟨Verdict.process_eq_reach .., fun v hv => ?_⟩,
    fun s jets seed workers draw d line genPt => ⟨Command.verdict_eq_pipeline .., fun v hv => ?_⟩⟩
  · obtain ⟨rfl, hpassage, hband⟩ := Verdict.of_reach hv
    exact ⟨rfl, hpassage, fun pt hpt => Report.verdict_of_value hpt,
      fun hnone => Report.verdict_of_failure hnone (hband hnone)⟩
  · obtain ⟨r, hr, houtput, hexit⟩ := Command.exists_run_correct hv draw
    refine ⟨r, hr, houtput, ?_⟩
    rw [ne_eq, Verdict.status_toRow_iff, hexit]
    cases v.correctedPt.isSome <;> simp

end JetEnergy
