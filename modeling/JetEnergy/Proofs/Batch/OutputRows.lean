import JetEnergy.Proofs.Batch.Workers

/-!
  What the columns of an output row say about each other.

  * `OutputRow.unshiftedPt` and `OutputRow.recomputedPt` give the momentum before
    and after the shift from the other columns of a row.
  * `Table.shift_of_band`, `Pipeline.shift_eq`: the band that a row shows is the
    one that it is shifted by.
  * `Pipeline.InStep` says how the columns of a row go together.
    `inStep_of_failure`, `inStep_of_value`: they do so for a jet that the chain
    refused, and for one that it gave a momentum.
  * `columns_in_step` puts this together, by `inStep_of_output`.
-/
namespace JetEnergy

open Correction Uncertainty

theorem Outcome.label_eq_ok_iff {o : Outcome} : o.label = "ok" ↔ o.value?.isSome := by
  cases o <;> simp [label, value?]

/-! ## Bands and shifts -/

theorem Uncertainty.Table.shift_of_band {t : Table} {jet : Jet} {result : BandResult Float}
    (h : t.band jet = .ok result) (s : Systematic) :
    t.shift jet s = .ok (s.move result.band? jet.pt) := by
  rw [shift, h]
  split
  · next hs => rw [hs]; rfl
  · rfl

namespace Batch

/-- The band that goes into the columns of a jet is the one that its momentum is
    shifted by. -/
theorem Pipeline.shift_eq (p : Pipeline) (jet : Jet) :
    p.shift jet = match p.shifting with
      | none => .ok (none, jet.pt)
      | some s => (s.table.band jet).map fun result =>
          (result.band?, s.systematic.move result.band? jet.pt) := by
  rw [shift]
  cases p.shifting with
  | none => rfl
  | some s =>
    dsimp only
    cases hband : s.table.band jet with
    | error h => rfl
    | ok result =>
      rw [Uncertainty.Table.shift_of_band hband]
      rfl

/-! ## Momenta by columns -/

namespace OutputRow

/-- The momentum of a row before its shift, by its other columns. -/
def unshiftedPt (out : OutputRow) : Option Float :=
  out.correctedPt.map fun pt =>
    match out.smearFactor with
    | some factor => pt * factor
    | none => pt

/-- The final momentum of a row under a variation, by its other columns. -/
def recomputedPt (out : OutputRow) (s : Systematic) : Option Float :=
  out.unshiftedPt.map fun pt =>
    match s, out.uncertaintyLow, out.uncertaintyHigh with
    | .up, some low, some _ => pt * (1 + low)
    | .down, some _, some high => pt * (1 - high)
    | _, _, _ => pt

end OutputRow

namespace Pipeline

/-- The variation of a pipeline; there is none without a table. -/
def systematic (p : Pipeline) : Systematic :=
  match p.shifting with
  | some s => s.systematic
  | none => .nominal

/-- How the columns of the output row of an input row go together. -/
structure InStep (p : Pipeline) (row : InputRow) (out : OutputRow) : Prop where
  input : out.line = row.line ∧ out.jet = row.jet ∧ out.genPt = row.genPt
  failedStage_iff : out.status = "ok" ↔ out.failedStage = none
  correctedPt_iff : out.status = "ok" ↔ out.correctedPt.isSome
  finalPt_iff : out.status = "ok" ↔ out.finalPt.isSome
  /-- a failed chain leaves all other columns empty -/
  of_failure : out.status ≠ "ok" → out.correctedPt = none ∧ out.scaleFactor = none ∧
    out.smearFactor = none ∧ out.uncertaintyLow = none ∧ out.uncertaintyHigh = none ∧
    out.finalPt = none
  scaleFactor_iff : out.scaleFactor.isSome ↔ out.status = "ok" ∧ p.scale.isSome
  smearFactor_iff : out.smearFactor.isSome ↔
    out.status = "ok" ∧ p.smearing.isSome ∧ row.genPt.isSome
  low_iff_high : out.uncertaintyLow.isSome ↔ out.uncertaintyHigh.isSome
  of_low : out.uncertaintyLow.isSome → out.status = "ok" ∧ p.shifting.isSome
  correctedPt_eq : out.correctedPt =
    (p.chain.run row.jet).1.outcome.value?.map fun pt =>
      match out.scaleFactor with
      | some factor => pt * factor
      | none => pt
  finalPt_eq : out.finalPt = out.recomputedPt p.systematic
  /-- the band is that of the momentum before the shift, in the raw direction -/
  band_eq : ∀ s pt, p.shifting = some s → out.unshiftedPt = some pt →
    ∃ result, s.table.band (row.jet.withPt pt) = .ok result ∧
      out.uncertaintyLow = result.band?.map (·.low) ∧
      out.uncertaintyHigh = result.band?.map (·.high)

section
variable {p : Pipeline} {row : InputRow}

theorem status_bare_iff :
    (bare row (p.chain.run row.jet).1).status = "ok" ↔
      (p.chain.run row.jet).1.failedStage = none := by
  rw [← (Chain.ends_run p.chain row.jet).value_iff]
  refine Outcome.label_eq_ok_iff.trans (Option.isSome_iff_exists.trans ?_)
  exact exists_congr fun pt => Outcome.value?_eq_some_iff

theorem inStep_of_failure (h : (p.chain.run row.jet).1.outcome.value? = none) :
    p.InStep row (bare row (p.chain.run row.jet).1) := by
  have hbad : (bare row (p.chain.run row.jet).1).status ≠ "ok" := fun hok => by
    have hsome := Outcome.label_eq_ok_iff.1 hok
    rw [h] at hsome
    cases hsome
  exact {
    input := ⟨rfl, rfl, rfl⟩
    failedStage_iff := status_bare_iff
    correctedPt_iff := iff_of_false hbad Bool.false_ne_true
    finalPt_iff := iff_of_false hbad Bool.false_ne_true
    of_failure := fun _ => ⟨rfl, rfl, rfl, rfl, rfl, rfl⟩
    scaleFactor_iff := iff_of_false Bool.false_ne_true fun hok => hbad hok.1
    smearFactor_iff := iff_of_false Bool.false_ne_true fun hok => hbad hok.1
    low_iff_high := Iff.rfl
    of_low := fun hlow => absurd hlow Bool.false_ne_true
    correctedPt_eq := by rw [h]; rfl
    finalPt_eq := rfl
    band_eq := fun _ _ _ hpt => by cases hpt }

/-- The row of a jet with a momentum: the band is that of the momentum before the
    shift, and there is none without a table. -/
theorem exists_band_of_finish {out : OutputRow} {pt : Float}
    (h : p.finish row (bare row (p.chain.run row.jet).1) pt = .ok out) :
    ∃ band, out =
        { bare row (p.chain.run row.jet).1 with
          correctedPt := some (times pt (p.scaleFactor? pt))
          scaleFactor := p.scaleFactor? pt
          smearFactor := p.smearFactor? row
          uncertaintyLow := band.map (·.low)
          uncertaintyHigh := band.map (·.high)
          finalPt := some (p.systematic.move band
            (times (times pt (p.scaleFactor? pt)) (p.smearFactor? row))) } ∧
      (p.shifting = none → band = none) ∧
      ∀ s, p.shifting = some s → ∃ result, s.table.band (row.jet.withPt
        (times (times pt (p.scaleFactor? pt)) (p.smearFactor? row))) = .ok result ∧
          band = result.band? := by
  rw [finish, shift_eq] at h
  rw [systematic]
  cases hs : p.shifting with
  | none =>
    rw [hs] at h
    cases h
    exact ⟨none, rfl, fun _ => rfl, fun s hs => by cases hs⟩
  | some s =>
    rw [hs] at h
    dsimp only at h
    cases hband : s.table.band (row.jet.withPt
        (times (times pt (p.scaleFactor? pt)) (p.smearFactor? row))) with
    | error halt => rw [hband] at h; cases h
    | ok result =>
      rw [hband] at h
      cases h
      refine ⟨result.band?, rfl, (nomatch ·), fun s' hs' => ?_⟩
      cases hs'
      exact ⟨result, hband, rfl⟩

theorem isSome_smearFactor? :
    (p.smearFactor? row).isSome ↔ p.smearing.isSome ∧ row.genPt.isSome := by
  rw [smearFactor?]
  cases p.smearing <;> cases row.genPt <;> simp

theorem inStep_of_value {out : OutputRow} {pt : Float}
    (hpt : (p.chain.run row.jet).1.outcome = .value pt)
    (h : p.finish row (bare row (p.chain.run row.jet).1) pt = .ok out) : p.InStep row out := by
  have hok : (bare row (p.chain.run row.jet).1).status = "ok" :=
    Outcome.label_eq_ok_iff.2 (by rw [hpt]; rfl)
  obtain ⟨band, rfl, hnone, hsome⟩ := exists_band_of_finish h
  exact {
    input := ⟨rfl, rfl, rfl⟩
    failedStage_iff := status_bare_iff
    correctedPt_iff := iff_of_true hok rfl
    finalPt_iff := iff_of_true hok rfl
    of_failure := fun hbad => absurd hok hbad
    scaleFactor_iff := by simpa [scaleFactor?] using fun _ => hok
    smearFactor_iff := isSome_smearFactor?.trans ⟨fun h => ⟨hok, h⟩, And.right⟩
    low_iff_high := by simp
    of_low := by
      cases hs : p.shifting with
      | none => simp [hnone hs]
      | some s => exact fun _ => ⟨hok, rfl⟩
    correctedPt_eq := by rw [hpt]; rfl
    finalPt_eq := by
      cases p.systematic <;> cases band <;> rfl
    band_eq := fun s pt' hs hpt' => by
      cases hpt'
      obtain ⟨result, hresult, rfl⟩ := hsome s hs
      exact ⟨result, hresult, rfl, rfl⟩ }

/-- Whatever a pipeline gives for a row, its columns go together. -/
theorem inStep_of_output {out : OutputRow} (h : p.output row = .ok out) : p.InStep row out := by
  rw [output_eq, outputOf] at h
  cases hvalue : (p.chain.run row.jet).1.outcome.value? with
  | none =>
    rw [hvalue] at h
    cases h
    exact inStep_of_failure hvalue
  | some pt =>
    rw [hvalue] at h
    exact inStep_of_value (Outcome.value?_eq_some_iff.1 hvalue) h

end

end Pipeline

/-- **The columns of an output row are in step.**  What a row has in common with
    its input row is the same in both. A row is `ok` exactly if no stage failed,
    and then it has a corrected and a final momentum; otherwise all columns of
    the correction are empty. The factors of the residual scale and of the
    smearing are there where the row is `ok` and they are configured, the latter
    for jets with a match; the two ends of the band are there together. The
    corrected momentum is that of the chain times the scale factor. The final one
    can be recomputed from the columns before it: smeared, and moved to the edge
    of the band in the row, which is the one at the smeared momentum in the
    direction of the input. -/
theorem columns_in_step {p after : Pipeline} {row : InputRow} {out : OutputRow}
    (h : p.process row = .ok (out, after)) : p.InStep row out :=
  Pipeline.inStep_of_output (Pipeline.output_ok_iff.2 ⟨after, h⟩)

/-- A pipeline with every step: its chain squares the momentum, and the factors
    after it are 3 and 2. -/
def fullPipeline : Pipeline where
  chain := [{ level := Chain.momentumTable }]
  scale := some ⟨{ source := ['3'], arity := 1, tree := .number 3 }, []⟩
  smearing := some ⟨{ variation := .nominal }, 0, fun _ _ => 2⟩
  shifting := some ⟨⟨"table", [⟨[], [⟨⟨0.25, 0.5⟩, 100⟩, ⟨⟨0.75, 1.5⟩, 200⟩], 2⟩], {}⟩, .up⟩

/-- A jet with a match goes through all steps of a pipeline, and its momentum comes
    to lie between two nodes. -/
theorem columns_of_shifted_row : ∃ out after,
    fullPipeline.process ⟨2, ⟨5, 0, 0, 0, 0⟩, some 5⟩ = .ok (out, after) ∧
    fullPipeline.InStep ⟨2, ⟨5, 0, 0, 0, 0⟩, some 5⟩ out ∧ out.status = "ok" ∧
    out.scaleFactor = some 3 ∧ out.correctedPt = some (25 * 3) ∧ out.smearFactor = some 2 ∧
    out.uncertaintyLow = some 0.5 ∧ out.uncertaintyHigh = some 1 ∧
    out.finalPt = some (25 * 3 * 2 * (1 + 0.5)) := by
  have hrow : (fullPipeline.process ⟨2, ⟨5, 0, 0, 0, 0⟩, some 5⟩).toOption.any fun (out, _) =>
      out.status = "ok" ∧ out.scaleFactor = some 3 ∧ out.correctedPt = some (25 * 3) ∧
        out.smearFactor = some 2 ∧ out.uncertaintyLow = some 0.5 ∧ out.uncertaintyHigh = some 1 ∧
        out.finalPt = some (25 * 3 * 2 * (1 + 0.5)) := by
    decide +kernel
  cases h : fullPipeline.process ⟨2, ⟨5, 0, 0, 0, 0⟩, some 5⟩ with
  | error halt => rw [h] at hrow; cases hrow
  | ok answer =>
    obtain ⟨out, after⟩ := answer
    rw [h] at hrow
    exact ⟨out, after, rfl, columns_in_step h, of_decide_eq_true hrow⟩

end Batch

end JetEnergy
