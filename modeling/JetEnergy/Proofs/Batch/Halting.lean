import JetEnergy.Proofs.Batch.Workers
import JetEnergy.Proofs.Uncertainty.Bands

/-!
  Jets that end a batch.

  * `Pipeline.Stuck`: a row whose momentum, after the chain, the residual scale
    and the smearing, has no place among the nodes of its entry.
  * `process_error_iff`: a pipeline halts at such a row and at no other;
    `exists_correctRows_iff` and `correctRows_error_iff`: so does a batch, however
    many workers there are.
  * `halts_iff_stuck` puts this together with the bands of a single table.
-/
namespace JetEnergy.Batch

open Uncertainty

namespace Pipeline

/-- Whether the uncertainty table of a pipeline was read from a file. -/
def Loaded (p : Pipeline) : Prop :=
  ∀ s, p.shifting = some s → ∃ source text, Uncertainty.Table.parse source text = .ok s.table

/-- The momentum at which the band of a row is looked up if the chain gave it
    momentum `pt`. -/
def scaled (p : Pipeline) (row : InputRow) (pt : Float) : Float :=
  times (times pt (p.scaleFactor? pt)) (p.smearFactor? row)

/-- The chain gave the row a momentum, and at what became of it there is no
    band. -/
def Stuck (p : Pipeline) (row : InputRow) : Prop :=
  ∃ s pt, p.shifting = some s ∧ (p.chain.run row.jet).1.outcome = .value pt ∧
    s.table.Stuck (row.jet.withPt (p.scaled row pt))

section
variable {p : Pipeline} (hp : p.Loaded)
include hp

theorem shift_error_iff {jet : Jet} {halt : Halt} :
    p.shift jet = .error halt ↔
      halt = .missingNode ∧ ∃ s, p.shifting = some s ∧ s.table.Stuck jet := by
  rw [shift]
  cases hs : p.shifting with
  | none => simp
  | some s =>
    obtain ⟨source, text, ht⟩ := hp s hs
    have hband : s.table.band jet = .error halt ↔ halt = .missingNode ∧ s.table.Stuck jet :=
      Uncertainty.Table.band_error_iff ht
    simp only [Option.some.injEq, exists_eq_left']
    rw [← hband]
    cases hresult : s.table.band jet with
    | error halt' => simp
    | ok result =>
      -- once the band is there, the shift finds it again
      simp only [map_error_iff, Uncertainty.Table.shift_error_iff ht]
      constructor
      · rintro ⟨rfl, -, hstuck⟩
        exact hresult ▸ hband.2 ⟨rfl, hstuck⟩
      · intro h; cases h

/-- A pipeline halts at the rows that are stuck. -/
theorem process_error_iff {row : InputRow} {halt : Halt} :
    p.process row = .error halt ↔ halt = .missingNode ∧ p.Stuck row := by
  rw [process_eq, map_error_iff, outputOf, Stuck]
  cases hvalue : (p.chain.run row.jet).1.outcome.value? with
  | none =>
    have hne : ∀ pt, (p.chain.run row.jet).1.outcome ≠ .value pt := by
      intro pt h
      rw [h] at hvalue
      cases hvalue
    simp [hne]
  | some pt =>
    rw [Outcome.value?_eq_some_iff] at hvalue
    have hfinish : p.finish row (bare row (p.chain.run row.jet).1) pt = .error halt ↔
        p.shift (row.jet.withPt (p.scaled row pt)) = .error halt := by
      rw [finish, scaled]
      cases p.shift (row.jet.withPt (times (times pt (p.scaleFactor? pt)) (p.smearFactor? row))) <;>
        simp
    dsimp only
    rw [hfinish, shift_error_iff hp, hvalue]
    simp

theorem exists_process_iff {row : InputRow} :
    (∃ answer, p.process row = .ok answer) ↔ ¬ p.Stuck row :=
  exists_ok_iff fun _ => process_error_iff hp

/-- One row that is stuck is enough to lose a batch. -/
theorem exists_correctRows_iff {rows : List InputRow} {workers : Option Nat} :
    (∃ outs, correctRows p rows workers = .ok outs) ↔ ∀ row ∈ rows, ¬ p.Stuck row := by
  rw [correctRows_eq, exists_mapM_iff]
  refine forall₂_congr fun row _ => ?_
  rw [← exists_process_iff hp]
  simp only [output_ok_iff, Prod.exists]

theorem correctRows_error_iff {rows : List InputRow} {workers : Option Nat} {halt : Halt} :
    correctRows p rows workers = .error halt ↔ halt = .missingNode ∧ ∃ row ∈ rows, p.Stuck row := by
  have hreturns : (∃ outs, correctRows p rows workers = .ok outs) ↔ ∀ row ∈ rows, ¬ p.Stuck row :=
    exists_correctRows_iff hp
  cases hrows : correctRows p rows workers with
  | ok outs =>
    have hfree := hreturns.1 ⟨outs, hrows⟩
    constructor
    · intro h; cases h
    · rintro ⟨-, row, hrow, hstuck⟩
      exact absurd hstuck (hfree row hrow)
  | error h =>
    have hstuck : ∃ row ∈ rows, p.Stuck row := by
      by_contra hfree
      obtain ⟨outs, houts⟩ := hreturns.2 fun row hrow hstuck => hfree ⟨row, hrow, hstuck⟩
      rw [hrows] at houts
      cases houts
    rw [correctRows_eq, mapM_error_iff] at hrows
    obtain ⟨above, row, below, -, -, hrow⟩ := hrows
    obtain ⟨rfl, -⟩ := (process_error_iff hp).1 (map_error_iff.1 hrow)
    rw [Except.error.injEq, eq_comm]
    exact (and_iff_left hstuck).symm

end

end Pipeline

/-- **When a jet ends its batch.**  In a table that was read from a file, an
    access fails only where the band of a jet has no segment. This is so exactly
    for a jet whose momentum is no number and whose entry has a single node;
    every other jet gets a band, or the answer that it has no entry or that its
    entry has no nodes, and its momentum can be shifted either way.  A pipeline
    with such a table halts exactly at the rows that come to be such jets after
    the chain, the residual scale and the smearing, and a batch halts exactly if
    one of its rows does, however many workers there are. -/
theorem halts_iff_stuck {source : String} {text : List Char} {t : Uncertainty.Table}
    (ht : Uncertainty.Table.parse source text = .ok t) :
    (∀ jet, t.guardedBand jet = (t.band jet).mapError (fun _ => .outside) ∧
      ((t.Stuck jet ∧ t.band jet = .error .missingNode) ∨
        (¬ t.Stuck jet ∧
          ((t.find? jet = none ∧ t.band jet = .ok .noMatch) ∨
            ∃ e ∈ t.entries, t.find? jet = some e ∧
              ((e.nodes = [] ∧ t.band jet = .ok .noNodes) ∨
                (e.nodes ≠ [] ∧ ∃ b, t.band jet = .ok (.band b)))))) ∧
      ∀ s, (∃ pt, t.shift jet s = .ok pt) ↔ s = .nominal ∨ ¬ t.Stuck jet) ∧
    ∀ p : Pipeline, (∀ s, p.shifting = some s → s.table = t) →
      (∀ row, (∃ answer, p.process row = .ok answer) ↔ ¬ p.Stuck row) ∧
      ∀ rows workers, (∃ outs, correctRows p rows workers = .ok outs) ↔
        ∀ row ∈ rows, ¬ p.Stuck row := by
  refine ⟨fun jet => ⟨t.guardedBand_eq jet, Uncertainty.Table.band_cases ht jet, fun s => ?_⟩,
    fun p hp => ?_⟩
  · rw [exists_ok_iff fun _ => Uncertainty.Table.shift_error_iff ht, not_and_or,
      not_not]
  · have hloaded : p.Loaded := fun s hs => ⟨source, text, hp s hs ▸ ht⟩
    exact ⟨fun row => Pipeline.exists_process_iff hloaded,
      fun rows workers => Pipeline.exists_correctRows_iff hloaded⟩

/-- A single node, and a jet whose momentum is no number. -/
theorem halts_of_single_node : ∃ t, Uncertainty.Table.parse "table"
    "\x7b1 JetEta 0 None\x7d\n-5 5 3 10 0.1 0.2\n".toList = .ok t ∧
    t.band ⟨0 / 0, 0, 0, 0, 0⟩ = .error .missingNode ∧
    ∀ workers, ¬ ∃ outs, correctRows { chain := [], shifting := some ⟨t, .nominal⟩ }
      [⟨2, ⟨1, 0, 0, 0, 0⟩, none⟩, ⟨3, ⟨0 / 0, 0, 0, 0, 0⟩, none⟩] workers = .ok outs := by
  obtain ⟨r, hrows, hbounds, hholds, hone⟩ : ∃ r, longRows
      "\x7b1 JetEta 0 None\x7d\n-5 5 3 10 0.1 0.2\n".toList = [r] ∧
      2 * r.context.bins.length ≤ r.fields.length ∧
      (entryOf r).holds ⟨0 / 0, 0, 0, 0, 0⟩ = true ∧ (entryOf r).nodes.length = 1 :=
    ⟨_, by with_unfolding_all rfl, by decide, by decide +kernel, by decide +kernel⟩
  obtain ⟨t, ht⟩ := (exists_parse_iff "table" _).2 fun r' hr' => by
    rw [hrows, List.mem_singleton] at hr'
    rw [hr']
    exact hbounds
  have hfind : t.find? ⟨0 / 0, 0, 0, 0, 0⟩ = some (entryOf r) := by
    rw [Uncertainty.Table.find?, entries_of_parse ht, hrows, List.map_singleton,
      List.find?_singleton, if_pos hholds]
  have hstuck : t.Stuck ⟨0 / 0, 0, 0, 0, 0⟩ := ⟨by decide, entryOf r, hfind, hone⟩
  obtain ⟨htable, hpipeline⟩ := halts_iff_stuck ht
  refine ⟨t, ht, ?_, fun workers hreturns => ?_⟩
  · obtain ⟨-, hband | hband, -⟩ := htable ⟨0 / 0, 0, 0, 0, 0⟩
    · exact hband.2
    · exact absurd hstuck hband.1
  · obtain ⟨-, hbatch⟩ := hpipeline { chain := [], shifting := some ⟨t, .nominal⟩ }
      (fun s hs => by cases hs; rfl)
    exact (hbatch _ workers).1 hreturns _ (List.mem_cons_of_mem _ (List.mem_cons_self ..))
      ⟨_, _, rfl, rfl, hstuck⟩

end JetEnergy.Batch
