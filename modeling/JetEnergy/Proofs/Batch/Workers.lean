import Mathlib.Data.List.Forall2
import Mathlib.Logic.Relation
import JetEnergy.Batch.Pipeline
import JetEnergy.Proofs.Correction.Chains
import JetEnergy.Proofs.Correction.Reading

/-!
  Rows that are shared out among workers.

  * `Pipeline.pristine` is a pipeline whose stages hold no jet yet.  What a
    pipeline makes of a row is what its pristine copy makes of it:
    `output_pristine`, and using it keeps this: `pristine_process`.
  * `correctRows_eq`: sharing rows out changes nothing, for any number of
    workers.
  * `Crew` are workers at work: in every `Crew.Step` one of them takes a row that
    no one has taken.  `Crew.Sound` is what every step keeps.
  * `rows_independent` puts this together.
-/
namespace JetEnergy.Batch

open Correction

/-! ## One row -/

namespace Pipeline

/-- The pipeline before any jet was put into its stages. -/
def pristine (p : Pipeline) : Pipeline :=
  { p with chain := p.chain.map (·.put .zero) }

/-- The output row of an input row that fared so in the chain. -/
def outputOf (p : Pipeline) (row : InputRow) (passage : Passage) : Except Halt OutputRow :=
  match passage.outcome.value? with
  | none => .ok (bare row passage)
  | some pt => p.finish row (bare row passage) pt

/-- The output row of an input row. -/
def output (p : Pipeline) (row : InputRow) : Except Halt OutputRow :=
  (p.process row).map Prod.fst

theorem process_eq (p : Pipeline) (row : InputRow) :
    p.process row = (p.outputOf row (p.chain.run row.jet).1).map
      (·, { p with chain := (p.chain.run row.jet).2 }) := by
  rw [process, outputOf]
  dsimp only
  cases (p.chain.run row.jet).1.outcome.value? <;> rfl

theorem output_eq (p : Pipeline) (row : InputRow) :
    p.output row = p.outputOf row (p.chain.run row.jet).1 := by
  rw [output, process_eq]
  cases p.outputOf row (p.chain.run row.jet).1 <;> rfl

theorem output_ok_iff {p : Pipeline} {row : InputRow} {out : OutputRow} :
    p.output row = .ok out ↔ ∃ after, p.process row = .ok (out, after) := by
  rw [output]
  cases p.process row with
  | error h => simp [Except.map]
  | ok answer =>
    obtain ⟨out', after⟩ := answer
    simp [Except.map]

theorem levels_pristine (p : Pipeline) :
    p.pristine.chain.map Stage.level = p.chain.map Stage.level := by
  rw [pristine, List.map_map]
  rfl

/-- What a row becomes does not depend on the jets that went before. -/
theorem output_pristine (p : Pipeline) (row : InputRow) : p.pristine.output row = p.output row := by
  rw [output_eq, output_eq, Chain.run_congr p.levels_pristine]
  rfl

theorem output_congr {p q : Pipeline} (h : q.pristine = p.pristine) (row : InputRow) :
    q.output row = p.output row := by
  rw [← q.output_pristine, h, p.output_pristine]

/-- A row leaves nothing behind but the jets that the stages hold. -/
theorem pristine_process {p after : Pipeline} {row : InputRow} {out : OutputRow}
    (h : p.process row = .ok (out, after)) : after.pristine = p.pristine := by
  rw [process_eq] at h
  cases hout : p.outputOf row (p.chain.run row.jet).1 with
  | error halt => rw [hout] at h; cases h
  | ok out' =>
    rw [hout] at h
    cases h
    have hput : ∀ c : Chain Correction.Table,
        c.map (·.put .zero) = (c.map Stage.level).map fun level => ⟨level, .zero⟩ := by
      intro c
      rw [List.map_map]
      rfl
    rw [pristine, pristine, hput, hput p.chain]
    dsimp only
    rw [Chain.map_level_run]

/-! ## Rows in order -/

/-- One pipeline for all rows makes of each what it would make of it alone. -/
theorem processAll_eq (p : Pipeline) (rows : List InputRow) :
    p.processAll rows = rows.mapM p.output := by
  induction rows generalizing p with
  | nil => rfl
  | cons row rows ih =>
    rw [processAll, List.mapM_cons, output]
    cases hrow : p.process row with
    | error halt => rfl
    | ok answer =>
      obtain ⟨out, after⟩ := answer
      have hafter : after.output = p.output := funext (output_congr (pristine_process hrow))
      dsimp only
      rw [ih, hafter]
      cases rows.mapM p.output <;> rfl

end Pipeline

section
variable {α : Type}

theorem flatten_shares (size : Nat) (as : List α) : (shares size as).flatten = as := by
  induction as using shares.induct size with
  | case1 => rw [shares]; rfl
  | case2 a rest ih => rw [shares, List.flatten_cons, ih, List.cons_append, List.take_append_drop]

end

/-- However many workers there are, every row becomes what it would alone. -/
theorem correctRows_eq (p : Pipeline) (rows : List InputRow) (workers : Option Nat) :
    correctRows p rows workers = rows.mapM p.output := by
  have htasks : ∀ pieces : List (List InputRow),
      (pieces.map fun share => Task.spawn fun _ => p.processAll share).mapM Task.get =
        pieces.mapM (List.mapM p.output) := by
    intro pieces
    rw [List.mapM_map]
    exact congrArg (pieces.mapM ·) (funext p.processAll_eq)
  unfold correctRows
  dsimp only
  rw [htasks, ← mapM_flatten, flatten_shares]

/-! ## Workers at work -/

/-- Workers, each with a pipeline of its own, and the output rows so far, by the
    position of the input row. -/
structure Crew where
  workers : List Pipeline
  results : List (Option OutputRow)

namespace Crew

/-- Workers before the first of some rows. -/
def start (workers : List Pipeline) (rows : List InputRow) : Crew :=
  ⟨workers, rows.map fun _ => none⟩

/-- One worker takes one row without a result, whichever they are. -/
inductive Step (rows : List InputRow) : Crew → Crew → Prop
  | work {c : Crew} {w i : Nat} {worker after : Pipeline} {row : InputRow} {out : OutputRow} :
      c.workers[w]? = some worker → rows[i]? = some row → c.results[i]? = some none →
      worker.process row = .ok (out, after) →
      Step rows c ⟨c.workers.set w after, c.results.set i (some out)⟩

/-- What every step keeps: the pipelines of the workers are as good as new, and
    the results so far stand among `outs` at their positions. -/
structure Sound (p : Pipeline) (outs : List OutputRow) (c : Crew) : Prop where
  workers : ∀ worker ∈ c.workers, worker.pristine = p.pristine
  length : c.results.length = outs.length
  results : ∀ (i : Nat) (out : OutputRow), c.results[i]? = some (some out) → outs[i]? = some out

section
variable {p : Pipeline} {rows : List InputRow} {outs : List OutputRow}
  (houts : List.Forall₂ (fun row out => p.output row = .ok out) rows outs)
include houts

theorem sound_start {workers : List Pipeline}
    (h : ∀ worker ∈ workers, worker.pristine = p.pristine) :
    (start workers rows).Sound p outs := by
  refine ⟨h, (List.length_map ..).trans houts.length_eq, fun i out hi => ?_⟩
  rw [start, List.getElem?_map, Option.map_eq_some_iff] at hi
  obtain ⟨-, -, hi⟩ := hi
  cases hi

theorem Step.sound {c c' : Crew} (h : Step rows c c') (hc : c.Sound p outs) :
    c'.Sound p outs := by
  cases h with
  | @work w i worker after row out hworker hrow hopen hout =>
    have hfresh := hc.workers worker (List.mem_of_getElem? hworker)
    refine ⟨fun q hq => ?_, List.length_set.trans hc.length, fun j result hj => ?_⟩
    · rcases List.mem_or_eq_of_mem_set hq with hq | rfl
      · exact hc.workers q hq
      · exact (Pipeline.pristine_process hout).trans hfresh
    · rcases eq_or_ne i j with rfl | hne
      · rw [List.getElem?_set_self (List.getElem?_eq_some_iff.1 hopen).1] at hj
        cases hj
        obtain ⟨hi, rfl⟩ := List.getElem?_eq_some_iff.1 hrow
        have houti := houts.get hi (houts.length_eq ▸ hi)
        have hsame : p.output rows[i] = .ok out := by
          rw [← Pipeline.output_congr hfresh]
          exact Pipeline.output_ok_iff.2 ⟨after, hout⟩
        rw [List.get_eq_getElem, List.get_eq_getElem, hsame] at houti
        rw [List.getElem?_eq_getElem (houts.length_eq ▸ hi)]
        exact congrArg some (Except.ok.inj houti).symm
      · rw [List.getElem?_set_ne hne] at hj
        exact hc.results j result hj

theorem sound_run {c c' : Crew} (h : Relation.ReflTransGen (Step rows) c c')
    (hc : c.Sound p outs) : c'.Sound p outs := by
  induction h with
  | refl => exact hc
  | tail _ hstep ih => exact hstep.sound houts ih

/-- A row without a result can be taken by every worker. -/
theorem Sound.exists_step {c : Crew} (hc : c.Sound p outs) {w i : Nat} (hw : w < c.workers.length)
    (hopen : c.results[i]? = some none) :
    ∃ after out, Step rows c ⟨c.workers.set w after, c.results.set i (some out)⟩ := by
  have hi : i < outs.length := hc.length ▸ (List.getElem?_eq_some_iff.1 hopen).1
  have hi' : i < rows.length := houts.length_eq ▸ hi
  have hout : p.output rows[i] = .ok outs[i] := houts.get hi' hi
  rw [← Pipeline.output_congr (hc.workers _ (List.getElem_mem hw))] at hout
  obtain ⟨after, hafter⟩ := Pipeline.output_ok_iff.1 hout
  exact ⟨after, outs[i], .work (List.getElem?_eq_getElem hw) (List.getElem?_eq_getElem hi') hopen
    hafter⟩

end

/-- Once every row has a result, nothing but the results is left to say. -/
theorem Sound.results_eq {p : Pipeline} {outs : List OutputRow} {c : Crew} (hc : c.Sound p outs)
    (hdone : none ∉ c.results) : c.results = outs.map some := by
  refine List.ext_getElem (hc.length.trans (List.length_map ..).symm) fun i hi hi' => ?_
  rw [List.getElem_map]
  cases hresult : c.results[i] with
  | none => exact absurd (hresult ▸ List.getElem_mem hi) hdone
  | some out =>
    have hout := hc.results i out ((List.getElem?_eq_getElem hi).trans (congrArg some hresult))
    exact congrArg some ((List.getElem_eq_iff _).2 hout).symm

end Crew

/-- **Rows are corrected independently of each other.**  If the pristine pipeline
    returns for every row, its output rows are what any number of workers gives,
    and what one pipeline gives that takes the rows in order, whatever jets its
    stages hold. They are also what workers end with that start with any copies
    of the pipeline and take the rows as they like: whoever takes whichever row,
    no result ever differs from that of the pristine pipeline for that row, and
    no row without a result is closed to a worker. -/
theorem rows_independent {p : Pipeline} {rows : List InputRow}
    (hreturns : ∀ row ∈ rows, ∃ out after, p.pristine.process row = .ok (out, after)) :
    ∃ outs : List OutputRow,
      List.Forall₂ (fun row out => ∃ after, p.pristine.process row = .ok (out, after)) rows outs ∧
      (∀ workers, correctRows p rows workers = .ok outs) ∧
      p.processAll rows = .ok outs ∧
      ∀ workers : List Pipeline, (∀ worker ∈ workers, worker.pristine = p.pristine) →
        ∀ c, Relation.ReflTransGen (Crew.Step rows) (Crew.start workers rows) c →
          (∀ (i : Nat) out, c.results[i]? = some (some out) → outs[i]? = some out) ∧
          (none ∉ c.results → c.results = outs.map some) ∧
          ∀ w i : Nat, w < c.workers.length → c.results[i]? = some none →
            ∃ after out, Crew.Step rows c ⟨c.workers.set w after, c.results.set i (some out)⟩ := by
  obtain ⟨outs, hall⟩ : ∃ outs, rows.mapM p.output = .ok outs :=
    exists_mapM_iff.2 fun row hrow => by
      obtain ⟨out, hout⟩ := hreturns row hrow
      exact ⟨out, p.output_pristine row ▸ Pipeline.output_ok_iff.2 hout⟩
  have houts := mapM_ok_iff.1 hall
  refine ⟨outs, houts.imp fun row out hout => ?_, fun workers => (correctRows_eq ..).trans hall,
    (p.processAll_eq rows).trans hall, fun workers hworkers c hrun => ?_⟩
  · exact Pipeline.output_ok_iff.1 ((p.output_pristine row).trans hout)
  · have hc := Crew.sound_run houts hrun (Crew.sound_start houts hworkers)
    exact ⟨hc.results, hc.results_eq, fun w i hw hopen => hc.exists_step houts hw hopen⟩

/-- Two stages that hold jets of earlier rows, and a row that the first stage
    refuses. -/
theorem rows_independent_of_used_stages : ∃ t, Correction.Table.parse "table"
    "\x7b1 JetEta 1 JetPt x\x7d\n-1 1 2 0 9\n".toList = .ok t ∧
    ∃ outs : List OutputRow, outs.length = 2 ∧ ∀ workers,
      correctRows { chain := [⟨t, ⟨7, 0, 0, 0, 0⟩⟩, ⟨t, ⟨8, 0, 0, 0, 0⟩⟩] }
        [⟨2, ⟨1, 5, 0, 0, 0⟩, none⟩, ⟨3, ⟨1, 0, 0, 0, 0⟩, none⟩] workers = .ok outs := by
  obtain ⟨f, hf⟩ := exists_compile_x
  obtain ⟨r, hrows, hword, hlong, hcompile⟩ : ∃ r, TableFile.rowsAmong (TableFile.events
      "\x7b1 JetEta 1 JetPt x\x7d\n-1 1 2 0 9\n".toList) = [r] ∧
      leastFields r.context < Decimal.indexBound ∧ isLong r = true ∧
      compileRow r = Formula.compile ['x'] 1 :=
    ⟨_, by with_unfolding_all rfl, by with_unfolding_all decide, by with_unfolding_all rfl,
      by with_unfolding_all rfl⟩
  obtain ⟨t, ht, -⟩ := exists_parse_of_rows "table" hrows (f := f)
    (by simp [hword, hlong, hcompile, hf])
  have hreturns : ∀ row ∈ ([⟨2, ⟨1, 5, 0, 0, 0⟩, none⟩, ⟨3, ⟨1, 0, 0, 0, 0⟩, none⟩] :
      List InputRow), ∃ out after,
      (Pipeline.mk [⟨t, ⟨7, 0, 0, 0, 0⟩⟩, ⟨t, ⟨8, 0, 0, 0, 0⟩⟩] none none none).pristine.process
        row = .ok (out, after) := by
    intro row _
    rw [Pipeline.process_eq, Pipeline.outputOf]
    split <;> exact ⟨_, _, rfl⟩
  obtain ⟨outs, houts, hworkers, -⟩ := rows_independent hreturns
  exact ⟨t, ht, outs, houts.length_eq.symm, hworkers⟩

end JetEnergy.Batch
