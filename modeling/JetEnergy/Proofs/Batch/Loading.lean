import JetEnergy.Batch.Run
import JetEnergy.Proofs.Batch.Halting
import JetEnergy.Proofs.Batch.Ingesting
import JetEnergy.Proofs.Formula.Execution

/-!
  What a run loads before its first jet.

  * `exists_residualIf`: the residual scale is always there, so only files and
    the settings themselves can refuse a run.
  * `exitCode_of_mem_stops` and `halt_mem_stops_iff` say what can be among the
    steps of a run that fail.
  * `Settings.run_cases`: a run ends with the first of them; without any, it
    corrects the jets.
-/
namespace JetEnergy

open Correction Uncertainty Formula

/-! ## The residual scale -/

/-- The residual formula as symbols; `v` is the number in it. -/
def residualSymbols (v : Float) : List Symbol :=
  [.parameter 3, .plus, .openParen, .parameter 0, .minus, .parameter 3, .closeParen, .slash,
   .openParen, .number v, .plus, .name "pow", .openParen, .name "x", .slash, .parameter 2, .comma,
   .parameter 1, .closeParen, .closeParen]

theorem symbols?_residual :
    ∃ v, symbols? Scale.residualFormula.toList = some (residualSymbols v) :=
  ⟨_, by with_unfolding_all rfl⟩

theorem derives_residual (v : Float) :
    ∃ tree, Derives (.standard 1) .disjunction (residualSymbols v) tree := by
  have product {ss e} (h : Derives (.standard 1) .primary ss e) :
      Derives (.standard 1) .product ss e := .include .signed (.signed_of_primary h)
  have sum {ss e} (h : Derives (.standard 1) .product ss e) :
      Derives (.standard 1) .sum ss e := .include .product h
  have whole {ss e} (h : Derives (.standard 1) .sum ss e) :
      Derives (.standard 1) .disjunction ss e :=
    .include .conjunction (.include .comparison (.include .sum h))
  have x : Derives (.standard 1) .primary [.name "x"] (.var 0) := .name (.var rfl Nat.one_pos)
  have hspan := whole (.join .sub (sum (product (.parameter 0))) (product (.parameter 3)))
  have hratio := whole (sum (.join .div (product x) (.signed_of_primary (.parameter 2))))
  have hexponent := whole (sum (product (.parameter 1)))
  have hpower := @Derives.call _ "pow" _ [(_, _), (_, _)] (List.cons_ne_nil _ _)
    (List.forall_mem_cons.2 ⟨hratio, List.forall_mem_singleton.2 hexponent⟩) rfl
  have hbelow := whole (.join .add (sum (product (.number v))) (product hpower))
  exact ⟨_, whole (.join .add (sum (product (.parameter 3)))
    (.join .div (product (.parens hspan)) (.signed_of_primary (.parens hbelow))))⟩

theorem exists_residual : ∃ s, Scale.residual = .ok s := by
  obtain ⟨v, hv⟩ := symbols?_residual
  obtain ⟨tree, htree⟩ := derives_residual v
  obtain ⟨f, hf, -⟩ := exists_compile (by decide)
    ((treeOf_ok_iff (Scope.standard_proper 1)).2 ⟨_, hv, htree⟩)
  exact ⟨⟨f, Scale.residualParameters⟩, by rw [Scale.residual, Scale.compile, hf]; rfl⟩

theorem exists_residualIf (wanted : Bool) : ∃ scale, Scale.residualIf wanted = .ok scale := by
  cases wanted with
  | false => exact ⟨none, rfl⟩
  | true =>
    obtain ⟨s, hs⟩ := exists_residual
    exact ⟨some s, by rw [Scale.residualIf, hs]; rfl⟩

/-! ## First failures -/

theorem Correction.Table.load_error_iff {d : Directory} {name : String} {stop : Stop LoadError} :
    load d name = .error stop ↔ (∃ e, d.text name = .error e ∧ stop = .failure e) ∨
      ∃ text, d.text name = .ok text ∧ parse name text = .error stop := by
  rw [load]
  cases d.text name with
  | error e => simp [eq_comm]
  | ok text => simp

/-- The first of some correction files that cannot be used keeps them from being a
    chain. -/
theorem Correction.Chain.errorOf?_load (d : Directory) (names : List String) :
    errorOf? (load d names) = (stops d names).head? := by
  cases names with
  | nil => rfl
  | cons name names =>
    rw [stops, ← errorOf?_mapM, load]
    · cases (name :: names).mapM (Table.load d) <;> rfl
    · exact List.cons_ne_nil _ _
    · exact List.cons_ne_nil _ _

theorem Correction.Chain.mem_stops_iff {d : Directory} {names : List String}
    {stop : Stop LoadError} : stop ∈ stops d names ↔
      (names = [] ∧ stop = .failure .emptyChain) ∨
        ∃ name ∈ names, Table.load d name = .error stop := by
  cases names with
  | nil => simp [stops]
  | cons name names => simp [stops, errorOf?_eq_some_iff]

theorem Stop.inRun_eq_halt_iff {stop : Stop LoadError} {h : Halt} :
    stop.inRun = .halt h ↔ stop = .halt h := by
  cases stop <;> simp [Stop.inRun]

theorem Stop.inRun_eq_failure_iff {stop : Stop LoadError} {f : Failure} :
    stop.inRun = .failure f ↔ ∃ e, stop = .failure e ∧ f = .load e := by
  cases stop <;> simp [Stop.inRun, eq_comm]

/-- What is wrong with the uncertainty file of a variation, or with a variation
    that has none. -/
theorem Uncertainty.Table.loadFor_error_iff {d : Directory} {systematic : Systematic}
    {file : Option String} {stop : Stop Failure} : loadFor d systematic file = .error stop ↔
      (∃ name e, file = some name ∧ d.text name = .error e ∧ stop = .failure (.load e)) ∨
      (∃ name text h, file = some name ∧ d.text name = .ok text ∧ parse name text = .error h ∧
        stop = .halt h) ∨
      (file = none ∧ systematic ≠ .nominal ∧ stop = .failure .shiftWithoutBand) := by
  cases file with
  | none =>
    rw [loadFor]
    split
    · next hnominal => simp [hnominal]
    · next hshift => simp [hshift, eq_comm]
  | some name =>
    rw [loadFor, map_error_iff, load]
    cases htext : d.text name with
    | error e => simp [htext, eq_comm]
    | ok text =>
      cases hparse : parse name text with
      | error h => simp [htext, hparse, Stop.ofHalt, Except.mapError, eq_comm]
      | ok t => simp [htext, hparse, Stop.ofHalt, Except.mapError]

theorem Uncertainty.Table.exists_parse_of_loadFor {d : Directory} {systematic : Systematic}
    {file : Option String} {t : Table} (h : loadFor d systematic file = .ok (some t)) :
    ∃ source text, parse source text = .ok t := by
  cases file with
  | none =>
    rw [loadFor] at h
    split at h <;> cases h
  | some name =>
    rw [loadFor, load] at h
    cases htext : d.text name with
    | error e => rw [htext] at h; cases h
    | ok text =>
      rw [htext] at h
      dsimp only at h
      cases hparse : parse name text with
      | error halt => rw [hparse] at h; cases h
      | ok t' => rw [hparse] at h; cases h; exact ⟨name, text, hparse⟩

namespace Batch

/-! ## Steps that fail -/

theorem ingest_error_cases {bytes : List UInt8} {f : Failure} (h : ingest bytes = .error f) :
    (∃ reason, f = .headerUnreadable reason) ∨
      (∃ name ∈ Columns.required, f = .missingColumn name) ∨ f = .noJets := by
  have hrecords : ∀ header records, ingestRecords header records = .error f →
      (∃ name ∈ Columns.required, f = .missingColumn name) ∨ f = .noJets := by
    intro header records hrefused
    dsimp only [ingestRecords] at hrefused
    split at hrefused
    · next name hname =>
      cases hrefused
      exact Or.inl ⟨name, List.mem_of_find?_eq_some hname, rfl⟩
    · split at hrefused
      · cases hrefused
        exact Or.inr rfl
      · cases hrefused
  rw [ingest] at h
  split at h
  · exact Or.inr (hrecords _ _ h)
  · split at h
    · cases h
      exact Or.inl ⟨_, rfl⟩
    · exact Or.inr (hrecords _ _ h)

/-- What is wrong with the jets is that their file cannot be read, or its header,
    that a column is missing, or that there are none. -/
theorem load_error_cases {d : Directory} {name : String} {f : Failure}
    (h : load d name = .error f) :
    (∃ e, f = .jetsUnreadable name e) ∨ (∃ reason, f = .headerUnreadable reason) ∨
      (∃ column ∈ Columns.required, f = .missingColumn column) ∨ f = .noJets := by
  rw [load] at h
  split at h
  · exact Or.inr (ingest_error_cases h)
  · cases h
    exact Or.inr (Or.inl ⟨_, rfl⟩)
  · cases h
    exact Or.inl ⟨_, rfl⟩

theorem rows_ne_nil_of_load {d : Directory} {name : String} {jets : Ingested}
    (h : load d name = .ok jets) : jets.rows ≠ [] := by
  rw [load] at h
  split at h
  · obtain ⟨header, records, names, -, -, haccounts⟩ := accounts_of_ingest h
    exact haccounts.rows_ne_nil
  · cases h
  · cases h

namespace Settings

section
variable {s : Settings} {d : Directory}

/-- Only reading a correction file or the uncertainty file can halt a run before its
    first jet. -/
theorem halt_mem_stops_iff {h : Halt} : .halt h ∈ s.stops d ↔
    (∃ name ∈ s.chain, ∃ text, d.text name = .ok text ∧
      Correction.Table.parse name text = .error (.halt h)) ∨
    ∃ name text, s.uncertainty = some name ∧ d.text name = .ok text ∧
      Uncertainty.Table.parse name text = .error h := by
  simp [stops, errorOf?_eq_some_iff, Uncertainty.Table.loadFor_error_iff, Chain.mem_stops_iff,
    Stop.inRun_eq_halt_iff, Correction.Table.load_error_iff]

/-- What is wrong with the settings or a file is wrong with the input. -/
theorem exitCode_of_mem_stops {f : Failure} (h : .failure f ∈ s.stops d) : f.exitCode = 2 := by
  simp only [stops, List.mem_append, List.mem_map, Option.mem_toList, errorOf?_eq_some_iff,
    Option.map_eq_some_iff, Uncertainty.Table.loadFor_error_iff, Stop.inRun_eq_failure_iff] at h
  rcases h with (⟨_, -, e, -, rfl⟩ | hband) | ⟨_, hjets, hf⟩
  · rfl
  · rcases hband with ⟨name, e, -, -, hf⟩ | ⟨name, text, halt, -, -, -, hf⟩ | ⟨-, -, hf⟩
    · cases hf
      rfl
    · cases hf
    · cases hf
      rfl
  · cases hf
    rcases load_error_cases hjets with ⟨e, rfl⟩ | ⟨reason, rfl⟩ | ⟨column, -, rfl⟩ | rfl <;> rfl

theorem loaded_of_pipeline {draw : Resolution.Draw} {p : Pipeline} (h : s.pipeline draw d = .ok p) :
    p.Loaded := by
  simp only [pipeline, bind_ok_iff] at h
  obtain ⟨chain, -, scale, -, table, htable, hp⟩ := h
  cases hp
  intro shifting hshifting
  obtain ⟨t, rfl, rfl⟩ := Option.map_eq_some_iff.1 hshifting
  exact Uncertainty.Table.exists_parse_of_loadFor htable

/-- A run ends with the first step that fails. Without any, it corrects the jets. -/
theorem run_cases (s : Settings) (draw : Resolution.Draw) (d : Directory) :
    (∃ stop rest, s.stops d = stop :: rest ∧ s.run draw d = .error stop) ∨
      ∃ p jets, s.stops d = [] ∧ s.pipeline draw d = .ok p ∧ load d s.jets = .ok jets ∧
        s.run draw d = Stop.ofHalt ((correctRows p jets.rows s.workers).map (⟨jets, ·⟩)) := by
  have hfirst := Chain.errorOf?_load d s.chain
  cases hchain : Chain.load d s.chain with
  | error stop =>
    rw [hchain] at hfirst
    obtain ⟨rest, hrest⟩ := List.head?_eq_some_iff.1 hfirst.symm
    refine Or.inl ⟨stop.inRun, _, by rw [stops, hrest]; rfl, ?_⟩
    rw [run, pipeline, hchain]
    rfl
  | ok chain =>
    rw [hchain] at hfirst
    have hnone := List.head?_eq_none_iff.1 hfirst.symm
    obtain ⟨scale, hscale⟩ := exists_residualIf s.residual
    cases htable : Uncertainty.Table.loadFor d s.systematic s.uncertainty with
    | error stop =>
      refine Or.inl ⟨stop, _, by rw [stops, hnone, htable]; rfl, ?_⟩
      rw [run, pipeline, hchain, hscale, htable]
      rfl
    | ok table =>
      obtain ⟨p, hp⟩ : ∃ p, s.pipeline draw d = .ok p := by
        rw [pipeline, hchain, hscale, htable]
        exact ⟨_, rfl⟩
      cases hjets : load d s.jets with
      | error f =>
        refine Or.inl ⟨.failure f, [], by rw [stops, hnone, htable, hjets]; rfl, ?_⟩
        rw [run, hp, hjets]
        rfl
      | ok jets =>
        refine Or.inr ⟨p, jets, by rw [stops, hnone, htable, hjets]; rfl, hp, rfl, ?_⟩
        rw [run, hp, hjets]
        show (Stop.ofHalt (correctRows p jets.rows s.workers) >>=
          fun rows => .ok (Run.mk jets rows)) = _
        cases correctRows p jets.rows s.workers <;> rfl

end

end Settings

end Batch

end JetEnergy
