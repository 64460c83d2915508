import JetEnergy.Correction.Chain

/-!
  Chains as sequences of stages.

  * `run_cons_of_value`, `run_cons_of_failure`: what the first stage does to a
    run; nothing below unfolds a run again.
  * `run_append`: a run through one chain and then another.
  * `Passage.Ends` are the two ways in which a passage through some stages can
    end; `ends_run`: there is no third one.
  * `run_of_reached`, `run_of_not_reached`: what a stage holds after a run.
    `given_of_value`, `stages_of_failure`: what the stages made of it.
  * `run_composes` puts this together.
-/
namespace JetEnergy

/-! ## Outcomes -/

namespace Outcome

variable {o : Outcome} {v : Float}

theorem refuseNegative_eq_value_iff :
    o.refuseNegative = .value v ↔ o = .value v ∧ ¬ v < 0 := by
  cases o with
  | value x =>
    rw [refuseNegative]
    split
    · next hneg =>
      constructor
      · intro h; cases h
      · rintro ⟨h, hv⟩; cases h; exact absurd hneg hv
    · next hpos =>
      constructor
      · intro h; cases h; exact ⟨rfl, hpos⟩
      · exact And.left
  | _ => simp [refuseNegative]

theorem value?_eq_some_iff : o.value? = some v ↔ o = .value v := by
  cases o <;> simp [value?]

theorem value?_eq_none_iff : o.value? = none ↔ ∀ v, o ≠ .value v := by
  cases o <;> simp [value?]

/-- A failure stays what it is. -/
theorem refuseNegative_of_failure (h : o.value? = none) : o.refuseNegative = o := by
  cases o with
  | value x => cases h
  | _ => rfl

theorem refuseNegative_of_negative (h : v < 0) : (value v).refuseNegative = .negative v :=
  if_pos h

end Outcome

namespace Correction

/-! ## Passages -/

/-- The passage through a chain that stands behind `n` stages. -/
def Passage.behind (n : Nat) (p : Passage) : Passage :=
  { p with failedStage := p.failedStage.map (· + n), stagesRun := p.stagesRun + n }

theorem Passage.behind_zero (p : Passage) : p.behind 0 = p := by
  cases p with
  | mk outcome failedStage stagesRun => cases failedStage <;> rfl

theorem Passage.afterStage_behind (n : Nat) (p : Passage) :
    (p.behind n).afterStage = p.behind (n + 1) := by
  simp only [behind, afterStage, Option.map_map]
  rfl

/-- How a passage through `n` stages can end: with a momentum after all of them,
    or with a failure at one of them, which is the last one to run. -/
inductive Passage.Ends (n : Nat) : Passage → Prop
  | done (pt : Float) : Ends n ⟨.value pt, none, n⟩
  | failed {failure : Outcome} {i : Nat} : failure.value? = none → i < n →
      Ends n ⟨failure, some i, i + 1⟩

theorem Passage.Ends.afterStage {n : Nat} {p : Passage} (h : p.Ends n) :
    p.afterStage.Ends (n + 1) := by
  cases h with
  | done pt => exact .done pt
  | failed hfailure hi => exact .failed hfailure (Nat.succ_lt_succ hi)

section
variable {n : Nat} {p : Passage} (h : p.Ends n)
include h

theorem Passage.Ends.stagesRun_le : p.stagesRun ≤ n := by
  cases h with
  | done => exact Nat.le_refl _
  | failed _ hi => exact hi

theorem Passage.Ends.value_iff : (∃ pt, p.outcome = .value pt) ↔ p.failedStage = none := by
  cases h with
  | done pt => exact ⟨fun _ => rfl, fun _ => ⟨pt, rfl⟩⟩
  | failed hfailure =>
    constructor
    · rintro ⟨pt, rfl⟩; cases hfailure
    · intro hnone; cases hnone

theorem Passage.Ends.of_failedStage {i : Nat} (hi : p.failedStage = some i) :
    i < n ∧ p.stagesRun = i + 1 := by
  cases h with
  | done => cases hi
  | failed _ hlt => cases hi; exact ⟨hlt, rfl⟩

theorem Passage.Ends.stagesRun_of_value {pt : Float} (hpt : p.outcome = .value pt) :
    p.stagesRun = n := by
  cases h with
  | done => rfl
  | failed hfailure => dsimp only at hpt; rw [hpt] at hfailure; cases hfailure

end

namespace Chain

variable {σ : Type} [Corrector σ]

/-! ## The first stage -/

theorem run_cons_of_value {s : Stage σ} {jet : Jet} {pt : Float}
    (h : (s.put jet).corrected.refuseNegative = .value pt) (rest : Chain σ) :
    run (s :: rest) jet =
      ((run rest (jet.withPt pt)).1.afterStage, s.put jet :: (run rest (jet.withPt pt)).2) := by
  simp only [run, h]

theorem run_cons_of_failure {s : Stage σ} {jet : Jet}
    (h : (s.put jet).corrected.refuseNegative.value? = none) (rest : Chain σ) :
    run (s :: rest) jet =
      (⟨(s.put jet).corrected.refuseNegative, some 0, 1⟩, s.put jet :: rest) := by
  rw [run]
  dsimp only
  split
  · next heq => rw [heq] at h; cases h
  · rfl

/-- The first stage gives the momentum for the rest of the chain, or fails. -/
theorem first_cases (s : Stage σ) (jet : Jet) :
    (∃ pt, (s.put jet).corrected.refuseNegative = .value pt) ∨
      (s.put jet).corrected.refuseNegative.value? = none := by
  cases (s.put jet).corrected.refuseNegative with
  | value pt => exact Or.inl ⟨pt, rfl⟩
  | _ => exact Or.inr rfl

/-! ## One chain after another -/

/-- A run through two chains: the second one is given what the first one makes
    of the jet, and left alone if that is nothing. -/
theorem run_append (a b : Chain σ) (jet : Jet) :
    run (a ++ b) jet = match (run a jet).1.outcome.value? with
      | some pt => ((run b (jet.withPt pt)).1.behind a.length,
          (run a jet).2 ++ (run b (jet.withPt pt)).2)
      | none => ((run a jet).1, (run a jet).2 ++ b) := by
  induction a generalizing jet with
  | nil => exact congrArg (·, (run b jet).2) (Passage.behind_zero _).symm
  | cons s a ih =>
    rw [List.cons_append]
    rcases first_cases s jet with ⟨pt, hpt⟩ | hfail
    · have hvalue : (run a (jet.withPt pt)).1.afterStage.outcome =
          (run a (jet.withPt pt)).1.outcome := rfl
      rw [run_cons_of_value hpt, run_cons_of_value hpt, ih]
      dsimp only
      rw [hvalue]
      cases (run a (jet.withPt pt)).1.outcome.value? with
      | none => rfl
      | some pt' =>
        dsimp only
        rw [Passage.afterStage_behind, List.length_cons]
        rfl
    · rw [run_cons_of_failure hfail, run_cons_of_failure hfail]
      dsimp only
      rw [hfail]
      rfl

theorem run_append_of_value {a : Chain σ} {jet : Jet} {pt : Float}
    (h : (run a jet).1.outcome = .value pt) (b : Chain σ) :
    run (a ++ b) jet = ((run b (jet.withPt pt)).1.behind a.length,
      (run a jet).2 ++ (run b (jet.withPt pt)).2) := by
  rw [run_append, h]
  rfl

theorem run_append_of_failure {a : Chain σ} {jet : Jet}
    (h : (run a jet).1.outcome.value? = none) (b : Chain σ) :
    run (a ++ b) jet = ((run a jet).1, (run a jet).2 ++ b) := by
  rw [run_append, h]

theorem ends_run (c : Chain σ) (jet : Jet) : (run c jet).1.Ends c.length := by
  induction c generalizing jet with
  | nil => exact .done jet.pt
  | cons s c ih =>
    rcases first_cases s jet with ⟨pt, hpt⟩ | hfail
    · rw [run_cons_of_value hpt]
      exact (ih _).afterStage
    · rw [run_cons_of_failure hfail]
      exact .failed hfail (Nat.succ_pos _)

theorem length_run (c : Chain σ) (jet : Jet) : (run c jet).2.length = c.length := by
  induction c generalizing jet with
  | nil => rfl
  | cons s c ih =>
    rcases first_cases s jet with ⟨pt, hpt⟩ | hfail
    · rw [run_cons_of_value hpt, List.length_cons, ih, List.length_cons]
    · rw [run_cons_of_failure hfail]; rfl

/-- The passage depends on the tables of a chain, not on the jets in it. -/
theorem run_congr {c c' : Chain σ} (h : c.map Stage.level = c'.map Stage.level) (jet : Jet) :
    (run c jet).1 = (run c' jet).1 := by
  induction c generalizing c' jet with
  | nil => rw [List.map_eq_nil_iff.1 h.symm]
  | cons s c ih =>
    obtain ⟨s', c', rfl, hlevel, hrest⟩ := List.map_eq_cons_iff.1 h.symm
    have hput : s'.put jet = s.put jet := by rw [Stage.put, Stage.put, hlevel]
    rcases first_cases s jet with ⟨pt, hpt⟩ | hfail
    · rw [run_cons_of_value hpt, run_cons_of_value (hput ▸ hpt), ih hrest.symm]
    · rw [run_cons_of_failure hfail, run_cons_of_failure (hput ▸ hfail), hput]

/-- A run changes no table. -/
theorem map_level_run (c : Chain σ) (jet : Jet) :
    (run c jet).2.map Stage.level = c.map Stage.level := by
  induction c generalizing jet with
  | nil => rfl
  | cons s c ih =>
    rcases first_cases s jet with ⟨pt, hpt⟩ | hfail
    · rw [run_cons_of_value hpt, List.map_cons, ih]; rfl
    · rw [run_cons_of_failure hfail]; rfl

/-! ## Single stages -/

/-- A stage that is reached holds the jet with the momentum that the stages
    before it give. -/
theorem run_of_reached {before : Chain σ} {jet : Jet} {pt : Float}
    (h : (run before jet).1.outcome = .value pt) (s : Stage σ) (after : Chain σ) :
    before.length < (run (before ++ s :: after) jet).1.stagesRun ∧
      (run (before ++ s :: after) jet).2[before.length]? = some (s.put (jet.withPt pt)) := by
  have hfirst : 0 < (run (s :: after) (jet.withPt pt)).1.stagesRun ∧
      (run (s :: after) (jet.withPt pt)).2[0]? = some (s.put (jet.withPt pt)) := by
    rcases first_cases s (jet.withPt pt) with ⟨pt', hpt'⟩ | hfail
    · rw [run_cons_of_value hpt']
      exact ⟨Nat.succ_pos _, rfl⟩
    · rw [run_cons_of_failure hfail]
      exact ⟨Nat.one_pos, rfl⟩
  rw [run_append_of_value h]
  refine ⟨Nat.lt_add_of_pos_left hfirst.1, ?_⟩
  rw [List.getElem?_append_right (Nat.le_of_eq (length_run before jet)), length_run, Nat.sub_self]
  exact hfirst.2

/-- A stage that is not reached is left as it was. -/
theorem run_of_not_reached {before : Chain σ} {jet : Jet}
    (h : (run before jet).1.outcome.value? = none) (s : Stage σ) (after : Chain σ) :
    (run (before ++ s :: after) jet).1.stagesRun ≤ before.length ∧
      (run (before ++ s :: after) jet).2[before.length]? = some s := by
  rw [run_append_of_failure h]
  refine ⟨(ends_run before jet).stagesRun_le, ?_⟩
  rw [List.getElem?_append_right (Nat.le_of_eq (length_run before jet)), length_run, Nat.sub_self]
  rfl

/-- A chain gives a momentum up to a stage only if the stages before give one,
    and that stage makes it of it. -/
theorem given_of_value {before : Chain σ} {s : Stage σ} {jet : Jet} {v : Float}
    (h : (run (before ++ [s]) jet).1.outcome = .value v) :
    ∃ pt, (run before jet).1.outcome = .value pt ∧
      (s.put (jet.withPt pt)).corrected = .value v ∧ ¬ v < 0 := by
  cases hbefore : (run before jet).1.outcome.value? with
  | none =>
    rw [run_append_of_failure hbefore] at h
    rw [h] at hbefore
    cases hbefore
  | some pt =>
    have hpt := Outcome.value?_eq_some_iff.1 hbefore
    rw [run_append_of_value hpt] at h
    rcases first_cases s (jet.withPt pt) with ⟨pt', hpt'⟩ | hfail
    · rw [run_cons_of_value hpt'] at h
      cases h
      exact ⟨pt, hpt, Outcome.refuseNegative_eq_value_iff.1 hpt'⟩
    · rw [run_cons_of_failure hfail] at h
      rw [show (s.put (jet.withPt pt)).corrected.refuseNegative = .value v from h] at hfail
      cases hfail

/-- The stage that fails gives the outcome of the run, and those before it gave
    momenta that are not negative. -/
theorem stages_of_failure {c : Chain σ} {jet : Jet} {i : Nat}
    (h : (run c jet).1.failedStage = some i) :
    (∃ s, (run c jet).2[i]? = some s ∧ s.corrected.refuseNegative = (run c jet).1.outcome) ∧
      ∀ j < i, ∃ s v, (run c jet).2[j]? = some s ∧ s.corrected = .value v ∧ ¬ v < 0 := by
  induction c generalizing jet i with
  | nil => cases h
  | cons s c ih =>
    rcases first_cases s jet with ⟨pt, hpt⟩ | hfail
    · rw [run_cons_of_value hpt] at h ⊢
      obtain ⟨i, hi, rfl⟩ := Option.map_eq_some_iff.1 h
      obtain ⟨hlast, hbefore⟩ := ih hi
      refine ⟨hlast, fun j hj => ?_⟩
      cases j with
      | zero => exact ⟨s.put jet, pt, rfl, Outcome.refuseNegative_eq_value_iff.1 hpt⟩
      | succ j => exact hbefore j (Nat.lt_of_succ_lt_succ hj)
    · rw [run_cons_of_failure hfail] at h ⊢
      cases h
      exact ⟨⟨s.put jet, rfl, rfl⟩, fun j hj => absurd hj (Nat.not_lt_zero j)⟩

/-- A chain with stages gives no negative momentum. -/
theorem not_negative_of_value {c : Chain σ} {jet : Jet} {v : Float} (hc : c ≠ [])
    (h : (run c jet).1.outcome = .value v) : ¬ v < 0 := by
  rw [← List.dropLast_concat_getLast hc] at h
  obtain ⟨-, -, -, hv⟩ := given_of_value h
  exact hv

/-- **Chains compose, and stop at the first failure.**  For every kind of stage
    and whatever jets the stages hold: the empty chain gives the momentum of the jet.
    The first stage of a chain is given the jet. A momentum that is not negative is
    what the rest of the chain goes on with; a negative one or a failure is the
    outcome of the whole, and the rest is left alone. A run through two chains is a
    run through the first one and, if that gives a momentum, through the second one
    with it. A run does not depend on the jets that the stages held. Afterwards a
    stage that was reached holds the jet with the momentum that the stages before it
    gave, any other stage what it held before. A run without a momentum has failed at
    its last stage, after stages that gave momenta that are not negative; a run with
    one has passed all the stages. -/
theorem run_composes {σ : Type} [Corrector σ] :
    (∀ jet, run ([] : Chain σ) jet = (⟨.value jet.pt, none, 0⟩, [])) ∧
    (∀ (s : Stage σ) (rest : Chain σ) (jet : Jet),
      (∀ pt, (s.put jet).corrected = .value pt → ¬ pt < 0 → run (s :: rest) jet =
        ((run rest (jet.withPt pt)).1.behind 1,
          s.put jet :: (run rest (jet.withPt pt)).2)) ∧
      (∀ pt, (s.put jet).corrected = .value pt → pt < 0 →
        run (s :: rest) jet = (⟨.negative pt, some 0, 1⟩, s.put jet :: rest)) ∧
      ((∀ pt, (s.put jet).corrected ≠ .value pt) →
        run (s :: rest) jet = (⟨(s.put jet).corrected, some 0, 1⟩, s.put jet :: rest))) ∧
    (∀ (a b : Chain σ) (jet : Jet),
      (∀ pt, (run a jet).1.outcome = .value pt → run (a ++ b) jet =
        ((run b (jet.withPt pt)).1.behind a.length,
          (run a jet).2 ++ (run b (jet.withPt pt)).2)) ∧
      ((∀ pt, (run a jet).1.outcome ≠ .value pt) →
        run (a ++ b) jet = ((run a jet).1, (run a jet).2 ++ b))) ∧
    (∀ (c c' : Chain σ), c.map Stage.level = c'.map Stage.level →
      ∀ jet, (run c jet).1 = (run c' jet).1) ∧
    (∀ (before after : Chain σ) (s : Stage σ) (jet : Jet),
      (before.length < (run (before ++ s :: after) jet).1.stagesRun →
        ∃ pt, (run before jet).1.outcome = .value pt ∧
          (run (before ++ s :: after) jet).2[before.length]? = some (s.put (jet.withPt pt))) ∧
      ((run (before ++ s :: after) jet).1.stagesRun ≤ before.length →
        (run (before ++ s :: after) jet).2[before.length]? = some s)) ∧
    ∀ (c : Chain σ) (jet : Jet), (run c jet).2.length = c.length ∧
      ((∃ pt, (run c jet).1.outcome = .value pt) ↔ (run c jet).1.failedStage = none) ∧
      (∀ i, (run c jet).1.failedStage = some i → i < c.length ∧
        (run c jet).1.stagesRun = i + 1 ∧
        (∃ s, (run c jet).2[i]? = some s ∧
          s.corrected.refuseNegative = (run c jet).1.outcome) ∧
        ∀ j < i, ∃ s v, (run c jet).2[j]? = some s ∧ s.corrected = .value v ∧ ¬ v < 0) ∧
      ∀ pt, (run c jet).1.outcome = .value pt →
        (run c jet).1.stagesRun = c.length ∧ (c ≠ [] → ¬ pt < 0) := by
  refine ⟨fun jet => rfl, fun s rest jet => ⟨fun pt hpt hpos => ?_, fun pt hpt hneg => ?_,
      fun h => ?_⟩, fun a b jet => ⟨fun pt h => run_append_of_value h b, fun h => ?_⟩,
    fun c c' h jet => run_congr h jet, fun before after s jet => ?_, fun c jet => ?_⟩
  · exact run_cons_of_value (Outcome.refuseNegative_eq_value_iff.2 ⟨hpt, hpos⟩) rest
  · have hrefused : (s.put jet).corrected.refuseNegative = .negative pt := by
      rw [hpt, Outcome.refuseNegative_of_negative hneg]
    rw [run_cons_of_failure (by rw [hrefused]; rfl), hrefused]
  · have hfail := Outcome.value?_eq_none_iff.2 h
    have hsame := Outcome.refuseNegative_of_failure hfail
    rw [run_cons_of_failure (by rw [hsame, hfail]), hsame]
  · exact run_append_of_failure (Outcome.value?_eq_none_iff.2 h) b
  · cases hbefore : (run before jet).1.outcome.value? with
    | none =>
      obtain ⟨hrun, hheld⟩ := run_of_not_reached hbefore s after
      exact ⟨fun hlt => absurd hrun (Nat.not_le.2 hlt), fun _ => hheld⟩
    | some pt =>
      have hpt := Outcome.value?_eq_some_iff.1 hbefore
      obtain ⟨hrun, hheld⟩ := run_of_reached hpt s after
      exact ⟨fun _ => ⟨pt, hpt, hheld⟩, fun hle => absurd hle (Nat.not_le.2 hrun)⟩
  · have hends := ends_run c jet
    refine ⟨length_run c jet, hends.value_iff, fun i hi => ?_, fun pt hpt => ?_⟩
    · obtain ⟨hlt, hrun⟩ := hends.of_failedStage hi
      exact ⟨hlt, hrun, stages_of_failure hi⟩
    · exact ⟨hends.stagesRun_of_value hpt, fun hc => not_negative_of_value hc hpt⟩

/-- A table whose factor is the momentum, for jets of small rapidity. -/
def momentumTable : Table where
  source := "momentum"
  entries := [{
    bins := [⟨.eta, -1, 1⟩]
    dependencies := [⟨.pt, 0, 9⟩]
    parameters := []
    formula := { source := ['x'], arity := 1, tree := .var 0 }
    line := 2 }]
  tally := { lines := 2, headings := 1, records := 1 }
  formulas := [{ source := ['x'], arity := 1, tree := .var 0 }]

/-- The first of three stages squares the momentum, the second one has no entry,
    and the third one is not reached. -/
theorem run_composes_of_three_stages :
    run [⟨momentumTable, ⟨7, 0, 0, 0, 0⟩⟩, ⟨{ momentumTable with entries := [] }, ⟨8, 0, 0, 0, 0⟩⟩,
        ⟨momentumTable, ⟨9, 0, 0, 0, 0⟩⟩] ⟨2, 0, 0, 0, 0⟩ =
      (⟨.noMatch, some 1, 2⟩, [⟨momentumTable, ⟨2, 0, 0, 0, 0⟩⟩,
        ⟨{ momentumTable with entries := [] }, ⟨4, 0, 0, 0, 0⟩⟩,
        ⟨momentumTable, ⟨9, 0, 0, 0, 0⟩⟩]) := by
  obtain ⟨-, hfirst, -⟩ := run_composes (σ := Table)
  have hpass : (Stage.put ⟨momentumTable, ⟨7, 0, 0, 0, 0⟩⟩ ⟨2, 0, 0, 0, 0⟩).corrected =
      .value 4 :=
    Outcome.value?_eq_some_iff.1 (by decide +kernel)
  have hfail : ∀ pt, (Stage.put (σ := Table) ⟨{ momentumTable with entries := [] }, ⟨8, 0, 0, 0, 0⟩⟩
      (Jet.withPt ⟨2, 0, 0, 0, 0⟩ 4)).corrected ≠ .value pt :=
    fun pt h => by cases h
  rw [(hfirst _ _ _).1 4 hpass (by decide), (hfirst _ _ _).2.2 hfail]
  rfl

end Chain

end Correction

end JetEnergy
