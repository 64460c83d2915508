import JetEnergy.Correction.Positions
import JetEnergy.Proofs.Correction.Reading
import JetEnergy.Proofs.Formula.Variables
import JetEnergy.Proofs.TableFile.Accesses

/-!
  Reading and evaluating a correction file without leaving a list.

  * `guardedRanges_eq`: no access fails while a row is decoded by positions, unless
    its widths fit in no word.
  * `length_of_ofRow?`: how many windows an entry has.  `var_lt_of_readFrom`:
    which variables its formula reads.
  * `accesses_in_bounds` puts this together for the lines of a file, and says
    what evaluating its table can give and which variables the formulas of its
    entries read.
-/
namespace JetEnergy.Correction

open TableFile Formula

/-! ## Rows by positions -/

theorem guardedIsCount_eq {fields : List Field} {i : Nat} (h : i < fields.length) :
    guardedIsCount fields i = .ok (isCount (fields.drop i)) := by
  rw [guardedIsCount, entry_eq h, List.drop_eq_getElem_cons h, isCount, List.length_drop]
  simp only [bind, Except.bind]
  cases Decimal.leadingInt fields[i] with
  | ofNat n =>
    rw [less_eq (Nat.le_of_lt h)]
    dsimp only
    rw [less_eq (by omega), Nat.sub_sub]
    refine congrArg Except.ok (Bool.eq_iff_iff.2 ?_)
    rw [beq_iff_eq, beq_iff_eq]
    exact Int.ofNat_inj.symm
  | negSucc n =>
    refine congrArg Except.ok (Bool.eq_iff_iff.2 ?_)
    rw [beq_iff_eq]
    constructor
    · intro hfalse; cases hfalse
    · intro hneg; cases hneg

theorem guardedLayout_eq {bins dependencies : Nat} {fields : List Field}
    (h : 2 * bins + 2 * dependencies + 1 ≤ fields.length) :
    guardedLayout bins dependencies fields (fields.map Decimal.leadingFloat) =
      .ok (Layout.ofFields dependencies (fields.drop (2 * bins))) := by
  rw [guardedLayout, Layout.ofFields]
  split
  · rfl
  · next hne =>
    have hlow : 2 * bins + 1 < (fields.map Decimal.leadingFloat).length := by
      rw [List.length_map]; omega
    have hhigh : 2 * bins + 2 < (fields.map Decimal.leadingFloat).length := by
      rw [List.length_map]; omega
    have hdescends : descends ((fields.drop (2 * bins)).map Decimal.leadingFloat) =
        decide ((fields.map Decimal.leadingFloat)[2 * bins + 2] <
          (fields.map Decimal.leadingFloat)[2 * bins + 1]) := by
      rw [List.map_drop, List.drop_eq_getElem_cons (by omega), List.drop_eq_getElem_cons hlow,
        List.drop_eq_getElem_cons hhigh, descends]
    rw [guardedIsCount_eq (by omega), guardedIsCount_eq (by omega), entry_eq hlow, entry_eq hhigh,
      List.drop_drop, hdescends]
    simp only [bind, Except.bind]
    cases isCount (fields.drop (2 * bins)) <;>
      cases isCount (fields.drop (2 * bins + 2 * dependencies)) <;> try rfl
    simp only [decide_eq_true_eq]
    split <;> rfl

theorem guardedWindows_eq (observables : List Observable) (numbers : List Float) :
    guardedWindows observables numbers = .ok (Window.ofPairs observables (pairUp numbers)) := by
  induction observables generalizing numbers with
  | nil => rfl
  | cons observable observables ih =>
    match numbers with
    | [] | [_] => rfl
    | a :: b :: rest =>
      have hrest := ih rest
      unfold guardedWindows Window.ofPairs at *
      simp only [chunks, pairUp, List.zip_cons_cons, List.mapM_cons, hrest]
      rfl

theorem drop_start {α : Type} (bins : Nat) (layout : Layout) (l : List α) :
    l.drop (layout.start bins) =
      match layout with
      | .afterBins => (l.drop (2 * bins)).drop 1
      | .afterDependencies => l.drop (2 * bins) := by
  cases layout with
  | afterBins => exact List.drop_drop.symm
  | afterDependencies => rfl

theorem start_le (bins : Nat) (layout : Layout) : layout.start bins ≤ 2 * bins + 1 := by
  cases layout with
  | afterBins => exact Nat.le_refl _
  | afterDependencies => exact Nat.le_succ _

/-- **No access to a row fails.**  Decoding a row by positions stops where the sum
    of its widths is no word, and nowhere else. -/
theorem guardedRanges_eq (r : Row) :
    guardedRanges r = (Ranges.ofRow? r).mapError fun _ => .overflow := by
  rw [guardedRanges, Ranges.ofRow?]
  rw [leastFields]
  by_cases h : 2 * r.context.binCount + 2 * r.context.dependencyCount + 1 < Decimal.indexBound
  · rw [if_neg (Nat.not_le.2 h)]
    simp only [word_eq h, bind, Except.bind]
    split
    · rfl
    · next hlength =>
      have hlong := Nat.not_lt.1 hlength
      have hnumbers : (r.fields.map Decimal.leadingFloat).length = r.fields.length :=
        List.length_map ..
      rw [slice_from_start (by omega), guardedLayout_eq hlong, Ranges.ofFields, leastFields]
      simp only [guardedWindows_eq]
      generalize Layout.ofFields r.context.dependencyCount
        (r.fields.drop (2 * r.context.binCount)) = layout
      have hstart := start_le r.context.binCount layout
      rw [word_eq (by omega)]
      dsimp only
      rw [slice_eq (by omega), slice_to_end (by omega), drop_start]
      rfl
  · rw [if_pos (Nat.not_lt.1 h), word, if_neg h]
    rfl

/-! ## Windows of an entry -/

theorem length_pairUp {α : Type} : ∀ l : List α, (pairUp l).length = l.length / 2
  | [] | [_] => by simp [pairUp]
  | a :: b :: rest => by
    rw [pairUp, List.length_cons, length_pairUp rest, List.length_cons, List.length_cons]
    omega

/-- A row has a window for every observable with a range of its own. -/
theorem length_of_ofRow? {r : Row} {ranges : Ranges} (h : Ranges.ofRow? r = .ok (some ranges)) :
    ranges.bins.length = min r.context.bins.length r.context.binCount ∧
      ranges.dependencies.length =
        min r.context.dependencies.length r.context.dependencyCount := by
  obtain ⟨-, hlong, rfl⟩ := ofRow?_ok_some_iff.1 h
  rw [leastFields] at hlong
  simp only [Ranges.ofFields, length_ofPairs, length_pairUp, List.length_take, List.length_map]
  constructor
  · congr 1; omega
  · congr 1
    split <;> simp only [List.length_drop, List.length_map] <;> omega

/-! ## Entries in use -/

/-- An outcome of the kind that an entry with so many dependencies gives. -/
inductive Answers : Nat → Outcome → Prop
  | none : Answers 0 .noDependencies
  | value {n} (x) : 1 ≤ n → n ≤ 4 → Answers n (.value x)
  | many {n} : 4 < n → Answers n (.tooManyDependencies n)

theorem answers_outcome (e : Entry) (jet : Jet) :
    Answers e.dependencies.length (e.outcome jet) := by
  rw [Entry.outcome]
  split
  · next hds => rw [hds]; exact .none
  · next hds => rw [hds]; exact .value _ (Nat.le_add_left ..) (Nat.le_refl _)
  · next ds hnil hfour =>
    have hpos : 1 ≤ e.dependencies.length := List.length_pos_iff.2 hnil
    split
    · next hmany => exact .many hmany
    · next hfew => exact .value _ hpos (Nat.not_lt.1 hfew)

/-- The formula of an entry reads variables only that the dependencies of the
    entry give a value to. -/
theorem var_lt_of_readFrom {e : Entry} {r : Row} (h : e.ReadFrom r)
    (hpos : 1 ≤ e.dependencies.length) {i : Nat} (hi : .var i ∈ e.formula.program.code) :
    i < min e.dependencies.length greatestArity := by
  have hlt := var_lt_of_compile h.formula hi
  rwa [formulaArity, max_eq_right (le_min hpos (by decide))] at hlt

theorem exists_run (f : Formula) (env : Environment) :
    ∃ v, run env f.program.room f.program.code [] = .ok [v] := by
  rw [f.program_eq]
  exact ⟨_, run_ofExpr f.tree (height_le_room _)⟩

theorem fits_of_leastFields {c : Context} (h : leastFields c < Decimal.indexBound) : c.Fits := by
  have htwo : 2 < Decimal.indexBound := by decide
  rw [leastFields] at h
  rw [Context.Fits]
  omega

/-- **Reading and evaluating a correction file stays inside its lists.**  If the
    fewest fields of a row are a word in every context of the file, no access to
    a heading or a row fails, and nothing halts the reading. A table gives a
    value, no match, no dependencies or too many of them for every jet. Every
    entry has a window for each observable with a range of its own; the run of its
    formula ends with one value, and reads variables only that the dependencies of
    the entry, three of them at most, give a value to. -/
theorem accesses_in_bounds {text : List Char}
    (h : ∀ c ∈ contextsOf text, leastFields c < Decimal.indexBound) :
    guardedEvents text = .ok (events text) ∧
    (∀ r ∈ rowsAmong (events text),
      ∃ answer, guardedRanges r = .ok answer ∧ Ranges.ofRow? r = .ok answer) ∧
    (∀ source halt, Table.parse source text ≠ .error (.halt halt)) ∧
    ∀ source t, Table.parse source text = .ok t →
      (∀ jet, t.find? jet = none ∧ t.outcome jet = .noMatch ∨
        ∃ e ∈ t.entries, t.find? jet = some e ∧ Answers e.dependencies.length (t.outcome jet)) ∧
      ∀ e ∈ t.entries, (∃ r ∈ rowsAmong (events text), e.ReadFrom r ∧
          e.bins.length = min r.context.bins.length r.context.binCount ∧
          e.dependencies.length = min r.context.dependencies.length r.context.dependencyCount) ∧
        (1 ≤ e.dependencies.length → ∀ i, .var i ∈ e.formula.program.code →
          i < min e.dependencies.length 3) ∧
        ∀ env, ∃ v, run env e.formula.program.room e.formula.program.code [] = .ok [v] := by
  have hword : ∀ r ∈ rowsAmong (events text), leastFields r.context < Decimal.indexBound :=
    fun r hr => h _ (context_mem_contextsOf hr)
  refine ⟨guardedEvents_eq fun c hc => fits_of_leastFields (h c hc), fun r hr => ?_,
    fun source halt hparse => ?_, fun source t ht => ⟨fun jet => ?_, fun e he => ?_⟩⟩
  · cases hdecode : Ranges.ofRow? r with
    | error halt => exact absurd (hword r hr) (Nat.not_lt.2 (ofRow?_error_iff.1 hdecode).1)
    | ok answer => exact ⟨answer, by rw [guardedRanges_eq, hdecode]; rfl, rfl⟩
  · obtain ⟨r, hr, hwide, -⟩ := exists_wide_row hparse
    exact absurd (hword r hr) (Nat.not_lt.2 hwide)
  · cases hfind : t.find? jet with
    | none => exact Or.inl ⟨rfl, by rw [Table.outcome, hfind]⟩
    | some e =>
      refine Or.inr ⟨e, List.mem_of_find?_eq_some hfind, rfl, ?_⟩
      rw [Table.outcome, hfind]
      exact answers_outcome e jet
  · obtain ⟨r, hr, hread⟩ := exists_row_of_parse ht he
    obtain ⟨hbins, hdependencies⟩ := length_of_ofRow? hread.ranges
    exact ⟨⟨r, hr, hread, hbins, hdependencies⟩, fun hpos i hi => var_lt_of_readFrom hread hpos hi,
      exists_run e.formula⟩

/-- A heading that is too short asks for more bins than the context names. -/
theorem accesses_of_widened_row : ∃ t e, Table.parse "table"
    ("\x7b1 JetEta 1 JetPt x\x7d\n\x7b3 JetEta\x7d\n" ++
      "-5 5 -9 9 -9 9 3 0 1000 2\n").toList = .ok t ∧ t.entries = [e] ∧
    e.bins.length = 1 ∧ e.dependencies.length = 1 ∧
    ∀ i, .var i ∈ e.formula.program.code → i < 1 := by
  obtain ⟨f, hf⟩ := exists_compile_x
  obtain ⟨r, hrows, hlong, hcompile, hbins, hdependencies⟩ : ∃ r, rowsAmong (events
      ("\x7b1 JetEta 1 JetPt x\x7d\n\x7b3 JetEta\x7d\n" ++
        "-5 5 -9 9 -9 9 3 0 1000 2\n").toList) = [r] ∧ isLong r = true ∧
      compileRow r = Formula.compile ['x'] 1 ∧ (entryOf r f).bins.length = 1 ∧
      (entryOf r f).dependencies.length = 1 :=
    ⟨_, by with_unfolding_all rfl, by with_unfolding_all rfl, by with_unfolding_all rfl,
      by with_unfolding_all rfl, by with_unfolding_all rfl⟩
  have hfits : ∀ c ∈ contextsOf ("\x7b1 JetEta 1 JetPt x\x7d\n\x7b3 JetEta\x7d\n" ++
      "-5 5 -9 9 -9 9 3 0 1000 2\n").toList, leastFields c < Decimal.indexBound := by
    decide
  have hmem : r ∈ rowsAmong (events ("\x7b1 JetEta 1 JetPt x\x7d\n\x7b3 JetEta\x7d\n" ++
      "-5 5 -9 9 -9 9 3 0 1000 2\n").toList) := hrows ▸ List.mem_singleton_self _
  obtain ⟨t, ht, hentries⟩ := exists_parse_of_rows "table" hrows (f := f)
    (by simp [hfits _ (context_mem_contextsOf hmem), hlong, hcompile, hf])
  obtain ⟨-, hvars, -⟩ := ((accesses_in_bounds hfits).2.2.2 "table" t ht).2 (entryOf r f)
    (hentries ▸ List.mem_singleton_self _)
  refine ⟨t, entryOf r f, ht, hentries, hbins, hdependencies, ?_⟩
  rw [hdependencies] at hvars
  exact hvars (Nat.le_refl 1)

end JetEnergy.Correction
