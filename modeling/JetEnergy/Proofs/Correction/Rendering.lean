import JetEnergy.Proofs.Correction.Reading
import JetEnergy.Proofs.TableFile.Blocks

/-!
  Writing a correction file and reading it back.

  * A `WrittenRow` has fields for every observable of a heading, and a layout;
    `WrittenRow.ranges` are its numbers.  `ofRow?_fields`: a row that is not
    ambiguous decodes to them, in either layout.
  * `render` writes sections, each a heading with its rows, and `placed` says
    on which line each row stands.  `rowsAmong_render`: these are the rows of
    the text.
  * `parse_render`: its table has an entry for each row, in order.
-/
namespace JetEnergy.Correction

open TableFile Formula

/-! ## Pairs in a row -/

section
variable {α β : Type}

/-- The components of pairs, one pair after the other. -/
def unpaired (pairs : List (α × α)) : List α :=
  pairs.flatMap fun p => [p.1, p.2]

theorem unpaired_cons (p : α × α) (pairs : List (α × α)) :
    unpaired (p :: pairs) = p.1 :: p.2 :: unpaired pairs :=
  rfl

theorem length_unpaired (pairs : List (α × α)) : (unpaired pairs).length = 2 * pairs.length := by
  induction pairs with
  | nil => rfl
  | cons p pairs ih =>
    rw [unpaired_cons, List.length_cons, List.length_cons, ih, List.length_cons]
    omega

theorem map_unpaired (f : α → β) (pairs : List (α × α)) :
    (unpaired pairs).map f = unpaired (pairs.map (Prod.map f f)) := by
  induction pairs with
  | nil => rfl
  | cons p pairs ih => rw [unpaired_cons, List.map_cons, List.map_cons, ih]; rfl

theorem pairUp_unpaired (pairs : List (α × α)) : pairUp (unpaired pairs) = pairs := by
  induction pairs with
  | nil => simp [unpaired, pairUp]
  | cons p pairs ih => rw [unpaired_cons, pairUp, ih]

end

/-! ## Written rows -/

/-- A row to be written under a heading: a pair of fields for each of its bins
    and dependencies, parameters, and the place of the count. -/
structure WrittenRow (h : Heading) where
  layout : Layout
  bins : List (Field × Field)
  dependencies : List (Field × Field)
  parameters : List Field
  length_bins : bins.length = h.bins.length
  length_dependencies : dependencies.length = h.dependencies.length
  plain : ∀ f ∈ unpaired bins ++ unpaired dependencies ++ parameters, Plain f

namespace WrittenRow
variable {h : Heading} (row : WrittenRow h)

/-- The number of fields after the bins, but for the count. -/
def width : Nat :=
  2 * h.dependencies.length + row.parameters.length

/-- The fields after the bins. The count is the number of those after it. -/
def afterBins : List Field :=
  match row.layout with
  | .afterBins => numberField row.width :: (unpaired row.dependencies ++ row.parameters)
  | .afterDependencies =>
    unpaired row.dependencies ++ numberField row.parameters.length :: row.parameters

/-- The fields of a row. -/
def fields : List Field :=
  unpaired row.bins ++ row.afterBins

/-- The numbers of a row. -/
def ranges : Ranges where
  bins := Window.ofPairs h.bins (row.bins.map (Prod.map Decimal.leadingFloat Decimal.leadingFloat))
  dependencies := Window.ofPairs h.dependencies
    (row.dependencies.map (Prod.map Decimal.leadingFloat Decimal.leadingFloat))
  parameters := row.parameters.map Decimal.leadingFloat

/-- The formula of a row: with four dependencies the last one is the parameter
    after the row's own. -/
def compile : Except FormulaError Formula :=
  Formula.compile
    (if h.dependencies.length = 4 then fold 't' row.parameters.length h.formula else h.formula)
    (max 1 (min h.dependencies.length 3))

/-- Whether the first dependency tells the layout. After a count its bounds are
    in order; without one before it, its lower bound is no count itself. -/
def Unambiguous : Prop :=
  ∀ first ∈ row.dependencies.head?,
    match row.layout with
    | .afterBins => Decimal.leadingFloat first.1 ≤ Decimal.leadingFloat first.2
    | .afterDependencies => Decimal.leadingInt first.1 ≠ row.width

theorem length_bounds : (unpaired row.dependencies).length = 2 * h.dependencies.length := by
  rw [length_unpaired, row.length_dependencies]

theorem length_afterBins : row.afterBins.length = row.width + 1 := by
  have hlength := row.length_bounds
  rw [afterBins, width]
  cases row.layout with
  | afterBins => simp only [List.length_cons, List.length_append, hlength]
  | afterDependencies => simp only [List.length_cons, List.length_append, hlength]; omega

theorem length_fields : row.fields.length = leastFields h.context + row.parameters.length := by
  rw [fields, List.length_append, length_unpaired, row.length_bins, length_afterBins, width,
    leastFields]
  simp only [Heading.context]
  omega

theorem plain_fields : ∀ f ∈ row.fields, Plain f := by
  intro f hf
  have hplain := row.plain f
  simp only [List.mem_append] at hplain
  rw [fields, afterBins, List.mem_append] at hf
  rcases hf with hf | hf
  · exact hplain (Or.inl (Or.inl hf))
  · cases hlayout : row.layout with
    | afterBins =>
      rw [hlayout] at hf
      rcases List.mem_cons.1 hf with rfl | hf
      · exact plain_numberField _
      · rcases List.mem_append.1 hf with hf | hf
        · exact hplain (Or.inl (Or.inr hf))
        · exact hplain (Or.inr hf)
    | afterDependencies =>
      rw [hlayout] at hf
      rcases List.mem_append.1 hf with hf | hf
      · exact hplain (Or.inl (Or.inr hf))
      · rcases List.mem_cons.1 hf with rfl | hf
        · exact plain_numberField _
        · exact hplain (Or.inr hf)

theorem fields_ne_nil : row.fields ≠ [] := by
  intro hnil
  have hlength := row.length_fields
  rw [hnil, leastFields, List.length_nil] at hlength
  omega

/-! ### The layout of a written row -/

theorem isCount_numberField {n : Nat} {rest : List Field} (hn : n < Decimal.intBound)
    (hrest : rest.length = n) : isCount (numberField n :: rest) = true := by
  rw [isCount, numberField, Decimal.leadingInt_toDigits hn, hrest, beq_self_eq_true]

/-- The count is found where it has been written. -/
theorem ofFields_afterBins (hwidth : row.width < Decimal.intBound) (hrow : row.Unambiguous)
    (hne : row.dependencies ≠ []) :
    Layout.ofFields h.dependencies.length row.afterBins = row.layout := by
  obtain ⟨first, rest, hdependencies⟩ := List.exists_cons_of_ne_nil hne
  have hpos : h.dependencies.length ≠ 0 := by
    rw [← row.length_dependencies, hdependencies]
    exact Nat.succ_ne_zero _
  have hfirst := hrow first (by rw [hdependencies]; rfl)
  have htotal := row.length_afterBins
  rw [Layout.ofFields, if_neg hpos]
  cases hlayout : row.layout with
  | afterBins =>
    rw [hlayout] at hfirst
    have hfields : row.afterBins = numberField row.width :: first.1 :: first.2 ::
        (unpaired rest ++ row.parameters) := by
      rw [afterBins, hlayout, hdependencies]; rfl
    have hcount : isCount row.afterBins = true := by
      rw [hfields] at htotal ⊢
      exact isCount_numberField hwidth (Nat.succ.inj htotal)
    have hascends : descends (row.afterBins.map Decimal.leadingFloat) = false := by
      rw [hfields]
      exact decide_eq_false (Decimal.not_lt_of_le hfirst)
    rw [hcount, hascends]
    -- the second place may hold a count as well; the order of the bounds decides
    cases isCount (row.afterBins.drop (2 * h.dependencies.length)) <;> rfl
  | afterDependencies =>
    rw [hlayout] at hfirst
    have hfields : row.afterBins = unpaired row.dependencies ++
        numberField row.parameters.length :: row.parameters := by
      rw [afterBins, hlayout]
    have hno : isCount row.afterBins = false := by
      rw [hfields, hdependencies] at htotal ⊢
      have hrest : ((first.2 :: unpaired rest) ++
          numberField row.parameters.length :: row.parameters).length = row.width :=
        Nat.succ.inj htotal
      rw [unpaired_cons, List.cons_append, isCount, hrest]
      exact beq_eq_false_iff_ne.2 hfirst
    have hcount : isCount (row.afterBins.drop (2 * h.dependencies.length)) = true := by
      rw [hfields, List.drop_left' row.length_bounds]
      exact isCount_numberField (Nat.lt_of_le_of_lt (Nat.le_add_left ..) hwidth) rfl
    rw [hno, hcount]

/-- The bounds of the dependencies are found where they have been written. -/
theorem take_dependencies (hwidth : row.width < Decimal.intBound) (hrow : row.Unambiguous) :
    ((match Layout.ofFields h.dependencies.length row.afterBins with
      | .afterBins => (row.afterBins.map Decimal.leadingFloat).drop 1
      | .afterDependencies => row.afterBins.map Decimal.leadingFloat).take
        (2 * h.dependencies.length)) =
      (unpaired row.dependencies).map Decimal.leadingFloat := by
  have hlength : ((unpaired row.dependencies).map Decimal.leadingFloat).length =
      2 * h.dependencies.length := by
    rw [List.length_map, row.length_bounds]
  by_cases hnil : row.dependencies = []
  · -- without dependencies there is nothing to take in either layout
    rw [hnil] at hlength ⊢
    rw [← hlength]
    rfl
  · rw [row.ofFields_afterBins hwidth hrow hnil]
    cases hlayout : row.layout with
    | afterBins =>
      rw [afterBins, hlayout, List.map_cons, List.drop_succ_cons, List.drop_zero, List.map_append]
      exact List.take_left' hlength
    | afterDependencies =>
      rw [afterBins, hlayout, List.map_append]
      exact List.take_left' hlength

theorem drop_parameters : row.afterBins.drop (2 * h.dependencies.length + 1) = row.parameters := by
  rw [afterBins]
  cases row.layout with
  | afterBins =>
    rw [List.drop_succ_cons]
    exact List.drop_left' row.length_bounds
  | afterDependencies =>
    rw [← List.drop_drop, List.drop_left' row.length_bounds]
    rfl

/-- The fields of a row hold its numbers, in either layout. -/
theorem ofFields_fields (hwidth : row.width < Decimal.intBound) (hrow : row.Unambiguous) :
    Ranges.ofFields h.context row.fields = row.ranges := by
  have hbins : (unpaired row.bins).length = 2 * h.context.binCount := by
    rw [length_unpaired, row.length_bins]; rfl
  have hafter : row.fields.drop (2 * h.context.binCount) = row.afterBins := List.drop_left' hbins
  have htake : (row.fields.map Decimal.leadingFloat).take (2 * h.context.binCount) =
      unpaired (row.bins.map (Prod.map Decimal.leadingFloat Decimal.leadingFloat)) := by
    rw [← List.map_take, fields, List.take_left' hbins, map_unpaired]
  have hparameters : (row.fields.map Decimal.leadingFloat).drop (leastFields h.context) =
      row.parameters.map Decimal.leadingFloat := by
    rw [← List.map_drop, leastFields, Nat.add_assoc, ← List.drop_drop, hafter]
    exact congrArg (List.map Decimal.leadingFloat) row.drop_parameters
  rw [Ranges.ofFields]
  rw [htake, hparameters, ← List.map_drop, hafter, pairUp_unpaired]
  have hdependencies := row.take_dependencies hwidth hrow
  rw [map_unpaired] at hdependencies
  have hpairs := pairUp_unpaired
    (row.dependencies.map (Prod.map Decimal.leadingFloat Decimal.leadingFloat))
  rw [← hdependencies] at hpairs
  exact congrArg (fun pairs => Ranges.mk _ (Window.ofPairs h.dependencies pairs) _) hpairs

/-- **A row is read back** from its fields. -/
theorem ofRow?_fields (hlength : row.fields.length < Decimal.intBound) (hrow : row.Unambiguous)
    (n : Nat) : Ranges.ofRow? ⟨n, h.context, row.fields⟩ = .ok (some row.ranges) := by
  have hfields := row.length_fields
  have hwidth : row.width < Decimal.intBound := by
    rw [fields, List.length_append, length_afterBins] at hlength
    omega
  have hbound : Decimal.intBound < Decimal.indexBound := by decide
  exact ofRow?_ok_some_iff.2 ⟨by dsimp only; omega, by dsimp only; omega,
    (row.ofFields_fields hwidth hrow).symm⟩

theorem length_dependencies_ranges : row.ranges.dependencies.length = h.dependencies.length := by
  rw [ranges, length_ofPairs, List.length_map, row.length_dependencies, Nat.min_self]

/-- The formula of a row is the one that its numbers ask for. -/
theorem compile_ranges :
    Formula.compile (formulaText h.formula row.ranges) (formulaArity row.ranges) = row.compile := by
  rw [formulaText, formulaArity, length_dependencies_ranges, ranges, List.length_map]
  rfl

end WrittenRow

/-! ## Sections -/

/-- A heading with its rows, to be written down. -/
structure Section where
  heading : Heading
  plain : Plain heading.formula
  rows : List (WrittenRow heading)

/-- The lines of a section. -/
def Section.lines (s : Section) : List (List Char) :=
  headingLine s.heading.fields :: s.rows.map fun row => rowLine row.fields

/-- The text of sections. -/
def render (sections : List Section) : List Char :=
  Text.ended (sections.flatMap Section.lines)

/-- A written row with its heading and the number of its line. -/
structure Placed where
  heading : Heading
  row : WrittenRow heading
  line : Nat

/-- Rows under a heading, the first of them on line `n`. -/
def placedRows {h : Heading} (n : Nat) : List (WrittenRow h) → List Placed
  | [] => []
  | row :: rows => ⟨h, row, n⟩ :: placedRows (n + 1) rows

/-- The rows of sections, the first of which starts on line `n`. -/
def placed (n : Nat) : List Section → List Placed
  | [] => []
  | s :: sections => placedRows (n + 1) s.rows ++ placed (n + s.lines.length) sections

namespace Placed

/-- A placed row as it is read. -/
def toRow (p : Placed) : Row :=
  ⟨p.line, p.heading.context, p.row.fields⟩

/-- An entry for a placed row: with its line, its numbers and its formula. -/
structure Records (p : Placed) (e : Entry) : Prop where
  line : e.line = p.line
  ranges : e.toRanges = p.row.ranges
  formula : p.row.compile = .ok e.formula

end Placed

theorem length_placedRows {h : Heading} (n : Nat) (rows : List (WrittenRow h)) :
    (placedRows n rows).length = rows.length := by
  induction rows generalizing n with
  | nil => rfl
  | cons row rows ih => rw [placedRows, List.length_cons, ih, List.length_cons]

theorem exists_of_mem_placedRows {h : Heading} {n : Nat} {rows : List (WrittenRow h)} {p : Placed}
    (hp : p ∈ placedRows n rows) : ∃ row ∈ rows, ∃ m, p = ⟨h, row, m⟩ := by
  induction rows generalizing n with
  | nil => cases hp
  | cons row rows ih =>
    rcases List.mem_cons.1 hp with rfl | hp
    · exact ⟨row, List.mem_cons_self .., n, rfl⟩
    · obtain ⟨row', hrow', hm⟩ := ih hp
      exact ⟨row', List.mem_cons_of_mem _ hrow', hm⟩

theorem exists_of_mem_placed {n : Nat} {sections : List Section} {p : Placed}
    (hp : p ∈ placed n sections) :
    ∃ s ∈ sections, ∃ row ∈ s.rows, ∃ m, p = ⟨s.heading, row, m⟩ := by
  induction sections generalizing n with
  | nil => cases hp
  | cons s sections ih =>
    rcases List.mem_append.1 hp with hp | hp
    · exact ⟨s, List.mem_cons_self .., exists_of_mem_placedRows hp⟩
    · obtain ⟨s', hs', hrow⟩ := ih hp
      exact ⟨s', List.mem_cons_of_mem _ hs', hrow⟩

/-! ### Sections as blocks -/

/-- A section as a heading with rows of fields. -/
def Section.block (s : Section) : Block where
  heading := s.heading
  rows := s.rows.map WrittenRow.fields
  plain_formula := s.plain
  plain_rows := by
    intro row hrow
    obtain ⟨row, -, rfl⟩ := List.mem_map.1 hrow
    exact ⟨row.fields_ne_nil, row.plain_fields⟩

theorem Section.lines_block (s : Section) : s.block.lines = s.lines := by
  rw [Block.lines, block, List.map_map, lines]
  rfl

theorem flatMap_lines_block (sections : List Section) :
    (sections.map Section.block).flatMap Block.lines = sections.flatMap Section.lines := by
  rw [List.flatMap_map]
  exact congrArg sections.flatMap (funext Section.lines_block)

theorem render_eq (sections : List Section) :
    render sections = renderBlocks (sections.map Section.block) := by
  rw [render, renderBlocks, flatMap_lines_block]

theorem rowsBelow_fields {h : Heading} (n : Nat) (rows : List (WrittenRow h)) :
    rowsBelow h.context n (rows.map WrittenRow.fields) = (placedRows n rows).map Placed.toRow := by
  induction rows generalizing n with
  | nil => rfl
  | cons row rows ih => rw [List.map_cons, rowsBelow, ih, placedRows, List.map_cons]; rfl

theorem rowsOf_blocks (n : Nat) (sections : List Section) :
    rowsOf n (sections.map Section.block) = (placed n sections).map Placed.toRow := by
  induction sections generalizing n with
  | nil => rfl
  | cons s sections ih =>
    rw [List.map_cons, rowsOf, ih, s.lines_block, placed, List.map_append, ← rowsBelow_fields]
    rfl

theorem length_fields_le {sections : List Section} {s : Section} (hs : s ∈ sections)
    {row : WrittenRow s.heading} (hrow : row ∈ s.rows) :
    row.fields.length ≤ (render sections).length := by
  rw [render_eq]
  exact length_row_le_renderBlocks (List.mem_map_of_mem (f := Section.block) hs)
    (List.mem_map_of_mem (f := WrittenRow.fields) hrow)

/-! ## Tables -/

/-- The tally of a text of sections: every line is a heading or an entry. -/
def writtenTally (sections : List Section) : Tally where
  lines := (sections.flatMap Section.lines).length
  headings := sections.length
  records := (sections.map fun s => s.rows.length).sum
  unknown := (sections.map fun s => s.heading.unnamedCount).sum

/-- If every row is kept, the tally counts the lines by kind and the rows as
    records. -/
theorem tallyFrom_of_kept {es : List Event} (h : ∀ r ∈ rowsAmong es, isKept (.row r) = true)
    (tally : Tally) : tallyFrom tally es =
      tally + (eventTally es + { records := (rowsAmong es).length }) := by
  induction es generalizing tally with
  | nil => rfl
  | cons e es ih =>
    have hes : ∀ r ∈ rowsAmong es, isKept (.row r) = true :=
      fun r hr => h r (mem_rowsAmong_cons.2 (Or.inr hr))
    have hstep : tallyFrom tally (e :: es) = tallyFrom (tally.after (isKept e) e) es := rfl
    rw [hstep, ih hes]
    cases e with
    | row r =>
      rw [h r (mem_rowsAmong_cons.2 (Or.inl rfl)), rowsAmong_cons_row]
      ext <;> simp [Tally.after, eventTally, Event.tally] <;> omega
    | _ => ext <;> simp [Tally.after, eventTally, Event.tally, rowsAmong] <;> omega

theorem length_placed (n : Nat) (sections : List Section) :
    (placed n sections).length = (writtenTally sections).records := by
  induction sections generalizing n with
  | nil => rfl
  | cons s sections ih =>
    rw [placed, List.length_append, ih, length_placedRows, writtenTally, writtenTally,
      List.map_cons, List.sum_cons]

theorem blockTally_blocks (sections : List Section) :
    blockTally (sections.map Section.block) + { records := (writtenTally sections).records } =
      writtenTally sections := by
  ext <;> simp [blockTally, writtenTally, flatMap_lines_block, Section.block, Function.comp_def]

/-! ### Sections that fit in a text -/

section
variable {sections : List Section} (hsize : (render sections).length < Decimal.intBound)
include hsize

theorem rowsAmong_render :
    rowsAmong (events (render sections)) = (placed 1 sections).map Placed.toRow := by
  rw [render_eq] at hsize ⊢
  rw [rowsAmong_renderBlocks hsize, rowsOf_blocks]

variable (hrows : ∀ s ∈ sections, ∀ row ∈ s.rows, row.Unambiguous)
include hrows

theorem ofRow?_toRow {p : Placed} (hp : p ∈ placed 1 sections) :
    Ranges.ofRow? p.toRow = .ok (some p.row.ranges) := by
  obtain ⟨s, hs, row, hrow, m, rfl⟩ := exists_of_mem_placed hp
  exact row.ofRow?_fields (Nat.lt_of_le_of_lt (length_fields_le hs hrow) hsize)
    (hrows s hs row hrow) m

/-- Every row of a written text is long enough. -/
theorem isLong_of_mem {r : Row} (hr : r ∈ rowsAmong (events (render sections))) :
    isLong r = true := by
  rw [rowsAmong_render hsize] at hr
  obtain ⟨p, hp, rfl⟩ := List.mem_map.1 hr
  exact isLong_iff.2 (ofRow?_ok_some_iff.1 (ofRow?_toRow hsize hrows hp)).2.1

theorem tallyOf_render : tallyOf (render sections) = writtenTally sections := by
  have hcount : (rowsAmong (events (render sections))).length =
      (writtenTally sections).records := by
    rw [rowsAmong_render hsize, List.length_map, length_placed]
  rw [tallyOf, tallyFrom_of_kept fun r hr => isLong_of_mem hsize hrows hr, hcount,
    eventTally_events, Tally.empty_add]
  rw [render_eq] at hsize ⊢
  rw [lineTally_renderBlocks hsize]
  exact blockTally_blocks sections

/-- A written row with a formula is readable. -/
theorem readable_toRow {p : Placed} (hp : p ∈ placed 1 sections)
    (hf : ∃ f, p.row.compile = .ok f) : Readable p.toRow := by
  obtain ⟨hword, -, hranges⟩ := ofRow?_ok_some_iff.1 (ofRow?_toRow hsize hrows hp)
  refine ⟨hword, fun _ => ?_⟩
  rw [compileRow, textOf, ← hranges]
  exact p.row.compile_ranges ▸ hf

/-- An entry that is read from a placed row records it. -/
theorem records_of_readFrom {p : Placed} (hp : p ∈ placed 1 sections) {e : Entry}
    (he : e.ReadFrom p.toRow) : p.Records e := by
  have hranges : e.toRanges = p.row.ranges :=
    Option.some.inj (Except.ok.inj (he.ranges.symm.trans (ofRow?_toRow hsize hrows hp)))
  have hformula := he.formula
  rw [hranges] at hformula
  exact ⟨he.line, hranges, p.row.compile_ranges.symm.trans hformula⟩

end

end JetEnergy.Correction
