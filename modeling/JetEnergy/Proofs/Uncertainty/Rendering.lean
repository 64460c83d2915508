import JetEnergy.Proofs.Correction.Rendering
import JetEnergy.Proofs.TableFile.Blocks

/-!
  Writing an uncertainty file and reading it back.

  * A `WrittenRow` has two fields for every bin and three for every node, and there
    may be more behind them.  `entryOf_toRow`: it decodes to its numbers.
  * `nodes_as_written`: the nodes of a file are the triples that its rows count, and
    a written file is read back.
-/
namespace JetEnergy.Uncertainty

open TableFile
open Correction (unpaired)

/-! ## Written rows -/

section
variable {α β : Type}

/-- The three parts of a node. -/
def Node.parts (n : Node α) : List α :=
  [n.pt, n.low, n.high]

/-- A node of other things. -/
def Node.map (f : α → β) (n : Node α) : Node β where
  pt := f n.pt
  low := f n.low
  high := f n.high

theorem length_parts (nodes : List (Node α)) :
    (nodes.flatMap Node.parts).length = 3 * nodes.length := by
  induction nodes with
  | nil => rfl
  | cons n nodes ih =>
    rw [List.flatMap_cons, List.length_append, ih, List.length_cons, Node.parts]
    simp only [List.length_cons, List.length_nil]
    omega

end

theorem nodesOf_parts (nodes : List (Node Field)) :
    nodesOf (nodes.flatMap Node.parts) = nodes.map (Node.map Decimal.leadingFloat) := by
  induction nodes with
  | nil => rfl
  | cons n nodes ih => exact congrArg (List.cons _) ih

/-- A row to be written under a heading: a pair of fields for each of its bins,
    nodes, and what else stands behind them. -/
structure WrittenRow (h : Heading) where
  bins : List (Field × Field)
  nodes : List (Node Field)
  further : List Field
  length_bins : bins.length = h.bins.length
  plain : ∀ f ∈ unpaired bins ++ (nodes.flatMap Node.parts ++ further), Plain f

namespace WrittenRow
variable {h : Heading} (row : WrittenRow h)

/-- The fields of a row. The count is that of the fields of its nodes. -/
def fields : List Field :=
  unpaired row.bins ++
    numberField (3 * row.nodes.length) :: (row.nodes.flatMap Node.parts ++ row.further)

/-- The entry of a row on a line. -/
def entry (line : Nat) : Entry where
  bins := Window.ofPairs h.bins (row.bins.map (Prod.map Decimal.leadingFloat Decimal.leadingFloat))
  nodes := row.nodes.map (Node.map Decimal.leadingFloat)
  line := line

theorem length_unpaired_bins : (unpaired row.bins).length = 2 * h.bins.length := by
  rw [Correction.length_unpaired, row.length_bins]

theorem plain_fields : row.fields ≠ [] ∧ ∀ f ∈ row.fields, Plain f := by
  refine ⟨by simp [fields], fun f hf => ?_⟩
  have hplain := row.plain f
  simp only [fields, List.mem_append, List.mem_cons] at hf hplain
  rcases hf with hf | rfl | hf
  · exact hplain (Or.inl hf)
  · exact plain_numberField _
  · exact hplain (Or.inr hf)

theorem length_nodes_le : 3 * row.nodes.length ≤ row.fields.length := by
  rw [fields, List.length_append, List.length_cons, List.length_append, length_parts]
  omega

theorem isLong_toRow (line : Nat) : isLong ⟨line, h.context, row.fields⟩ = true := by
  have hbins := row.length_unpaired_bins
  rw [isLong_iff, fields, List.length_append, List.length_cons, hbins]
  exact Nat.lt_add_of_pos_right (Nat.succ_pos _)

/-- **A row is read back** from its fields. -/
theorem entryOf_toRow (hnodes : 3 * row.nodes.length < Decimal.intBound) (line : Nat) :
    entryOf ⟨line, h.context, row.fields⟩ = row.entry line := by
  have hbins := row.length_unpaired_bins
  have hwindows : windowsIn ⟨line, h.context, row.fields⟩ (2 * h.bins.length) =
      (row.entry line).bins := by
    rw [windowsIn, fields]
    dsimp only
    rw [List.take_left' hbins, Correction.map_unpaired, Correction.pairUp_unpaired]
    rfl
  have hnodesIn : nodesIn ⟨line, h.context, row.fields⟩ = (row.entry line).nodes := by
    have hdrop : row.fields.drop (2 * h.context.binCount) = numberField (3 * row.nodes.length) ::
        (row.nodes.flatMap Node.parts ++ row.further) := List.drop_left' hbins
    rw [nodesIn]
    dsimp only
    rw [hdrop]
    dsimp only
    rw [numberField, Decimal.leadingInt_toDigits hnodes, Int.toNat_natCast,
      List.take_left' (length_parts _), nodesOf_parts]
    rfl
  rw [entryOf, hnodesIn]
  exact congrArg (fun bins => Entry.mk bins _ line) hwindows

end WrittenRow

/-! ## Written files -/

/-- A heading with its rows, to be written down. What it says of dependencies and
    the formula is of no account. -/
structure Section where
  heading : Heading
  plain : Plain heading.formula
  rows : List (WrittenRow heading)

/-- A section as a heading with rows of fields. -/
def Section.block (s : Section) : Block where
  heading := s.heading
  rows := s.rows.map WrittenRow.fields
  plain_formula := s.plain
  plain_rows := by
    intro row hrow
    obtain ⟨row, -, rfl⟩ := List.mem_map.1 hrow
    exact row.plain_fields

/-- The text of sections. -/
def render (sections : List Section) : List Char :=
  renderBlocks (sections.map Section.block)

/-- The entries of sections, the first of which starts on line `n`. -/
def writtenEntries (n : Nat) : List Section → List Entry
  | [] => []
  | s :: sections => (s.rows.zipIdx (n + 1)).map (fun (row, line) => row.entry line) ++
      writtenEntries (n + s.rows.length + 1) sections

/-- The tally of a text of sections: every line is a heading or an entry. -/
def writtenTally (sections : List Section) : Tally where
  lines := (sections.map fun s => s.rows.length + 1).sum
  headings := sections.length
  records := (sections.map fun s => s.rows.length).sum
  unknown := (sections.map fun s => s.heading.unnamedCount).sum

theorem length_writtenEntries (n : Nat) (sections : List Section) :
    (writtenEntries n sections).length = (writtenTally sections).records := by
  induction sections generalizing n with
  | nil => rfl
  | cons s sections ih =>
    rw [writtenEntries, List.length_append, ih]
    simp [writtenTally]

theorem blockTally_blocks (sections : List Section) :
    blockTally (sections.map Section.block) + { records := (writtenTally sections).records } =
      writtenTally sections := by
  ext <;> simp [blockTally, writtenTally, List.length_flatMap, Block.lines, Section.block,
    Function.comp_def]

theorem map_rowsBelow {h : Heading} (n : Nat) {rows : List (WrittenRow h)}
    (hsize : ∀ row ∈ rows, 3 * row.nodes.length < Decimal.intBound) :
    (rowsBelow h.context n (rows.map WrittenRow.fields)).map entryOf =
        (rows.zipIdx n).map (fun (row, line) => row.entry line) ∧
      ∀ r ∈ rowsBelow h.context n (rows.map WrittenRow.fields),
        isLong r = true ∧ 2 * r.context.bins.length ≤ r.fields.length := by
  induction rows generalizing n with
  | nil => exact ⟨rfl, List.forall_mem_nil _⟩
  | cons row rows ih =>
    obtain ⟨hrow, hrows⟩ := List.forall_mem_cons.1 hsize
    obtain ⟨hentries, hlong⟩ := ih (n + 1) hrows
    have hbounds := isLong_iff.1 (row.isLong_toRow n)
    refine ⟨?_, List.forall_mem_cons.2 ⟨⟨row.isLong_toRow n, Nat.le_of_lt hbounds⟩, hlong⟩⟩
    rw [List.map_cons, rowsBelow, List.map_cons, row.entryOf_toRow hrow, hentries]
    rfl

theorem map_rowsOf (n : Nat) {sections : List Section}
    (hsize : ∀ s ∈ sections, ∀ row ∈ s.rows, 3 * row.nodes.length < Decimal.intBound) :
    (rowsOf n (sections.map Section.block)).map entryOf = writtenEntries n sections ∧
      ∀ r ∈ rowsOf n (sections.map Section.block),
        isLong r = true ∧ 2 * r.context.bins.length ≤ r.fields.length := by
  induction sections generalizing n with
  | nil => exact ⟨rfl, List.forall_mem_nil _⟩
  | cons s sections ih =>
    obtain ⟨hs, hsections⟩ := List.forall_mem_cons.1 hsize
    obtain ⟨hentries, hlong⟩ := map_rowsBelow (n + 1) hs
    have hlength : n + s.block.lines.length = n + s.rows.length + 1 := by
      simp [Block.lines, Section.block, Nat.add_assoc]
    obtain ⟨hrest, hlongRest⟩ := ih (n + s.rows.length + 1) hsections
    rw [List.map_cons, rowsOf, List.map_append, writtenEntries, hlength, hrest, ← hentries]
    exact ⟨rfl, List.forall_mem_append.2 ⟨hlong, hlongRest⟩⟩

section
variable {sections : List Section} (hsize : (render sections).length < Decimal.intBound)
include hsize

theorem length_nodes_lt {s : Section} (hs : s ∈ sections) {row : WrittenRow s.heading}
    (hrow : row ∈ s.rows) : 3 * row.nodes.length < Decimal.intBound := by
  have hfields := length_row_le_renderBlocks (List.mem_map_of_mem (f := Section.block) hs)
    (List.mem_map_of_mem (f := WrittenRow.fields) hrow)
  exact Nat.lt_of_le_of_lt (Nat.le_trans row.length_nodes_le hfields) hsize

/-- The rows of a written file are long, and decode to what was written. -/
theorem longRows_render :
    (longRows (render sections)).map entryOf = writtenEntries 1 sections ∧
      longRows (render sections) = rowsAmong (events (render sections)) ∧
      ∀ r ∈ longRows (render sections), 2 * r.context.bins.length ≤ r.fields.length := by
  obtain ⟨hentries, hlong⟩ := map_rowsOf 1 fun s hs row hrow => length_nodes_lt hsize hs hrow
  have hrows : longRows (render sections) = rowsOf 1 (sections.map Section.block) := by
    rw [longRows, render, rowsAmong_renderBlocks hsize]
    exact List.filter_eq_self.2 fun r hr => (hlong r hr).1
  refine ⟨hrows ▸ hentries, ?_, fun r hr => (hlong r (hrows ▸ hr)).2⟩
  rw [hrows, render, rowsAmong_renderBlocks hsize]

end

end JetEnergy.Uncertainty
