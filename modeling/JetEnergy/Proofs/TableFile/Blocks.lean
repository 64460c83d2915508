import JetEnergy.Proofs.TableFile.Rendering
import JetEnergy.Proofs.TableFile.Tallying

/-!
  Writing files of headings and rows.

  * A `Block` is a heading with rows of fields below it, and `renderBlocks` writes
    blocks one below the other.  Nothing is said here of what the fields of a row
    are for.
  * `rowsAmong_renderBlocks`: the rows are read back, each on its line and in the
    context of its heading.  `lineTally_renderBlocks`: no line is dropped.
-/
namespace JetEnergy.TableFile

/-- A heading with the rows below it, to be written down. -/
structure Block where
  heading : Heading
  rows : List (List Field)
  plain_formula : Plain heading.formula
  plain_rows : ∀ row ∈ rows, row ≠ [] ∧ ∀ f ∈ row, Plain f

/-- The lines of a block. -/
def Block.lines (b : Block) : List (List Char) :=
  headingLine b.heading.fields :: b.rows.map rowLine

/-- The text of blocks. -/
def renderBlocks (blocks : List Block) : List Char :=
  Text.ended (blocks.flatMap Block.lines)

/-- Rows in a context, the first of them on line `n`. -/
def rowsBelow (c : Context) (n : Nat) : List (List Field) → List Row
  | [] => []
  | fields :: rows => ⟨n, c, fields⟩ :: rowsBelow c (n + 1) rows

/-- The rows of blocks, the first of which starts on line `n`. -/
def rowsOf (n : Nat) : List Block → List Row
  | [] => []
  | b :: blocks => rowsBelow b.heading.context (n + 1) b.rows ++ rowsOf (n + b.lines.length) blocks

/-! ## What a text has room for -/

section
variable {blocks : List Block} {b : Block} (hb : b ∈ blocks)
include hb

theorem length_le_length_renderBlocks {l : List Char} (hl : l ∈ b.lines) :
    l.length ≤ (renderBlocks blocks).length :=
  Text.length_le_length_ended (List.mem_flatMap.2 ⟨b, hb, hl⟩)

theorem length_row_le_renderBlocks {row : List Field} (hrow : row ∈ b.rows) :
    row.length ≤ (renderBlocks blocks).length :=
  Nat.le_trans (length_le_length_rowLine (b.plain_rows row hrow).2)
    (length_le_length_renderBlocks hb (List.mem_cons_of_mem _ (List.mem_map_of_mem hrow)))

theorem length_heading_lt_renderBlocks :
    b.heading.bins.length < (renderBlocks blocks).length ∧
      b.heading.dependencies.length < (renderBlocks blocks).length := by
  have hfields := length_le_length_headingLine (Heading.plain_fields b.plain_formula)
  have hline := length_le_length_renderBlocks hb (List.mem_cons_self ..)
  rw [Heading.length_fields] at hfields
  omega

end

/-! ## Lines -/

/-- The lines of a block as they are read. -/
def Block.asRead (b : Block) : List Line :=
  .heading b.heading.fields :: b.rows.map .row

theorem Block.map_read_lines (b : Block) : b.lines.map Line.read = b.asRead := by
  rw [lines, asRead, List.map_cons, List.map_map,
    read_headingLine (Heading.plain_fields b.plain_formula) (by simp [Heading.fields])]
  congr 1
  refine List.map_congr_left fun row hrow => ?_
  obtain ⟨hne, hplain⟩ := b.plain_rows row hrow
  exact read_rowLine hplain hne

theorem Block.not_mem_lines (b : Block) {l : List Char} (hl : l ∈ b.lines) :
    '\n' ∉ l ∧ '\r' ∉ l := by
  rcases List.mem_cons.1 hl with rfl | hl
  · have hplain := Heading.plain_fields b.plain_formula
    exact ⟨not_mem_headingLine hplain rfl (by decide), not_mem_headingLine hplain rfl (by decide)⟩
  · obtain ⟨row, hrow, rfl⟩ := List.mem_map.1 hl
    have hplain := (b.plain_rows row hrow).2
    exact ⟨not_mem_rowLine hplain rfl (by decide), not_mem_rowLine hplain rfl (by decide)⟩

theorem lines_renderBlocks (blocks : List Block) :
    Text.lines (renderBlocks blocks) = blocks.flatMap Block.lines := by
  refine Text.lines_ended fun l hl => ?_
  obtain ⟨b, -, hl⟩ := List.mem_flatMap.1 hl
  exact b.not_mem_lines hl

theorem linesOf_renderBlocks (blocks : List Block) :
    linesOf (renderBlocks blocks) = blocks.flatMap Block.asRead := by
  rw [linesOf, lines_renderBlocks, List.map_flatMap]
  exact congrArg blocks.flatMap (funext Block.map_read_lines)

/-! ## Events -/

/-- What the lines of blocks are, the first of which starts on line `n`. -/
def blockEvents (n : Nat) : List Block → List Event
  | [] => []
  | b :: blocks => .heading b.heading.unnamedCount ::
      (rowsBelow b.heading.context (n + 1) b.rows).map .row ++
        blockEvents (n + b.lines.length) blocks

theorem eventsFrom_rowsBelow (c : Context) (n : Nat) (rows : List (List Field)) :
    eventsFrom (some c) n (rows.map .row) = (rowsBelow c n rows).map .row := by
  induction rows generalizing n with
  | nil => rfl
  | cons fields rows ih =>
    rw [List.map_cons, eventsFrom, rowsBelow, List.map_cons, ← ih]
    rfl

theorem eventsFrom_blocks {blocks : List Block}
    (h : ∀ b ∈ blocks, b.heading.bins.length < Decimal.intBound ∧
      b.heading.dependencies.length < Decimal.intBound) (context : Option Context) (n : Nat) :
    eventsFrom context n (blocks.flatMap Block.asRead) = blockEvents n blocks := by
  induction blocks generalizing context n with
  | nil => rfl
  | cons b blocks ih =>
    obtain ⟨⟨hbins, hdependencies⟩, hblocks⟩ := List.forall_mem_cons.1 h
    have hheading := Heading.ofFields?_fields hbins hdependencies
    have hlength : b.asRead.length = b.lines.length := by
      rw [← b.map_read_lines, List.length_map]
    rw [List.flatMap_cons, eventsFrom_append, ih hblocks, hlength, blockEvents,
      ← eventsFrom_rowsBelow]
    simp only [Block.asRead, eventsFrom, eventOf, contextAfter, hheading]

theorem rowsAmong_blockEvents (n : Nat) (blocks : List Block) :
    rowsAmong (blockEvents n blocks) = rowsOf n blocks := by
  induction blocks generalizing n with
  | nil => rfl
  | cons b blocks ih =>
    rw [blockEvents, rowsOf, ← ih]
    simp [rowsAmong, List.filterMap_map]

/-- The lines of blocks by kind. -/
def blockTally (blocks : List Block) : Tally where
  lines := (blocks.flatMap Block.lines).length
  headings := blocks.length
  unknown := (blocks.map fun b => b.heading.unnamedCount).sum

theorem eventTally_rows (rows : List Row) :
    eventTally (rows.map .row) = { lines := rows.length } := by
  induction rows with
  | nil => rfl
  | cons r rows ih =>
    rw [List.map_cons, eventTally, ih, List.length_cons]
    ext <;> simp [Event.tally]
    omega

theorem eventTally_append (es fs : List Event) :
    eventTally (es ++ fs) = eventTally es + eventTally fs := by
  induction es with
  | nil => exact (Tally.empty_add _).symm
  | cons e es ih => rw [List.cons_append, eventTally, eventTally, ih, Tally.add_assoc]

theorem length_rowsBelow (c : Context) (n : Nat) (rows : List (List Field)) :
    (rowsBelow c n rows).length = rows.length := by
  induction rows generalizing n with
  | nil => rfl
  | cons fields rows ih => rw [rowsBelow, List.length_cons, ih, List.length_cons]

theorem eventTally_blockEvents (n : Nat) (blocks : List Block) :
    eventTally (blockEvents n blocks) = blockTally blocks := by
  induction blocks generalizing n with
  | nil => rfl
  | cons b blocks ih =>
    rw [blockEvents, eventTally_append, ih, eventTally, eventTally_rows, length_rowsBelow]
    ext <;> simp [blockTally, Event.tally, Block.lines] <;> omega

section
variable {blocks : List Block} (hsize : (renderBlocks blocks).length < Decimal.intBound)
include hsize

theorem events_renderBlocks : events (renderBlocks blocks) = blockEvents 1 blocks := by
  rw [events, linesOf_renderBlocks]
  refine eventsFrom_blocks (fun b hb => ?_) none 1
  obtain ⟨hbins, hdependencies⟩ := length_heading_lt_renderBlocks hb
  exact ⟨Nat.lt_trans hbins hsize, Nat.lt_trans hdependencies hsize⟩

/-- **The rows of blocks are read back.** -/
theorem rowsAmong_renderBlocks : rowsAmong (events (renderBlocks blocks)) = rowsOf 1 blocks := by
  rw [events_renderBlocks hsize, rowsAmong_blockEvents]

/-- **No line of blocks is dropped**, and those that are no rows are headings. -/
theorem lineTally_renderBlocks :
    lineTally (Text.lines (renderBlocks blocks)) = blockTally blocks := by
  rw [← eventTally_events, events_renderBlocks hsize, eventTally_blockEvents]

end

end JetEnergy.TableFile
