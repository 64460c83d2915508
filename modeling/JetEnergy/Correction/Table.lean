import JetEnergy.Correction.Entry
import JetEnergy.Failure

/-!
  Correction tables.

  * `Table.parse` reads a correction file. A row that is too short is dropped;
    a formula that does not compile ends the reading, and a row whose widths are
    no word halts it.
  * A formula is compiled once for all rows that share its text and its number
    of variables: `Pool`.
  * `Table.outcome` is that of the first entry whose bins hold the jet.
-/
namespace JetEnergy.Correction

open TableFile Formula

/-! ## Shared formulas -/

/-- The formulas compiled so far, the latest first. -/
abbrev Pool := List Formula

namespace Pool

/-- The formula of a text and a number of variables, if it has been compiled. -/
def find? (pool : Pool) (source : List Char) (arity : Nat) : Option Formula :=
  List.find? (fun f => f.source == source && f.arity == arity) pool

/-- The formula of a text and a number of variables, compiled now unless it has
    been before, and the pool with it. -/
def compile (pool : Pool) (source : List Char) (arity : Nat) :
    Except FormulaError (Formula × Pool) :=
  match pool.find? source arity with
  | some f => .ok (f, pool)
  | none => (Formula.compile source arity).map fun f => (f, f :: pool)

end Pool

/-! ## Reading -/

/-- A correction file read so far: its entries, the latest first. -/
structure Reading where
  pool : Pool := []
  entries : List Entry := []

/-- Reads one row of the file named `source`. -/
def Reading.row (source : String) (s : Reading) (r : Row) :
    Except (Stop LoadError) (Option Reading) :=
  match Ranges.ofRow? r with
  | .error h => .error (.halt h)
  | .ok none => .ok none
  | .ok (some ranges) =>
    let text := formulaText r.context.formula ranges
    match s.pool.compile text (formulaArity ranges) with
    | .error e =>
      .error (.failure (.badFormula source r.line s.entries.length (String.ofList text) e))
    | .ok (formula, pool) =>
      .ok (some ⟨pool, { ranges with formula, line := r.line } :: s.entries⟩)

/-- A correction table. -/
structure Table where
  /-- the name of its file -/
  source : String
  entries : List Entry
  tally : Tally
  /-- the formulas that its entries share -/
  formulas : List Formula

namespace Table

/-- The table of a file's text; `source` is the name it goes by. -/
def parse (source : String) (text : List Char) : Except (Stop LoadError) Table :=
  match scan (Reading.row source) {} text with
  | .error e => .error e
  | .ok (s, tally) => .ok ⟨source, s.entries.reverse, tally, s.pool⟩

/-- The first entry whose bins hold the jet. -/
def find? (t : Table) (jet : Jet) : Option Entry :=
  t.entries.find? (·.holds jet)

/-- The outcome for a jet: a factor, if all goes well. -/
def outcome (t : Table) (jet : Jet) : Outcome :=
  match t.find? jet with
  | some e => e.outcome jet
  | none => .noMatch

end Table

end JetEnergy.Correction
