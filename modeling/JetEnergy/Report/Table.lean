import JetEnergy.Correction.Table
import JetEnergy.Uncertainty.Table

/-!
  Reports on tables: what was read from their files.
-/
namespace JetEnergy.Report

open TableFile

/-- The lines on a tally; unknown observables are mentioned if there are any. -/
def tallyLines (t : Tally) : String :=
  s!"Lines: read={t.lines} | blank={t.blank} | definitions={t.headings} | dropped={t.dropped}\n" ++
    if t.unknown = 0 then "" else s!"Unknown axis names: {t.unknown} (read as 0)\n"

/-- The observables by the alphabetical order of their names. -/
def alphabetical : List Observable :=
  [.area, .eta, .phi, .pt, .unnamed, .rho]

/-- The names of the observables of some windows, each once, in alphabetical
    order; a dash if there is none. -/
def observableNames (windows : List Window) : String :=
  match alphabetical.filter fun o => windows.any (·.observable = o) with
  | [] => "-"
  | os => ", ".intercalate (os.map Observable.name)

/-- The report on a correction table. -/
def correctionTable (t : Correction.Table) : String :=
  s!"=== correction table: {t.source} ===\n" ++
    s!"Records: {t.entries.length}\n" ++
    s!"Distinct formulas: {t.formulas.length}\n" ++
    tallyLines t.tally ++
    s!"Bin axes: {observableNames (t.entries.flatMap (·.bins))}\n" ++
    s!"Dependencies: {observableNames (t.entries.flatMap (·.dependencies))}\n" ++
    match t.entries with
    | [] => ""
    | first :: _ => s!"First formula: {String.ofList first.formula.source}\n"

/-- The line on the least and the greatest of some numbers of nodes. -/
def nodeLine (counts : List Nat) : String :=
  match counts.min?, counts.max? with
  | some least, some greatest => s!"Nodes per record: {least}..{greatest}\n"
  | _, _ => ""

/-- The report on an uncertainty table. -/
def uncertaintyTable (t : Uncertainty.Table) : String :=
  s!"=== uncertainty table: {t.source} ===\n" ++
    s!"Records: {t.entries.length}\n" ++
    tallyLines t.tally ++
    nodeLine (t.entries.map (·.nodes.length))

end JetEnergy.Report
