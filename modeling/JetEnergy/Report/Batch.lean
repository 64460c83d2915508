import JetEnergy.Batch.Row

/-!
  The report on a batch: how many rows were read and what became of them.
-/
namespace JetEnergy.Report

open Batch

/-- The statuses of the jets that were not corrected, each once, in
    alphabetical order. -/
def failureStatuses (rows : List OutputRow) : List String :=
  (((rows.filter (!·.isCorrected)).map (·.status)).mergeSort (· ≤ ·)).eraseDups

/-- The number of jets that were not corrected for a status. -/
def failureCount (rows : List OutputRow) (status : String) : Nat :=
  rows.countP fun r => !r.isCorrected && r.status == status

/-- The number of rejected rows that are shown. -/
def shownCount : Nat := 5

/-- The lines on rejected rows: the first ones, and how many more there are. -/
def rejectedLines (rejected : List RejectedRow) : List String :=
  let shown := (rejected.take shownCount).map fun r => s!"- line {r.line}: {r.reason}\n"
  let more := rejected.length - shownCount
  if more = 0 then shown else shown ++ [s!"- ... {more} more\n"]

/-- The lines of the report: the totals, the failures by status and the
    rejected rows. -/
def batchLines (rows : List OutputRow) (rowsRead : Nat) (rejected : List RejectedRow) :
    List String :=
  let corrected := rows.countP (·.isCorrected)
  s!"Rows: read={rowsRead} | jets={rows.length} | corrected={corrected} | skipped={rejected.length}\n"
    :: (failureStatuses rows).map (fun status => s!"- {status}: {failureCount rows status}\n")
    ++ rejectedLines rejected

/-- The report on a batch. -/
def batch (rows : List OutputRow) (rowsRead : Nat) (rejected : List RejectedRow) : String :=
  String.join (batchLines rows rowsRead rejected)

end JetEnergy.Report
