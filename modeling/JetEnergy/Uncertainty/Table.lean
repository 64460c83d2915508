import JetEnergy.Window
import JetEnergy.TableFile.Scan
import JetEnergy.Uncertainty.Band

/-!
  Uncertainty tables.

      low high (per bin)  count  pt low high (per node)

  `count` is the number of numbers after it, three per node. What a heading
  says beyond the bins is of no account.

  * `Entry.ofRow?` decodes a row. It reads bounds for every bin that the
    heading names, so it halts at a row too short for them all.
  * `Table.parse` reads a file, and nothing else in it is fatal.
  * `Table.band` is that of the first entry whose bins hold the jet.
  * `Table.shift` moves the momentum of a jet to an edge of its band.
-/
namespace JetEnergy.Uncertainty

open TableFile

/-- The windows of some observables, each with the next two fields as its
    bounds; or the position of the first one that lacks a bound. -/
def windowsFrom (position : Nat) : List Observable → List Field → Except Nat (List Window)
  | [], _ => .ok []
  | o :: os, low :: high :: rest =>
    (windowsFrom (position + 1) os rest).map
      (Window.ofBounds o (Decimal.leadingFloat low) (Decimal.leadingFloat high) :: ·)
  | _ :: _, _ => .error position

/-- The nodes in a list of fields, three fields each; what is left over at the
    end makes none. -/
def nodesOf : List Field → List (Node Float)
  | pt :: low :: high :: rest =>
    { pt := Decimal.leadingFloat pt
      low := Decimal.leadingFloat low
      high := Decimal.leadingFloat high } :: nodesOf rest
  | _ => []

/-- A row of an uncertainty file. -/
structure Entry where
  bins : List Window
  nodes : List (Node Float)
  /-- the number of its line -/
  line : Nat

namespace Entry

/-- The entry of a row, if the row is long enough. A count that says more than
    there is stands for what there is, a negative one for nothing. -/
def ofRow? (r : Row) : Except Halt (Option Entry) :=
  match r.fields.drop (2 * r.context.binCount) with
  | [] => .ok none
  | count :: values =>
    match windowsFrom 0 r.context.bins r.fields with
    | .error bin => .error (.missingBound r.line bin)
    | .ok bins =>
      .ok (some ⟨bins, nodesOf (values.take (Decimal.leadingInt count).toNat), r.line⟩)

/-- Whether the jet lies in every bin. -/
def holds (e : Entry) (jet : Jet) : Bool :=
  e.bins.all (·.holds jet)

end Entry

/-! ## Tables -/

/-- Reads one row; `entries` are those before it, the latest first. -/
def readRow (entries : List Entry) (r : Row) : Except Halt (Option (List Entry)) :=
  match Entry.ofRow? r with
  | .error h => .error h
  | .ok none => .ok none
  | .ok (some e) => .ok (some (e :: entries))

/-- An uncertainty table. -/
structure Table where
  /-- the name of its file -/
  source : String
  entries : List Entry
  tally : Tally

/-- A systematic variation of the energy scale. -/
inductive Systematic where
  | nominal
  /-- to `1 + low` times the momentum -/
  | up
  /-- to `1 - high` times the momentum -/
  | down
  deriving DecidableEq, Repr

/-- A momentum moved to an edge of its band; without a band it stays. -/
def Systematic.move (s : Systematic) (band : Option (Band Float)) (pt : Float) : Float :=
  match s, band with
  | up, some b => pt * (1 + b.low)
  | down, some b => pt * (1 - b.high)
  | _, _ => pt

namespace Table

/-- The table of a file's text; `source` is the name it goes by. -/
def parse (source : String) (text : List Char) : Except Halt Table :=
  match scan readRow [] text with
  | .error h => .error h
  | .ok (entries, tally) => .ok ⟨source, entries.reverse, tally⟩

/-- The first entry whose bins hold the jet. -/
def find? (t : Table) (jet : Jet) : Option Entry :=
  t.entries.find? (·.holds jet)

/-- The band of a jet, at its momentum. -/
def band (t : Table) (jet : Jet) : Except Halt (BandResult Float) :=
  match t.find? jet with
  | some e => bandAt e.nodes jet.pt
  | none => .ok .noMatch

/-- The momentum of a jet under a systematic variation. The band is looked up
    only if there is something to vary. -/
def shift (t : Table) (jet : Jet) (s : Systematic) : Except Halt Float :=
  if s = .nominal then .ok jet.pt
  else (t.band jet).map fun result => s.move result.band? jet.pt

end Table

end JetEnergy.Uncertainty
