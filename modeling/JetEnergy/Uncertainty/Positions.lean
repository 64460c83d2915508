import JetEnergy.TableFile.Positions
import JetEnergy.Uncertainty.Table

/-!
  Uncertainty files by positions.

  * `guardedEntry` decodes a row through guarded accesses only, and
    `guardedEntries` the rows of a file.
  * `guardedBandAt` finds the band of some nodes through them.
-/
namespace JetEnergy.Uncertainty

open TableFile

/-! ## Rows -/

/-- The window of the bin number `i`, by positions. -/
def guardedWindow (fields : List Field) (o : Observable) (i : Nat) : Except Fault Window :=
  return Window.ofBounds o (Decimal.leadingFloat (← entry fields (2 * i)))
    (Decimal.leadingFloat (← entry fields (2 * i + 1)))

/-- A list cut into lists of three; what is left over at the end is left out. -/
def triples {α : Type} : List α → List (List α)
  | a :: b :: c :: rest => [a, b, c] :: triples rest
  | _ => []

/-- The node in three fields, by positions. -/
def guardedNode (fields : List Field) : Except Fault (Node Float) := do
  let pt := Decimal.leadingFloat (← entry fields 0)
  let low := Decimal.leadingFloat (← entry fields 1)
  let high := Decimal.leadingFloat (← entry fields 2)
  return { pt, low, high }

/-- The entry of a row, by positions. -/
def guardedEntry (r : Row) : Except Fault (Option Entry) := do
  let bins := r.context.binCount
  let least ← word (2 * bins + 1)
  if r.fields.length < least then return none
  else
    let windows ← r.context.bins.zipIdx.mapM fun (o, i) => guardedWindow r.fields o i
    let declared := (Decimal.leadingInt (← entry r.fields (2 * bins))).toNat
    let available ← less (← less r.fields.length (2 * bins)) 1
    let values ← slice r.fields least (← word (least + min declared available))
    return some ⟨windows, ← (triples values).mapM guardedNode, r.line⟩

/-- The entries of a file, by positions. -/
def guardedEntries (text : List Char) : Except Fault (List Entry) := do
  let rows := rowsAmong (← guardedEvents text)
  return (← rows.mapM guardedEntry).filterMap id

/-! ## Bands -/

section
variable {α : Type} [LT α] [LE α] [DecidableLT α] [DecidableLE α]

/-- Whether the segment from the node number `i` on holds a momentum, by
    positions. -/
def guardedHolds (pts : List α) (pt : α) (i : Nat) : Except Fault Bool := do
  if (← entry pts i) ≤ pt then return pt < (← entry pts (i + 1))
  else return false

variable [Add α] [Sub α] [Mul α] [Div α]

/-- The band of some nodes at a momentum, by positions. Without a segment that
    holds the momentum, the search ends at the first one. -/
def guardedBandAt (nodes : List (Node α)) (pt : α) : Except Fault (BandResult α) := do
  let pts := nodes.map (·.pt)
  let lows := nodes.map (·.low)
  let highs := nodes.map (·.high)
  if pts.length = 0 then return .noNodes
  else if pt < (← entry pts 0) then return .band ⟨← entry lows 0, ← entry highs 0⟩
  else
    let last ← less pts.length 1
    if (← entry pts last) ≤ pt then return .band ⟨← entry lows last, ← entry highs last⟩
    else
      let i := (← (List.range last).findM? (guardedHolds pts pt)).getD 0
      let a ← entry pts i
      let b ← entry pts (i + 1)
      return .band ⟨lineAt pt a (← entry lows i) b (← entry lows (i + 1)),
        lineAt pt a (← entry highs i) b (← entry highs (i + 1))⟩

end

/-- The band of a jet, by positions. -/
def Table.guardedBand (t : Table) (jet : Jet) : Except Fault (BandResult Float) :=
  match t.find? jet with
  | some e => guardedBandAt e.nodes jet.pt
  | none => .ok .noMatch

end JetEnergy.Uncertainty
