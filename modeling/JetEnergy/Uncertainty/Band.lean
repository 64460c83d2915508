import JetEnergy.Outcome

/-!
  Uncertainty bands over the momentum.

  A band is given by nodes: a momentum with a lower and an upper relative
  uncertainty. Between two nodes it is a straight line, before the first and
  after the last one it is constant.

  * `bandAt` is the band at a momentum. The nodes may be in any order; of
    several segments that hold the momentum the first one counts, and if none
    does, the first of all.
  * Everything is over an arbitrary kind of number: doubles when the program
    runs, exact ones when it is reasoned about.
-/
namespace JetEnergy.Uncertainty

/-- The lower and the upper relative uncertainty. -/
structure Band (α : Type) where
  low : α
  high : α
  deriving DecidableEq, Repr

/-- The band at one momentum. -/
structure Node (α : Type) extends Band α where
  pt : α
  deriving DecidableEq, Repr

/-- What a search for a band gives. -/
inductive BandResult (α : Type) where
  | band (b : Band α)
  /-- no bin contains the jet -/
  | noMatch
  /-- the bin of the jet has no nodes -/
  | noNodes
  deriving DecidableEq, Repr

/-- The band of a search that found one. -/
def BandResult.band? {α : Type} : BandResult α → Option (Band α)
  | band b => some b
  | _ => none

section
variable {α : Type}

/-- The pairs of neighbouring nodes. -/
def segments (nodes : List (Node α)) : List (Node α × Node α) :=
  nodes.zip nodes.tail

variable [LT α] [LE α] [DecidableLT α] [DecidableLE α]

/-- Whether a segment holds a momentum, its upper end excluded. -/
def inSegment (pt : α) (s : Node α × Node α) : Bool :=
  s.1.pt ≤ pt && pt < s.2.pt

/-- The first segment that holds a momentum; if there is none, the first
    segment. -/
def segment? (nodes : List (Node α)) (pt : α) : Option (Node α × Node α) :=
  ((segments nodes).find? (inSegment pt)).or (segments nodes).head?

variable [Add α] [Sub α] [Mul α] [Div α]

/-- The value at `pt` of the straight line through two points. -/
def lineAt (pt a aValue b bValue : α) : α :=
  aValue + (bValue - aValue) / (b - a) * (pt - a)

/-- The band at a momentum on a segment. -/
def onSegment (pt : α) (s : Node α × Node α) : Band α :=
  ⟨lineAt pt s.1.pt s.1.low s.2.pt s.2.low, lineAt pt s.1.pt s.1.high s.2.pt s.2.high⟩

/-- The band of some nodes at a momentum. -/
def bandAt (nodes : List (Node α)) (pt : α) : Except Halt (BandResult α) :=
  match nodes.head?, nodes.getLast? with
  | some first, some last =>
    if pt < first.pt then .ok (.band first.toBand)
    else if last.pt ≤ pt then .ok (.band last.toBand)
    else match segment? nodes pt with
      | some s => .ok (.band (onSegment pt s))
      | none => .error .missingNode
  | _, _ => .ok .noNodes

end

end JetEnergy.Uncertainty
