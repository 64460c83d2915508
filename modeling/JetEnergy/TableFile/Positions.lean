import JetEnergy.TableFile.Scan

/-!
  Reading headings by positions.

  * `word`, `less`, `entry` and `slice` are sums, differences and accesses that
    can fail, with a `Fault` of their own.
  * `guardedHeading` and `guardedEvents` read the headings of a file through them
    alone.
-/
namespace JetEnergy.TableFile

/-! ## Guarded accesses -/

/-- Why a reading stops at an access or a sum. -/
inductive Fault where
  /-- a position past the end of a list -/
  | outside
  /-- a number that is no word -/
  | overflow
  deriving DecidableEq, Repr

section
variable {α : Type}

/-- A number, if it is a word. -/
def word (n : Nat) : Except Fault Nat :=
  if n < Decimal.indexBound then .ok n else .error .overflow

/-- A difference, if it is not negative. -/
def less (m n : Nat) : Except Fault Nat :=
  if n ≤ m then .ok (m - n) else .error .overflow

/-- The element at a position, if there is one. -/
def entry (l : List α) (i : Nat) : Except Fault α :=
  match l[i]? with
  | some a => .ok a
  | none => .error .outside

/-- The elements from position `start` on and before `stop`, if the list goes
    that far. -/
def slice (l : List α) (start stop : Nat) : Except Fault (List α) :=
  if start ≤ stop ∧ stop ≤ l.length then .ok ((l.drop start).take (stop - start))
  else .error .outside

end

/-! ## Headings -/

/-- The heading in a list of fields, by positions. The sum that the length is
    compared with is cut off at the greatest word; as no list is longer than
    that, it is an exact number here. -/
def guardedHeading (fields : List Field) : Except Fault (Option (Heading × Nat)) :=
  match declaredBins? fields, declaredDependencies? fields with
  | some bins, some dependencies =>
    if fields.length ≤ bins + dependencies + 2 then .ok none
    else do
      let binFields ← slice fields 1 (← word (1 + bins))
      let start ← word (bins + 2)
      let dependencyFields ← slice fields start (← word (start + dependencies))
      let formula ← entry fields (← word (bins + dependencies + 2))
      let decode (f : Field) := (observable? f).getD .unnamed
      return some (⟨binFields.map decode, dependencyFields.map decode, formula⟩,
        unknownCount (binFields ++ dependencyFields))
  | _, _ => .ok none

/-! ## Files -/

/-- A line in its place, and the context after it, by positions. -/
def guardedStep (context : Option Context) (n : Nat) :
    Line → Except Fault (Option Context × Event)
  | .heading fields => do
    match ← guardedHeading fields with
    | some (heading, unknown) => return (some heading.context, .heading unknown)
    | none => return (context.map (·.narrow fields), .shortHeading)
  | line => .ok (contextAfter context line, eventOf context n line)

/-- What lines are that start in a context at number `n`, by positions. -/
def guardedEventsFrom (context : Option Context) (n : Nat) : List Line → Except Fault (List Event)
  | [] => .ok []
  | line :: lines => do
    let (next, event) ← guardedStep context n line
    return event :: (← guardedEventsFrom next (n + 1) lines)

/-- What the lines of a file are, by positions. -/
def guardedEvents (text : List Char) : Except Fault (List Event) :=
  guardedEventsFrom none 1 (linesOf text)

end JetEnergy.TableFile
