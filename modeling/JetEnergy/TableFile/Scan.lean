import JetEnergy.TableFile.Heading

/-!
  Reading a file line by line.

  * `events` says for every line of a file what it is in its place: the context
    for a row is that of the headings above it.
  * `scan` hands the rows to a reader one after the other and keeps a `Tally`
    of the lines. The reader accepts a row, drops it, or ends the reading.
-/
namespace JetEnergy.TableFile

/-- A row in its place. -/
structure Row where
  /-- the number of its line, from 1 on -/
  line : Nat
  context : Context
  fields : List Field
  deriving DecidableEq, Repr

/-- What a line is in its place. -/
inductive Event where
  | blank
  /-- a heading, with the number of observables it does not know -/
  | heading (unknown : Nat)
  | shortHeading
  /-- a row above the first heading -/
  | orphan
  | row (r : Row)
  deriving DecidableEq, Repr

/-- The context after a line. -/
def contextAfter (context : Option Context) : Line → Option Context
  | .heading fields =>
    match Heading.ofFields? fields with
    | some (heading, _) => some heading.context
    | none => context.map (·.narrow fields)
  | _ => context

/-- What line number `n` is in a context. -/
def eventOf (context : Option Context) (n : Nat) : Line → Event
  | .blank => .blank
  | .heading fields =>
    match Heading.ofFields? fields with
    | some (_, unknown) => .heading unknown
    | none => .shortHeading
  | .row fields =>
    match context with
    | some context => .row ⟨n, context, fields⟩
    | none => .orphan

/-- What lines are that start in a context at number `n`. -/
def eventsFrom (context : Option Context) (n : Nat) : List Line → List Event
  | [] => []
  | line :: lines => eventOf context n line :: eventsFrom (contextAfter context line) (n + 1) lines

/-- What the lines of a file are. -/
def events (text : List Char) : List Event :=
  eventsFrom none 1 (linesOf text)

/-- The rows among events. -/
def rowsAmong (es : List Event) : List Row :=
  es.filterMap fun
    | .row r => some r
    | _ => none

/-! ## The tally -/

/-- How many lines of each kind a reading has met. -/
structure Tally where
  lines : Nat := 0
  blank : Nat := 0
  headings : Nat := 0
  droppedHeadings : Nat := 0
  records : Nat := 0
  droppedRows : Nat := 0
  /-- observables in headings that are not known -/
  unknown : Nat := 0
  deriving DecidableEq, Repr

/-- The lines that were neither used nor blank. -/
def Tally.dropped (t : Tally) : Nat :=
  t.droppedHeadings + t.droppedRows

/-- The tally after an event; `kept` says whether a row was accepted. -/
def Tally.after (t : Tally) (kept : Bool) : Event → Tally
  | .blank => { t with lines := t.lines + 1, blank := t.blank + 1 }
  | .heading unknown =>
    { t with lines := t.lines + 1, headings := t.headings + 1, unknown := t.unknown + unknown }
  | .shortHeading =>
    { t with lines := t.lines + 1, droppedHeadings := t.droppedHeadings + 1 }
  | .orphan => { t with lines := t.lines + 1, droppedRows := t.droppedRows + 1 }
  | .row _ =>
    if kept then { t with lines := t.lines + 1, records := t.records + 1 }
    else { t with lines := t.lines + 1, droppedRows := t.droppedRows + 1 }

/-! ## Scanning -/

section
variable {σ ε : Type}

/-- Hands the rows among events to a reader. From a state and a row it gives
    the next state, `none` to drop the row, or an error to end the reading. -/
def scanEvents (reader : σ → Row → Except ε (Option σ)) :
    σ → Tally → List Event → Except ε (σ × Tally)
  | state, tally, [] => .ok (state, tally)
  | state, tally, .row r :: es =>
    match reader state r with
    | .error e => .error e
    | .ok none => scanEvents reader state (tally.after false (.row r)) es
    | .ok (some state) => scanEvents reader state (tally.after true (.row r)) es
  | state, tally, e :: es => scanEvents reader state (tally.after false e) es

/-- Hands the rows of a file to a reader. -/
def scan (reader : σ → Row → Except ε (Option σ)) (start : σ) (text : List Char) :
    Except ε (σ × Tally) :=
  scanEvents reader start {} (events text)

end

end JetEnergy.TableFile
