import JetEnergy.Proofs.Text.Splitting
import JetEnergy.Proofs.TableFile.Scanning

/-!
  Texts that are put together, and their lines.

  * `events_append`: the lines of a text that follows another one stand in the
    context at which the first text ends.
  * `events_append_of_opens`: a text that opens with a heading of its own
    forgets that context; its lines only stand further down.
  * `scanEvents_append`, `scanEvents_keeps`: what this means for a scan.
  * A `Tally` is a sum over the lines.
-/
namespace JetEnergy.TableFile

/-! ## Events -/

theorem linesOf_append {a : List Char} (h : Text.Terminated a) (b : List Char) :
    linesOf (a ++ b) = linesOf a ++ linesOf b := by
  rw [linesOf, Text.lines_append h, List.map_append]
  rfl

theorem length_linesOf (a : List Char) : (linesOf a).length = (Text.lines a).length :=
  List.length_map ..

theorem eventsFrom_append (context : Option Context) (n : Nat) (xs ys : List Line) :
    eventsFrom context n (xs ++ ys) =
      eventsFrom context n xs ++ eventsFrom (xs.foldl contextAfter context) (n + xs.length) ys := by
  induction xs generalizing context n with
  | nil => rfl
  | cons x xs ih =>
    rw [List.cons_append, eventsFrom, eventsFrom, ih, List.foldl_cons, List.length_cons,
      Nat.add_right_comm n 1, Nat.add_assoc n]
    rfl

/-- The lines of the second text stand below those of the first one, in the
    context at which these end. -/
theorem events_append {a : List Char} (h : Text.Terminated a) (b : List Char) :
    events (a ++ b) = events a ++
      eventsFrom ((linesOf a).foldl contextAfter none) (1 + (Text.lines a).length) (linesOf b) := by
  rw [events, linesOf_append h, eventsFrom_append, length_linesOf]
  rfl

/-! ## Events further down -/

/-- A row `n` lines further down. -/
def Row.below (n : Nat) (r : Row) : Row :=
  { r with line := r.line + n }

/-- An event `n` lines further down. -/
def Event.below (n : Nat) : Event → Event
  | .row r => .row (r.below n)
  | e => e

theorem eventOf_below (n : Nat) (context : Option Context) (m : Nat) (line : Line) :
    eventOf context (m + n) line = (eventOf context m line).below n := by
  cases line with
  | blank => rfl
  | heading fields => simp only [eventOf]; cases Heading.ofFields? fields <;> rfl
  | row fields => cases context <;> rfl

theorem eventsFrom_below (n : Nat) (context : Option Context) (m : Nat) (lines : List Line) :
    eventsFrom context (m + n) lines = (eventsFrom context m lines).map (Event.below n) := by
  induction lines generalizing context m with
  | nil => rfl
  | cons line lines ih =>
    rw [eventsFrom, eventsFrom, List.map_cons, eventOf_below, Nat.add_right_comm m n, ih]

theorem rowsAmong_below (n : Nat) (es : List Event) :
    rowsAmong (es.map (Event.below n)) = (rowsAmong es).map (Row.below n) := by
  induction es with
  | nil => rfl
  | cons e es ih =>
    cases e with
    | row r => exact congrArg (r.below n :: ·) ih
    | _ => exact ih

/-! ## Texts with a heading of their own -/

/-- A text whose first line with fields is a heading that is long enough. -/
def OpensWithHeading (text : List Char) : Prop :=
  ∃ above line below bins dependencies, Text.lines text = above ++ line :: below ∧
    (∀ l ∈ above, fieldsOf l = []) ∧ Decodes line bins dependencies

theorem read_blank {line : List Char} (h : fieldsOf line = []) : Line.read line = .blank := by
  unfold Line.read; rw [h]

theorem read_of_decodes {line : List Char} {bins dependencies : Nat}
    (h : Decodes line bins dependencies) :
    ∃ fields found, Line.read line = .heading fields ∧ Heading.ofFields? fields = some found := by
  obtain ⟨hopens, hbins, hdependencies, hlength⟩ := h
  have hne : fieldsOf line ≠ [] := List.ne_nil_of_length_pos (Nat.zero_lt_of_lt hlength)
  have hsome : (Heading.ofFields? (fieldsOf line)).isSome := by
    simp [Heading.ofFields?, hbins, hdependencies, List.getElem?_eq_getElem hlength]
  obtain ⟨found, hfound⟩ := Option.isSome_iff_exists.1 hsome
  exact ⟨_, found, read_heading hopens hne, hfound⟩

/-- Blank lines, and a heading that is long enough below them, are the same in
    every context, and so is what follows. -/
theorem eventsFrom_of_opens {above below : List (List Char)} {line : List Char}
    {bins dependencies : Nat} (habove : ∀ l ∈ above, fieldsOf l = [])
    (hline : Decodes line bins dependencies) (context context' : Option Context) (n : Nat) :
    eventsFrom context n ((above ++ line :: below).map Line.read) =
      eventsFrom context' n ((above ++ line :: below).map Line.read) := by
  induction above generalizing n with
  | nil =>
    obtain ⟨fields, found, hread, hfound⟩ := read_of_decodes hline
    simp only [List.nil_append, List.map_cons, hread, eventsFrom, eventOf, contextAfter, hfound]
  | cons l above ih =>
    obtain ⟨hl, habove⟩ := List.forall_mem_cons.1 habove
    rw [List.cons_append, List.map_cons, eventsFrom, eventsFrom, read_blank hl]
    exact congrArg (Event.blank :: ·) (ih habove (n + 1))

/-- **Texts put together.**  A text with a heading of its own has the same lines
    below another text as alone, each as much further down. -/
theorem events_append_of_opens {a b : List Char} (ha : Text.Terminated a)
    (hb : OpensWithHeading b) :
    events (a ++ b) = events a ++ (events b).map (Event.below (Text.lines a).length) := by
  obtain ⟨above, line, below, bins, dependencies, hlines, habove, hline⟩ := hb
  rw [events_append ha, show events b = eventsFrom none 1 (linesOf b) from rfl,
    ← eventsFrom_below, show linesOf b = (Text.lines b).map Line.read from rfl, hlines]
  congr 1
  exact eventsFrom_of_opens habove hline _ none _

/-! ## Scans -/

section
variable {σ ε : Type} (reader : σ → Row → Except ε (Option σ))

theorem scanEvents_append (xs ys : List Event) (state : σ) (tally : Tally) :
    scanEvents reader state tally (xs ++ ys) =
      (scanEvents reader state tally xs).bind fun p => scanEvents reader p.1 p.2 ys := by
  induction xs generalizing state tally with
  | nil => rfl
  | cons x xs ih =>
    cases x with
    | row r =>
      rw [List.cons_append, scanEvents, scanEvents]
      cases reader state r with
      | error err => rfl
      | ok answer =>
        cases answer with
        | none => exact ih state _
        | some next => exact ih next _
    | _ => exact ih state _

/-- What every accepted row keeps holds after a scan. -/
theorem scanEvents_keeps {P : σ → Prop}
    (hstep : ∀ s r s', P s → reader s r = .ok (some s') → P s') {es : List Event} {state : σ}
    {tally : Tally} {result : σ × Tally} (hstate : P state)
    (h : scanEvents reader state tally es = .ok result) : P result.1 := by
  induction es generalizing state tally with
  | nil => cases h; exact hstate
  | cons e es ih =>
    cases e with
    | row r =>
      rw [scanEvents] at h
      cases hr : reader state r with
      | error err => rw [hr] at h; cases h
      | ok answer =>
        rw [hr] at h
        cases answer with
        | none => exact ih hstate h
        | some next => exact ih (hstep state r next hstate hr) h
    | _ => exact ih hstate h

end

/-! ## Tallies -/

namespace Tally

instance : Add Tally where
  add s t := {
    lines := s.lines + t.lines
    blank := s.blank + t.blank
    headings := s.headings + t.headings
    droppedHeadings := s.droppedHeadings + t.droppedHeadings
    records := s.records + t.records
    droppedRows := s.droppedRows + t.droppedRows
    unknown := s.unknown + t.unknown }

theorem add_after (s t : Tally) (kept : Bool) (e : Event) :
    (s + t).after kept e = s + t.after kept e := by
  cases e with
  | row r => cases kept <;> rfl
  | heading unknown =>
    exact (Tally.mk.injEq ..).mpr ⟨rfl, rfl, rfl, rfl, rfl, rfl, Nat.add_assoc ..⟩
  | _ => rfl

theorem add_empty (s : Tally) : s + {} = s := rfl

theorem empty_add (s : Tally) : {} + s = s :=
  (Tally.mk.injEq ..).mpr ⟨Nat.zero_add _, Nat.zero_add _, Nat.zero_add _, Nat.zero_add _,
    Nat.zero_add _, Nat.zero_add _, Nat.zero_add _⟩

theorem add_assoc (s t u : Tally) : s + t + u = s + (t + u) :=
  (Tally.mk.injEq ..).mpr ⟨Nat.add_assoc .., Nat.add_assoc .., Nat.add_assoc .., Nat.add_assoc ..,
    Nat.add_assoc .., Nat.add_assoc .., Nat.add_assoc ..⟩

theorem foldl_after (kept : Event → Bool) (es : List Event) (s t : Tally) :
    es.foldl (fun t e => t.after (kept e) e) (s + t) =
      s + es.foldl (fun t e => t.after (kept e) e) t := by
  induction es generalizing t with
  | nil => rfl
  | cons e es ih => rw [List.foldl_cons, List.foldl_cons, add_after, ih]

end Tally

end JetEnergy.TableFile
