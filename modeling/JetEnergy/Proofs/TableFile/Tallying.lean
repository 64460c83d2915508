import Mathlib.Data.Bool.Count
import JetEnergy.Correction.Table
import JetEnergy.Proofs.Uncertainty.Reading

/-!
  The tally of a scan.

  * `lineTally` counts the lines of a text by kind, without reading them one after
    the other, and `answersFrom` are the answers of a reader to rows.
    `scan_eq`: a scan is its reader's answers, and its tally is that of the lines
    and of the answers.
  * `Tally.Agrees`: tallies that differ in the answers only.
  * `lines_counted_once`: every line of a file is counted once, for every reader,
    and so the tallies of the two kinds of tables agree.
-/
namespace JetEnergy.TableFile

/-! ## Lines by kind -/

/-- A heading that can be decoded. -/
def Opens (line : List Char) : Prop :=
  ∃ bins dependencies, Decodes line bins dependencies

instance : DecidablePred Opens := fun line =>
  decidable_of_iff (opensHeading line ∧ ∃ bins ∈ declaredBins? (fieldsOf line),
      ∃ dependencies ∈ declaredDependencies? (fieldsOf line),
        bins + dependencies + 2 < (fieldsOf line).length)
    ⟨fun ⟨hopens, b, hb, d, hd, hlength⟩ => ⟨b, d, hopens, hb, hd, hlength⟩,
      fun ⟨b, d, hopens, hb, hd, hlength⟩ => ⟨hopens, b, hb, d, hd, hlength⟩⟩

/-- A heading with fields that cannot be decoded. -/
def IsShort (line : List Char) : Prop :=
  opensHeading line = true ∧ fieldsOf line ≠ [] ∧ ¬ Opens line

instance : DecidablePred IsShort := fun _ => inferInstanceAs (Decidable (_ ∧ _))

/-- A line with fields that is no heading. -/
def IsRow (line : List Char) : Prop :=
  opensHeading line = false ∧ fieldsOf line ≠ []

instance : DecidablePred IsRow := fun _ => inferInstanceAs (Decidable (_ ∧ _))

/-- The names of observables. -/
def knownNames : List String :=
  ["JetPt", "JetEta", "JetPhi", "JetA", "Rho"]

/-- The fields of a heading that name its bins and dependencies. -/
def namesIn (line : List Char) : List Field :=
  match declaredBins? (fieldsOf line), declaredDependencies? (fieldsOf line) with
  | some bins, some dependencies =>
    ((fieldsOf line).drop 1).take bins ++ ((fieldsOf line).drop (bins + 2)).take dependencies
  | _, _ => []

/-- The lines of a text by kind, the rows below a heading that can be decoded left
    out: what becomes of those is for a reader to say. -/
def lineTally (lines : List (List Char)) : Tally where
  lines := lines.length
  blank := lines.countP (fieldsOf · = [])
  headings := lines.countP Opens
  droppedHeadings := lines.countP IsShort
  records := 0
  droppedRows := (lines.takeWhile (¬ Opens ·)).countP IsRow
  unknown := ((lines.filter Opens).flatMap namesIn).countP (String.ofList · ∉ knownNames)

theorem ofFields?_of_decodes {line : List Char} {bins dependencies : Nat}
    (h : Decodes line bins dependencies) :
    ∃ heading, Heading.ofFields? (fieldsOf line) = some (heading, unknownCount (namesIn line)) := by
  obtain ⟨-, hbins, hdependencies, hlength⟩ := h
  rw [Heading.ofFields?, namesIn]
  simp only [hbins, hdependencies, List.getElem?_eq_getElem hlength, Option.map_some]
  exact ⟨_, rfl⟩

theorem observable?_eq_none_iff {field : Field} :
    observable? field = none ↔ String.ofList field ∉ knownNames := by
  have hnames : knownNames = Observable.named.map Observable.name := rfl
  rw [observable?, Observable.ofName?, List.find?_eq_none, hnames, List.mem_map]
  simp only [beq_iff_eq, not_exists, not_and]

theorem unknownCount_eq (fields : List Field) :
    unknownCount fields = fields.countP (String.ofList · ∉ knownNames) := by
  rw [unknownCount]
  refine List.countP_congr fun field _ => ?_
  rw [Option.isNone_iff_eq_none, observable?_eq_none_iff, decide_eq_true_eq]

/-! ## Events and answers -/

attribute [ext] Tally

section
variable (s t : Tally)

@[simp] theorem Tally.lines_add : (s + t).lines = s.lines + t.lines := rfl
@[simp] theorem Tally.blank_add : (s + t).blank = s.blank + t.blank := rfl
@[simp] theorem Tally.headings_add : (s + t).headings = s.headings + t.headings := rfl
@[simp] theorem Tally.droppedHeadings_add :
    (s + t).droppedHeadings = s.droppedHeadings + t.droppedHeadings := rfl
@[simp] theorem Tally.records_add : (s + t).records = s.records + t.records := rfl
@[simp] theorem Tally.droppedRows_add :
    (s + t).droppedRows = s.droppedRows + t.droppedRows := rfl
@[simp] theorem Tally.unknown_add : (s + t).unknown = s.unknown + t.unknown := rfl

end

/-- What an event adds to a tally, whatever a reader answers. -/
def Event.tally : Event → Tally
  | .blank => { lines := 1, blank := 1 }
  | .heading unknown => { lines := 1, headings := 1, unknown }
  | .shortHeading => { lines := 1, droppedHeadings := 1 }
  | .orphan => { lines := 1, droppedRows := 1 }
  | .row _ => { lines := 1 }

/-- What events add to a tally, whatever a reader answers. -/
def eventTally : List Event → Tally
  | [] => {}
  | e :: es => e.tally + eventTally es

/-- What answers add to a tally. -/
def answerTally (answers : List Bool) : Tally :=
  { records := answers.count true, droppedRows := answers.count false }

section
variable {σ ε : Type} (reader : σ → Row → Except ε (Option σ))

/-- Hands rows to a reader one after the other: whether it keeps each of them, and
    the state at which it ends. -/
def answersFrom : σ → List Row → Except ε (List Bool × σ)
  | state, [] => .ok ([], state)
  | state, r :: rows =>
    match reader state r with
    | .error e => .error e
    | .ok none => (answersFrom state rows).map fun p => (false :: p.1, p.2)
    | .ok (some next) => (answersFrom next rows).map fun p => (true :: p.1, p.2)

/-- A scan of events is its reader's answers to the rows among them. -/
theorem scanEvents_eq (es : List Event) (state : σ) (tally : Tally) :
    scanEvents reader state tally es = (answersFrom reader state (rowsAmong es)).map fun p =>
      (p.2, tally + (eventTally es + answerTally p.1)) := by
  induction es generalizing state tally with
  | nil => rfl
  | cons e es ih =>
    have hother : ∀ e : Event, scanEvents reader state (tally + e.tally) es =
        (answersFrom reader state (rowsAmong es)).map fun p =>
          (p.2, tally + (eventTally (e :: es) + answerTally p.1)) := by
      intro e
      rw [ih]
      simp only [eventTally, Tally.add_assoc]
    have hanswer : ∀ (state : σ) (kept : Bool) (r : Row),
        scanEvents reader state (tally.after kept (.row r)) es =
          ((answersFrom reader state (rowsAmong es)).map fun p => (kept :: p.1, p.2)).map fun p =>
            (p.2, tally + (eventTally (.row r :: es) + answerTally p.1)) := by
      intro state kept r
      have hsum : ∀ answers, tally.after kept (.row r) + (eventTally es + answerTally answers) =
          tally + (eventTally (.row r :: es) + answerTally (kept :: answers)) := by
        intro answers
        cases kept <;> ext <;> simp [Tally.after, eventTally, Event.tally, answerTally] <;> omega
      rw [ih]
      simp only [hsum]
      cases answersFrom reader state (rowsAmong es) <;> rfl
    cases e with
    | row r =>
      rw [rowsAmong_cons_row, scanEvents, answersFrom]
      cases reader state r with
      | error e => rfl
      | ok answer =>
        cases answer with
        | none => exact hanswer state false r
        | some next => exact hanswer next true r
    | blank => exact hother .blank
    | heading unknown => exact hother (.heading unknown)
    | shortHeading => exact hother .shortHeading
    | orphan => exact hother .orphan

theorem length_answersFrom {rows : List Row} {state final : σ} {answers : List Bool}
    (h : answersFrom reader state rows = .ok (answers, final)) : answers.length = rows.length := by
  fun_induction answersFrom reader state rows generalizing answers with
  | case1 => cases h; rfl
  | case2 => cases h
  | case3 _ _ _ _ ih | case4 _ _ _ _ _ ih =>
    obtain ⟨p, hp, heq⟩ := map_ok_iff.1 h
    cases heq
    exact congrArg Nat.succ (ih hp)

/-- A reader that answers every row is asked about all of them. -/
theorem exists_answersFrom (h : ∀ state r, ∃ answer, reader state r = .ok answer) (state : σ)
    (rows : List Row) : ∃ p, answersFrom reader state rows = .ok p := by
  induction rows generalizing state with
  | nil => exact ⟨_, rfl⟩
  | cons r rows ih =>
    obtain ⟨answer, hanswer⟩ := h state r
    rw [answersFrom, hanswer]
    cases answer with
    | none => exact exists_map_iff.2 (ih state)
    | some next => exact exists_map_iff.2 (ih next)

/-- A reader that puts the line of every row it keeps in front of those before
    ends with the lines of as many rows as it has kept, the last one first. -/
theorem lines_of_answersFrom {lineNumbers : σ → List Nat}
    (hkept : ∀ s r t, reader s r = .ok (some t) → lineNumbers t = r.line :: lineNumbers s)
    {rows : List Row} {state final : σ} {answers : List Bool}
    (h : answersFrom reader state rows = .ok (answers, final)) :
    ∃ kept : List Row, kept.Sublist rows ∧ kept.length = answers.count true ∧
      lineNumbers final = (kept.map Row.line).reverse ++ lineNumbers state := by
  fun_induction answersFrom reader state rows generalizing answers with
  | case1 => cases h; exact ⟨[], .slnil, rfl, rfl⟩
  | case2 => cases h
  | case3 state r rows hr ih =>
    obtain ⟨p, hp, heq⟩ := map_ok_iff.1 h
    cases heq
    obtain ⟨kept, hsub, hcount, hlines⟩ := ih hp
    exact ⟨kept, hsub.cons r, by simpa using hcount, hlines⟩
  | case4 state r rows next hr ih =>
    obtain ⟨p, hp, heq⟩ := map_ok_iff.1 h
    cases heq
    obtain ⟨kept, hsub, hcount, hlines⟩ := ih hp
    refine ⟨r :: kept, hsub.cons_cons r, by simpa using hcount, ?_⟩
    rw [hlines, hkept _ _ _ hr]
    simp

end

/-! ## The lines of a file -/

/-- The tally of the lines below a context, as `lineTally`. -/
def lineTallyIn (context : Option Context) (lines : List (List Char)) : Tally :=
  { lineTally lines with
    droppedRows := if context.isNone then (lineTally lines).droppedRows else 0 }

theorem eventTally_lines (context : Option Context) (n : Nat) (lines : List (List Char)) :
    eventTally (eventsFrom context n (lines.map Line.read)) = lineTallyIn context lines := by
  induction lines generalizing context n with
  | nil => cases context <;> rfl
  | cons l lines ih =>
    rw [List.map_cons, eventsFrom, eventTally, ih]
    by_cases hopens : Opens l
    · have hfields : fieldsOf l ≠ [] := by
        obtain ⟨_, _, -, -, -, hlength⟩ := hopens
        exact List.ne_nil_of_length_pos (Nat.zero_lt_of_lt hlength)
      have hshort : ¬ IsShort l := fun h => h.2.2 hopens
      obtain ⟨bins, dependencies, hd⟩ := id hopens
      obtain ⟨heading, hheading⟩ := ofFields?_of_decodes hd
      rw [read_heading hd.1 hfields, eventOf, contextAfter, hheading, unknownCount_eq]
      ext <;> simp [lineTallyIn, lineTally, Event.tally, hopens, hfields, hshort] <;> omega
    by_cases hblank : fieldsOf l = []
    · have hshort : ¬ IsShort l := fun h => h.2.1 hblank
      have hrow : ¬ IsRow l := fun h => h.2 hblank
      rw [read_blank hblank]
      ext <;> simp [lineTallyIn, lineTally, eventOf, contextAfter, Event.tally, hopens, hblank,
        hshort, hrow] <;> omega
    cases hbrace : opensHeading l with
    | true =>
      have hshort : IsShort l := ⟨hbrace, hblank, hopens⟩
      have hrow : ¬ IsRow l := by simp [IsRow, hbrace]
      have hnone := ofFields?_eq_none hbrace fun b d hd => hopens ⟨b, d, hd⟩
      rw [read_heading hbrace hblank, eventOf, contextAfter, hnone]
      ext <;> simp [lineTallyIn, lineTally, Event.tally, hopens, hblank, hshort, hrow] <;> omega
    | false =>
      have hshort : ¬ IsShort l := by simp [IsShort, hbrace]
      have hrow : IsRow l := ⟨hbrace, hblank⟩
      rw [read_eq_row_iff.2 ⟨hbrace, rfl, hblank⟩]
      cases context <;> ext <;> simp [lineTallyIn, lineTally, eventOf, contextAfter, Event.tally,
        hopens, hblank, hshort, hrow] <;> omega

/-- Every event is of one kind. -/
theorem lines_eventTally (es : List Event) :
    (eventTally es).lines = (eventTally es).blank + (eventTally es).headings +
      (eventTally es).droppedHeadings + (eventTally es).droppedRows + (rowsAmong es).length := by
  induction es with
  | nil => rfl
  | cons e es ih =>
    cases e with
    | row r =>
      simp only [eventTally, Event.tally, Tally.lines_add, Tally.blank_add, Tally.headings_add,
        Tally.droppedHeadings_add, Tally.droppedRows_add, ih, rowsAmong_cons_row, List.length_cons]
      omega
    | _ =>
      simp only [eventTally, Event.tally, Tally.lines_add, Tally.blank_add, Tally.headings_add,
        Tally.droppedHeadings_add, Tally.droppedRows_add, ih, rowsAmong, List.filterMap_cons]
      omega

/-- The events of a text have the tally of its lines. -/
theorem eventTally_events (text : List Char) :
    eventTally (events text) = lineTally (Text.lines text) :=
  eventTally_lines none 1 (Text.lines text)

/-- **A scan is its reader's answers**, and its tally is that of the lines of the
    text and of the answers. -/
theorem scan_eq {σ ε : Type} (reader : σ → Row → Except ε (Option σ)) (start : σ)
    (text : List Char) :
    scan reader start text = (answersFrom reader start (rowsAmong (events text))).map fun p =>
      (p.2, lineTally (Text.lines text) + answerTally p.1) := by
  rw [scan, scanEvents_eq, eventTally_events]
  simp only [Tally.empty_add]

theorem exists_answers_of_scan {σ ε : Type} {reader : σ → Row → Except ε (Option σ)}
    {start final : σ} {text : List Char} {tally : Tally}
    (h : scan reader start text = .ok (final, tally)) :
    ∃ answers, answersFrom reader start (rowsAmong (events text)) = .ok (answers, final) ∧
      tally = lineTally (Text.lines text) + answerTally answers := by
  rw [scan_eq] at h
  obtain ⟨⟨answers, final'⟩, hanswers, heq⟩ := map_ok_iff.1 h
  cases heq
  exact ⟨answers, hanswers, rfl⟩

/-! ## Tallies of one text -/

/-- Tallies that differ at most in how many of the rows were kept. -/
structure Tally.Agrees (s t : Tally) : Prop where
  lines : s.lines = t.lines
  blank : s.blank = t.blank
  headings : s.headings = t.headings
  droppedHeadings : s.droppedHeadings = t.droppedHeadings
  rows : s.records + s.droppedRows = t.records + t.droppedRows
  unknown : s.unknown = t.unknown

section
variable {σ ε : Type} {reader : σ → Row → Except ε (Option σ)} {start final : σ}
  {text : List Char} {tally : Tally} (h : scan reader start text = .ok (final, tally))
include h

/-- The tally of a scan is known from the number of its records. -/
theorem tally_of_scan : tally.records ≤ (rowsAmong (events text)).length ∧
    tally = lineTally (Text.lines text) +
      { records := tally.records
        droppedRows := (rowsAmong (events text)).length - tally.records } := by
  obtain ⟨answers, hanswers, heq⟩ := exists_answers_of_scan h
  have hcount := List.count_true_add_count_false answers
  rw [length_answersFrom reader hanswers] at hcount
  have hrecords : tally.records = answers.count true := by rw [heq]; exact Nat.zero_add _
  rw [hrecords, ← hcount, Nat.add_sub_cancel_left]
  exact ⟨Nat.le_add_right .., heq⟩

/-- The rows of a scan are those below a heading that can be decoded, and those
    above it. -/
theorem rows_of_scan : tally.records + tally.droppedRows =
    (rowsAmong (events text)).length + (lineTally (Text.lines text)).droppedRows := by
  obtain ⟨hle, heq⟩ := tally_of_scan h
  have hdropped := congrArg Tally.droppedRows heq
  rw [Tally.droppedRows_add] at hdropped
  dsimp only at hdropped
  omega

theorem lines_of_scan : tally.lines = (Text.lines text).length ∧
    tally.lines = tally.blank + tally.headings + tally.droppedHeadings + tally.records +
      tally.droppedRows := by
  have hrows := rows_of_scan h
  have htotal := lines_eventTally (events text)
  rw [eventTally_events] at htotal
  obtain ⟨answers, -, rfl⟩ := exists_answers_of_scan h
  refine ⟨rfl, ?_⟩
  simp only [Tally.lines_add, Tally.blank_add, Tally.headings_add, Tally.droppedHeadings_add,
    answerTally] at hrows ⊢
  omega

theorem agrees_of_scan {σ' ε' : Type} {reader' : σ' → Row → Except ε' (Option σ')}
    {start' final' : σ'} {tally' : Tally} (h' : scan reader' start' text = .ok (final', tally')) :
    tally.Agrees tally' := by
  have hrows := (rows_of_scan h).trans (rows_of_scan h').symm
  obtain ⟨answers, -, rfl⟩ := exists_answers_of_scan h
  obtain ⟨answers', -, rfl⟩ := exists_answers_of_scan h'
  exact ⟨rfl, rfl, rfl, rfl, hrows, rfl⟩

/-- A reader that puts the line of every row it keeps in front of those before
    ends with as many as the tally says, and they ascend towards the front. -/
theorem kept_of_scan (lineNumbers : σ → List Nat) (hstart : lineNumbers start = [])
    (hkept : ∀ s r t, reader s r = .ok (some t) → lineNumbers t = r.line :: lineNumbers s) :
    (lineNumbers final).length = tally.records ∧
      (lineNumbers final).reverse.Pairwise (· < ·) := by
  obtain ⟨answers, hanswers, rfl⟩ := exists_answers_of_scan h
  obtain ⟨kept, hsub, hcount, hlines⟩ := lines_of_answersFrom reader hkept hanswers
  rw [hlines, hstart, List.append_nil, List.length_reverse, List.length_map, hcount,
    List.reverse_reverse, List.pairwise_map]
  exact ⟨(Nat.zero_add _).symm, (rowsAmong_pairwise _ none 1).sublist hsub⟩

end

/-! ## Tables -/

theorem scan_of_correction_parse {source : String} {text : List Char} {t : Correction.Table}
    (h : Correction.Table.parse source text = .ok t) :
    ∃ s, scan (Correction.Reading.row source) {} text = .ok (s, t.tally) ∧
      t.entries = s.entries.reverse := by
  rw [Correction.Table.parse] at h
  cases hscan : scan (Correction.Reading.row source) {} text with
  | error e => rw [hscan] at h; cases h
  | ok found => rw [hscan] at h; cases h; exact ⟨found.1, rfl, rfl⟩

theorem scan_of_uncertainty_parse {source : String} {text : List Char} {t : Uncertainty.Table}
    (h : Uncertainty.Table.parse source text = .ok t) :
    ∃ s, scan Uncertainty.readRow [] text = .ok (s, t.tally) ∧ t.entries = s.reverse := by
  rw [Uncertainty.Table.parse] at h
  cases hscan : scan Uncertainty.readRow [] text with
  | error e => rw [hscan] at h; cases h
  | ok found => rw [hscan] at h; cases h; exact ⟨found.1, rfl, rfl⟩

theorem lines_of_correction_parse {source : String} {text : List Char} {t : Correction.Table}
    (h : Correction.Table.parse source text = .ok t) :
    t.entries.length = t.tally.records ∧ t.entries.Pairwise (·.line < ·.line) := by
  obtain ⟨s, hscan, hentries⟩ := scan_of_correction_parse h
  have hkept : ∀ (s : Correction.Reading) r s', Correction.Reading.row source s r = .ok (some s') →
      s'.entries.map (·.line) = r.line :: s.entries.map (·.line) := by
    intro s r s' hrow
    rw [Correction.Reading.row] at hrow
    split at hrow
    · cases hrow
    · cases hrow
    · dsimp only at hrow
      split at hrow
      · cases hrow
      · cases hrow; rfl
  have hlines := kept_of_scan hscan (fun s => s.entries.map (·.line)) rfl hkept
  rw [hentries, List.length_reverse]
  simpa [← List.map_reverse, List.pairwise_map] using hlines

theorem lines_of_uncertainty_parse {source : String} {text : List Char} {t : Uncertainty.Table}
    (h : Uncertainty.Table.parse source text = .ok t) :
    t.entries.length = t.tally.records ∧ t.entries.Pairwise (·.line < ·.line) := by
  obtain ⟨s, hscan, hentries⟩ := scan_of_uncertainty_parse h
  have hkept : ∀ (s : List Uncertainty.Entry) r s', Uncertainty.readRow s r = .ok (some s') →
      s'.map (·.line) = r.line :: s.map (·.line) := by
    intro s r s' hrow
    obtain ⟨e, he, rfl⟩ := Uncertainty.readRow_ok_some_iff.1 hrow
    rw [Uncertainty.Entry.ofRow?] at he
    split at he
    · cases he
    · split at he
      · cases he
      · cases he; rfl
  have hlines := kept_of_scan hscan (fun s => s.map (·.line)) rfl hkept
  rw [hentries, List.length_reverse]
  simpa [← List.map_reverse, List.pairwise_map] using hlines

/-- **Every line of a file is counted once.**  A scan gives what its reader answers
    to the rows of the file, and returns if the reader does. Its tally counts the
    lines by kind: the rows above the first heading that can be decoded are
    dropped, those below it are records or dropped as the reader answers, and
    headings that can be decoded say how many of their names are not known. The
    numbers add up to that of the lines, and only how the rows are split between
    records and dropped ones depends on the reader. So the tables of corrections
    and of uncertainties that are read from one text have tallies that agree, and
    each has as many entries as its tally has records, in the order of the
    lines. -/
theorem lines_counted_once :
    (∀ (text : List Char) (σ ε : Type) (reader : σ → Row → Except ε (Option σ)) (start : σ),
      (scan reader start text = (answersFrom reader start (rowsAmong (events text))).map fun p =>
        (p.2, lineTally (Text.lines text) + answerTally p.1)) ∧
      ((∀ state r, ∃ answer, reader state r = .ok answer) →
        ∃ result, scan reader start text = .ok result) ∧
      ∀ final tally, scan reader start text = .ok (final, tally) →
        (tally.lines = (Text.lines text).length ∧
          tally.lines = tally.blank + tally.headings + tally.droppedHeadings + tally.records +
            tally.droppedRows) ∧
        ∀ (σ' ε' : Type) (reader' : σ' → Row → Except ε' (Option σ')) (start' final' : σ')
          (tally' : Tally), scan reader' start' text = .ok (final', tally') →
            tally.Agrees tally') ∧
    (∀ source text t, Correction.Table.parse source text = .ok t →
      t.entries.length = t.tally.records ∧ t.entries.Pairwise (·.line < ·.line)) ∧
    (∀ source text t, Uncertainty.Table.parse source text = .ok t →
      t.entries.length = t.tally.records ∧ t.entries.Pairwise (·.line < ·.line)) ∧
    ∀ source source' text t t', Correction.Table.parse source text = .ok t →
      Uncertainty.Table.parse source' text = .ok t' → t.tally.Agrees t'.tally := by
  refine ⟨fun text σ ε reader start => ⟨scan_eq reader start text, fun h => ?_,
      fun final tally h => ⟨lines_of_scan h, fun _ _ _ _ _ _ h' => agrees_of_scan h h'⟩⟩,
    fun _ _ _ h => lines_of_correction_parse h, fun _ _ _ h => lines_of_uncertainty_parse h,
    fun _ _ _ t t' h h' => ?_⟩
  · rw [scan_eq]
    exact exists_map_iff.2 (exists_answersFrom reader h start _)
  · obtain ⟨s, hscan, -⟩ := scan_of_correction_parse h
    obtain ⟨s', hscan', -⟩ := scan_of_uncertainty_parse h'
    exact agrees_of_scan hscan hscan'

/-- A row above its heading, a blank line, a short heading that keeps the context,
    an unknown name, and two rows of which the reader drops the shorter one. -/
theorem lines_counted_once_of_all_kinds : ∃ tally,
    scan (σ := Nat) (ε := Unit)
      (fun n r => .ok (if r.fields.length < 3 then none else some (n + 1))) 0
      "7 7\n\n\x7b1 JetEta 1 Charge x\x7d\n1 2 3\n\x7b9\x7d\n4 5\n".toList = .ok (1, tally) ∧
    tally = { lines := 6, blank := 1, headings := 1, droppedHeadings := 1, records := 1,
              droppedRows := 2, unknown := 1 } ∧
    tally.lines = tally.blank + tally.headings + tally.droppedHeadings + tally.records +
      tally.droppedRows := by
  obtain ⟨-, -, hcounted⟩ := lines_counted_once.1
    "7 7\n\n\x7b1 JetEta 1 Charge x\x7d\n1 2 3\n\x7b9\x7d\n4 5\n".toList Nat Unit
    (fun n r => .ok (if r.fields.length < 3 then none else some (n + 1))) 0
  have hscan : scan (σ := Nat) (ε := Unit)
      (fun n r => .ok (if r.fields.length < 3 then none else some (n + 1))) 0
      "7 7\n\n\x7b1 JetEta 1 Charge x\x7d\n1 2 3\n\x7b9\x7d\n4 5\n".toList = .ok (1,
        { lines := 6, blank := 1, headings := 1, droppedHeadings := 1, records := 1,
          droppedRows := 2, unknown := 1 }) := by
    with_unfolding_all rfl
  exact ⟨_, hscan, rfl, (hcounted _ _ hscan).1.2⟩

end JetEnergy.TableFile
