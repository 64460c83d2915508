import JetEnergy.Proofs.TableFile.Scanning
import JetEnergy.Proofs.Text.Splitting
import JetEnergy.TableFile.Positions

/-!
  Reading headings by positions.

  * `guardedHeading_eq`: no access to the fields of a heading fails if its numbers
    fit in a word.
  * `contextsOf` are the contexts that the lines of a file go through.
  * `guardedEvents_eq`: if the numbers of every heading fit in a word, no access
    fails, and the events are those of the file.  `guardedEvents_of_length`: it is
    enough that the positions in the text are words.
-/
namespace JetEnergy.TableFile

/-! ## Guarded accesses -/

section
variable {α : Type}

theorem word_eq {n : Nat} (h : n < Decimal.indexBound) : word n = .ok n :=
  if_pos h

theorem less_eq {m n : Nat} (h : n ≤ m) : less m n = .ok (m - n) :=
  if_pos h

theorem entry_eq {l : List α} {i : Nat} (h : i < l.length) : entry l i = .ok l[i] := by
  rw [entry, List.getElem?_eq_getElem h]

theorem entry_eq_error {l : List α} {i : Nat} (h : l.length ≤ i) :
    entry l i = .error .outside := by
  rw [entry, List.getElem?_eq_none h]

theorem entry_map {β : Type} (f : α → β) (l : List α) (i : Nat) :
    entry (l.map f) i = (entry l i).map f := by
  rw [entry, entry, List.getElem?_map]
  cases l[i]? <;> rfl

theorem slice_eq {l : List α} {start count : Nat} (h : start + count ≤ l.length) :
    slice l start (start + count) = .ok ((l.drop start).take count) := by
  rw [slice, if_pos ⟨Nat.le_add_right .., h⟩, Nat.add_sub_cancel_left]

theorem slice_from_start {l : List α} {count : Nat} (h : count ≤ l.length) :
    slice l 0 count = .ok (l.take count) := by
  rw [slice, if_pos ⟨Nat.zero_le _, h⟩, List.drop_zero, Nat.sub_zero]

theorem slice_to_end {l : List α} {start : Nat} (h : start ≤ l.length) :
    slice l start l.length = .ok (l.drop start) := by
  rw [slice, if_pos ⟨h, Nat.le_refl _⟩, ← List.length_drop, List.take_length]

end

/-! ## Headings -/

/-- Whether the numbers of bins and dependencies of a context fit in a word, with
    room for the positions of a heading. -/
def Context.Fits (c : Context) : Prop :=
  c.binCount + c.dependencyCount + 2 < Decimal.indexBound

theorem guardedHeading_eq {fields : List Field}
    (h : ∀ heading unknown, Heading.ofFields? fields = some (heading, unknown) →
      heading.context.Fits) :
    guardedHeading fields = .ok (Heading.ofFields? fields) := by
  unfold guardedHeading Heading.ofFields? at *
  cases hbins : declaredBins? fields with
  | none => rfl
  | some bins =>
    cases hdependencies : declaredDependencies? fields with
    | none => rfl
    | some dependencies =>
      simp only [hbins, hdependencies] at h
      dsimp only
      by_cases hlength : fields.length ≤ bins + dependencies + 2
      · rw [if_pos hlength, List.getElem?_eq_none hlength]; rfl
      · have hlt : bins + dependencies + 2 < fields.length := Nat.not_le.1 hlength
        rw [List.getElem?_eq_getElem hlt] at h ⊢
        have hfits : bins + dependencies + 2 < Decimal.indexBound := by
          have hcontext := h _ _ rfl
          simp only [Context.Fits, Heading.context, List.length_map, List.length_take,
            List.length_drop] at hcontext
          omega
        have hbinFields : slice fields 1 (1 + bins) = .ok ((fields.drop 1).take bins) :=
          slice_eq (by omega)
        have hdependencyFields : slice fields (bins + 2) (bins + 2 + dependencies) =
            .ok ((fields.drop (bins + 2)).take dependencies) :=
          slice_eq (by omega)
        have hstop : word (bins + 2 + dependencies) = .ok (bins + 2 + dependencies) :=
          word_eq (by omega)
        rw [if_neg hlength, word_eq (by omega), word_eq (by omega), word_eq hfits]
        simp only [bind, Except.bind, hbinFields, hstop, hdependencyFields, entry_eq hlt]
        rfl

/-! ## Files -/

/-- The contexts that lines go through, from a context on. -/
def contextsFrom (context : Option Context) : List Line → List Context
  | [] => context.toList
  | line :: lines => context.toList ++ contextsFrom (contextAfter context line) lines

/-- The contexts that the lines of a file go through. -/
def contextsOf (text : List Char) : List Context :=
  contextsFrom none (linesOf text)

theorem mem_contextsFrom_iff {lines : List Line} {context : Option Context} {c : Context} :
    c ∈ contextsFrom context lines ↔
      ∃ above below, lines = above ++ below ∧ above.foldl contextAfter context = some c := by
  induction lines generalizing context with
  | nil => simp [contextsFrom]
  | cons line lines ih =>
    rw [contextsFrom, List.mem_append, Option.mem_toList, ih]
    constructor
    · rintro (hc | ⟨above, below, rfl, hc⟩)
      · exact ⟨[], line :: lines, rfl, hc⟩
      · exact ⟨line :: above, below, rfl, hc⟩
    · rintro ⟨above, below, hlines, hc⟩
      cases above with
      | nil => exact Or.inl hc
      | cons first above => cases hlines; exact Or.inr ⟨above, below, rfl, hc⟩

theorem guardedStep_eq {context : Option Context} {n : Nat} {line : Line}
    (h : ∀ fields, line = .heading fields →
      guardedHeading fields = .ok (Heading.ofFields? fields)) :
    guardedStep context n line = .ok (contextAfter context line, eventOf context n line) := by
  cases line with
  | blank | row => rfl
  | heading fields =>
    rw [guardedStep, h fields rfl, contextAfter, eventOf]
    simp only [bind, Except.bind]
    cases Heading.ofFields? fields <;> rfl

theorem guardedEventsFrom_eq {lines : List Line} {context : Option Context} {n : Nat}
    (h : ∀ fields, .heading fields ∈ lines →
      guardedHeading fields = .ok (Heading.ofFields? fields)) :
    guardedEventsFrom context n lines = .ok (eventsFrom context n lines) := by
  induction lines generalizing context n with
  | nil => rfl
  | cons line lines ih =>
    have hline : ∀ fields, line = .heading fields →
        guardedHeading fields = .ok (Heading.ofFields? fields) :=
      fun fields hf => h fields (hf ▸ List.mem_cons_self ..)
    rw [guardedEventsFrom, guardedStep_eq hline]
    simp only [bind, Except.bind]
    rw [ih fun fields hf => h fields (List.mem_cons_of_mem _ hf)]
    rfl

/-- A heading that can be decoded opens one of the contexts of its file. -/
theorem context_mem_of_heading {text : List Char} {fields : List Field}
    (h : .heading fields ∈ linesOf text) {heading : Heading} {unknown : Nat}
    (hf : Heading.ofFields? fields = some (heading, unknown)) :
    heading.context ∈ contextsOf text := by
  obtain ⟨above, below, hlines⟩ := List.append_of_mem h
  refine mem_contextsFrom_iff.2 ⟨above ++ [.heading fields], below, ?_, ?_⟩
  · rw [hlines, List.append_assoc]
    rfl
  · rw [List.foldl_append, List.foldl_cons, List.foldl_nil, contextAfter, hf]

/-- The context of a row is one of those that its file goes through. -/
theorem context_mem_contextsOf {text : List Char} {r : Row} (h : r ∈ rowsAmong (events text)) :
    r.context ∈ contextsOf text := by
  obtain ⟨above, below, hlines, -, hcontext⟩ := mem_rowsAmong_iff.1 h
  exact mem_contextsFrom_iff.2 ⟨above, _, hlines, hcontext⟩

/-- **No access to a heading fails**, if the numbers of every context fit in a
    word. -/
theorem guardedEvents_eq {text : List Char} (h : ∀ c ∈ contextsOf text, c.Fits) :
    guardedEvents text = .ok (events text) :=
  guardedEventsFrom_eq fun _ hline =>
    guardedHeading_eq fun _ _ hf => h _ (context_mem_of_heading hline hf)

/-! ## Texts that fit in memory -/

/-- The fields of a line. -/
def Line.fields : Line → List Field
  | .blank => []
  | .heading fields | .row fields => fields

theorem Line.fields_read (line : List Char) : (Line.read line).fields = fieldsOf line := by
  rw [Line.read]
  split
  · next h => exact h.symm
  · split <;> rfl

/-- No line has more fields than its text has characters. -/
theorem length_fields_le {text : List Char} {line : Line} (h : line ∈ linesOf text) :
    line.fields.length ≤ text.length := by
  obtain ⟨characters, hline, rfl⟩ := List.mem_map.1 h
  rw [Line.fields_read]
  calc (fieldsOf characters).length ≤ (dropBraces characters).length := Text.length_words_le _
    _ ≤ characters.length := List.length_filter_le ..
    _ ≤ text.length := Text.length_le_of_mem_lines hline

theorem length_row_le {text : List Char} {r : Row} (h : r ∈ rowsAmong (events text)) :
    r.fields.length ≤ text.length := by
  obtain ⟨above, below, hlines, -⟩ := mem_rowsAmong_iff.1 h
  exact length_fields_le (hlines ▸ List.mem_append_right _ (List.mem_cons_self ..) :
    Line.row r.fields ∈ linesOf text)

theorem lt_length_of_ofFields? {fields : List Field} {heading : Heading} {unknown : Nat}
    (h : Heading.ofFields? fields = some (heading, unknown)) :
    heading.bins.length + heading.dependencies.length + 2 < fields.length := by
  rw [Heading.ofFields?] at h
  split at h
  · next bins dependencies _ _ =>
    obtain ⟨formula, hformula, heading_eq⟩ := Option.map_eq_some_iff.1 h
    obtain ⟨hlt, -⟩ := List.getElem?_eq_some_iff.1 hformula
    cases heading_eq
    simp only [List.length_map, List.length_take, List.length_drop]
    omega
  · cases h

/-- **No access to a heading fails** in a text whose positions are words,
    whatever numbers its headings declare. -/
theorem guardedEvents_of_length {text : List Char} (h : text.length < Decimal.indexBound) :
    guardedEvents text = .ok (events text) :=
  guardedEventsFrom_eq fun _ hline => guardedHeading_eq fun _ _ hf =>
    Nat.lt_trans (lt_length_of_ofFields? hf) (Nat.lt_of_le_of_lt (length_fields_le hline) h)

end JetEnergy.TableFile
