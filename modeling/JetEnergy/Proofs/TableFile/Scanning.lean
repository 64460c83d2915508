import JetEnergy.Proofs.Lists
import JetEnergy.Proofs.Results
import JetEnergy.TableFile.Scan

/-!
  The rows that a scan hands over, and their contexts.

  * `scan_eq_foldlM`: a scan is a fold of the reader over the rows of the file.
  * `Decodes` and `InForce` say, without reading a file line by line, which
    headings can be decoded and which context the lines above a row give it.
    `contextAfter_eq_some_iff`: this is the context at which the lines above
    arrive one by one.
  * `scan_hands_over`: the rows are exactly the lines with fields that are no
    headings and have a context, in order, each with its number.
-/
namespace JetEnergy.TableFile

/-! ## Scanning as a fold -/

section
variable {σ ε : Type}

theorem rowsAmong_cons_row (r : Row) (es : List Event) :
    rowsAmong (.row r :: es) = r :: rowsAmong es :=
  rfl

theorem rowsAmong_append (es fs : List Event) :
    rowsAmong (es ++ fs) = rowsAmong es ++ rowsAmong fs :=
  List.filterMap_append

theorem scanEvents_eq_foldlM (reader : σ → Row → Except ε (Option σ)) (es : List Event) (state : σ)
    (tally : Tally) : (scanEvents reader state tally es).map Prod.fst =
      (rowsAmong es).foldlM (fun s r => (reader s r).map (·.getD s)) state := by
  induction es generalizing state tally with
  | nil => rfl
  | cons e es ih =>
    cases e with
    | row r =>
      rw [rowsAmong_cons_row, List.foldlM_cons, scanEvents]
      cases hr : reader state r with
      | error err => rfl
      | ok answer =>
        cases answer with
        | none => exact ih state _
        | some next => exact ih next _
    | _ => exact ih state _

/-- A scan folds its reader over the rows of the file. -/
theorem scan_eq_foldlM (reader : σ → Row → Except ε (Option σ)) (start : σ) (text : List Char) :
    (scan reader start text).map Prod.fst =
      (rowsAmong (events text)).foldlM (fun s r => (reader s r).map (·.getD s)) start :=
  scanEvents_eq_foldlM reader _ start {}

end

/-! ## Rows among the lines -/

theorem eventOf_eq_row_iff {context : Option Context} {n : Nat} {line : Line} {r : Row} :
    eventOf context n line = .row r ↔
      line = .row r.fields ∧ r.line = n ∧ context = some r.context := by
  cases line with
  | blank => simp [eventOf]
  | heading fields => simp only [eventOf]; split <;> simp
  | row fields =>
    cases context with
    | none => simp [eventOf]
    | some c =>
      obtain ⟨line, context, fields'⟩ := r
      simp only [eventOf, Event.row.injEq, Row.mk.injEq, Line.row.injEq, Option.some.injEq]
      constructor
      · rintro ⟨rfl, rfl, rfl⟩; exact ⟨rfl, rfl, rfl⟩
      · rintro ⟨rfl, rfl, rfl⟩; exact ⟨rfl, rfl, rfl⟩

theorem mem_rowsAmong_cons {e : Event} {es : List Event} {r : Row} :
    r ∈ rowsAmong (e :: es) ↔ e = .row r ∨ r ∈ rowsAmong es := by
  cases e with
  | row r' => rw [rowsAmong_cons_row, List.mem_cons, Event.row.injEq, eq_comm]
  | _ => simp [rowsAmong]

/-- A row stands where its line does, in the context at which the lines above
    it arrive. -/
theorem mem_rowsAmong_iff {lines : List Line} {context : Option Context} {n : Nat} {r : Row} :
    r ∈ rowsAmong (eventsFrom context n lines) ↔
      ∃ above below, lines = above ++ .row r.fields :: below ∧ r.line = n + above.length ∧
        above.foldl contextAfter context = some r.context := by
  induction lines generalizing context n with
  | nil => simp [eventsFrom, rowsAmong]
  | cons line lines ih =>
    rw [eventsFrom, mem_rowsAmong_cons, eventOf_eq_row_iff, ih]
    constructor
    · rintro (⟨rfl, hn, hc⟩ | ⟨above, below, rfl, hn, hc⟩)
      · exact ⟨[], lines, rfl, hn, hc⟩
      · exact ⟨line :: above, below, rfl, by rw [hn, List.length_cons]; omega, hc⟩
    · rintro ⟨above, below, hlines, hn, hc⟩
      cases above with
      | nil => cases hlines; exact Or.inl ⟨rfl, hn, hc⟩
      | cons first above =>
        cases hlines
        exact Or.inr ⟨above, below, rfl, by rw [hn, List.length_cons]; omega, hc⟩

theorem rowsAmong_pairwise (lines : List Line) (context : Option Context) (n : Nat) :
    (rowsAmong (eventsFrom context n lines)).Pairwise fun r r' => r.line < r'.line := by
  induction lines generalizing context n with
  | nil => exact .nil
  | cons line lines ih =>
    rw [eventsFrom]
    cases he : eventOf context n line with
    | row r =>
      rw [rowsAmong_cons_row]
      refine .cons (fun r' hr' => ?_) (ih _ _)
      obtain ⟨-, hn, -⟩ := eventOf_eq_row_iff.1 he
      obtain ⟨above, below, -, hn', -⟩ := mem_rowsAmong_iff.1 hr'
      omega
    | _ => exact ih _ _

/-! ## Headings and their contexts -/

/-- A heading that is long enough for the numbers it declares. -/
def Decodes (line : List Char) (bins dependencies : Nat) : Prop :=
  opensHeading line ∧ declaredBins? (fieldsOf line) = some bins ∧
    declaredDependencies? (fieldsOf line) = some dependencies ∧
    bins + dependencies + 2 < (fieldsOf line).length

/-- The number that the last heading among lines declares, of those that
    declare one. -/
def lastDeclared (declared? : List Field → Option Nat) (lines : List (List Char)) : Option Nat :=
  ((lines.filter opensHeading).filterMap fun line => declared? (fieldsOf line)).getLast?

/-- The observables of `count` fields from position `first` on. -/
def observablesAt (fields : List Field) (first count : Nat) : List Observable :=
  ((fields.drop first).take count).map fun field => (observable? field).getD .unnamed

/-- The context that lines give to a row below them: that of the last heading
    that can be decoded, and of later headings the numbers they declare. -/
def InForce (above : List (List Char)) (c : Context) : Prop :=
  ∃ before line after bins dependencies, above = before ++ line :: after ∧
    Decodes line bins dependencies ∧ (∀ l ∈ after, ∀ b d, ¬ Decodes l b d) ∧
    c.bins = observablesAt (fieldsOf line) 1 bins ∧
    c.dependencies = observablesAt (fieldsOf line) (bins + 2) dependencies ∧
    (fieldsOf line)[bins + dependencies + 2]? = some c.formula ∧
    c.binCount = (lastDeclared declaredBins? after).getD c.bins.length ∧
    c.dependencyCount = (lastDeclared declaredDependencies? after).getD c.dependencies.length

theorem read_heading {line : List Char} (h : opensHeading line) (hf : fieldsOf line ≠ []) :
    Line.read line = .heading (fieldsOf line) := by
  unfold Line.read
  split
  · next heq => exact absurd heq hf
  · rw [if_pos h]

theorem read_eq_row_iff {line : List Char} {fields : List Field} :
    Line.read line = .row fields ↔
      opensHeading line = false ∧ fieldsOf line = fields ∧ fields ≠ [] := by
  unfold Line.read
  split
  · next heq => rw [heq]; simp
  · next hne =>
    cases hopens : opensHeading line with
    | false =>
      simp only [Bool.false_eq_true, if_false, Line.row.injEq, true_and]
      exact ⟨fun h => ⟨h, fun hnil => hne (h.trans hnil)⟩, And.left⟩
    | true => simp

/-- A heading that can be decoded opens its own context. -/
theorem contextAfter_of_decodes {line : List Char} {bins dependencies : Nat}
    (h : Decodes line bins dependencies) (context : Option Context) :
    ∃ heading : Heading, contextAfter context (Line.read line) = some heading.context ∧
      heading.bins = observablesAt (fieldsOf line) 1 bins ∧
      heading.dependencies = observablesAt (fieldsOf line) (bins + 2) dependencies ∧
      (fieldsOf line)[bins + dependencies + 2]? = some heading.formula := by
  obtain ⟨hopens, hbins, hdependencies, hlength⟩ := h
  have hne : fieldsOf line ≠ [] := by
    intro hnil
    rw [hnil] at hlength; cases hlength
  have hformula := List.getElem?_eq_getElem hlength
  refine ⟨⟨observablesAt (fieldsOf line) 1 bins,
    observablesAt (fieldsOf line) (bins + 2) dependencies, _⟩, ?_, rfl, rfl, hformula⟩
  rw [read_heading hopens hne, contextAfter]
  simp only [Heading.ofFields?, hbins, hdependencies, hformula, Option.map_some]
  rfl

theorem ofFields?_eq_none {line : List Char} (hopens : opensHeading line)
    (h : ∀ b d, ¬ Decodes line b d) : Heading.ofFields? (fieldsOf line) = none := by
  unfold Heading.ofFields?
  cases hbins : declaredBins? (fieldsOf line) with
  | none => rfl
  | some bins =>
    cases hdependencies : declaredDependencies? (fieldsOf line) with
    | none => rfl
    | some dependencies =>
      have hlength : ¬ bins + dependencies + 2 < (fieldsOf line).length :=
        fun hlength => h bins dependencies ⟨hopens, hbins, hdependencies, hlength⟩
      simp only [List.getElem?_eq_none (Nat.not_lt.1 hlength), Option.map_none]

theorem lastDeclared_append (declared? : List Field → Option Nat) (xs ys : List (List Char)) :
    lastDeclared declared? (xs ++ ys) =
      (lastDeclared declared? ys).or (lastDeclared declared? xs) := by
  simp only [lastDeclared, List.filter_append, List.filterMap_append, List.getLast?_append]

theorem lastDeclared_of_heading (declared? : List Field → Option Nat) {line : List Char}
    (h : opensHeading line) : lastDeclared declared? [line] = declared? (fieldsOf line) := by
  cases hd : declared? (fieldsOf line) <;> simp [lastDeclared, h, hd]

theorem lastDeclared_of_no_heading (declared? : List Field → Option Nat) {line : List Char}
    (h : opensHeading line = false) : lastDeclared declared? [line] = none := by
  simp [lastDeclared, h]

/-- A context whose numbers are those that lines declare, as far as they do. -/
def Context.after (c : Context) (lines : List (List Char)) : Context :=
  { c with
    binCount := (lastDeclared declaredBins? lines).getD c.binCount
    dependencyCount := (lastDeclared declaredDependencies? lines).getD c.dependencyCount }

theorem Context.after_append (c : Context) (xs ys : List (List Char)) :
    c.after (xs ++ ys) = (c.after xs).after ys := by
  have hgetD : ∀ (a b : Option Nat) (n : Nat), (b.or a).getD n = b.getD (a.getD n) := by
    intro a b n
    cases b <;> rfl
  simp only [after, lastDeclared_append, hgetD]

/-- Any line but a heading that can be decoded. -/
theorem contextAfter_of_not_decodes {line : List Char} (h : ∀ b d, ¬ Decodes line b d)
    (context : Option Context) :
    contextAfter context (Line.read line) = context.map (·.after [line]) := by
  have hkeep : lastDeclared declaredBins? [line] = none →
      lastDeclared declaredDependencies? [line] = none →
      context = context.map (·.after [line]) := by
    intro hbins hdependencies
    simp only [Context.after, hbins, hdependencies, Option.getD_none]
    cases context <;> rfl
  cases hopens : opensHeading line with
  | false =>
    have hread : contextAfter context (Line.read line) = context := by
      unfold Line.read
      split
      · rfl
      · rw [if_neg (by simp [hopens])]; rfl
    rw [hread]
    exact hkeep (lastDeclared_of_no_heading _ hopens) (lastDeclared_of_no_heading _ hopens)
  | true =>
    have hbins := lastDeclared_of_heading declaredBins? hopens
    have hdependencies := lastDeclared_of_heading declaredDependencies? hopens
    -- a heading of braces only reads as a blank line, and declares nothing
    by_cases hne : fieldsOf line = []
    · rw [hne] at hbins hdependencies
      have hread : Line.read line = .blank := by unfold Line.read; rw [hne]
      rw [hread]
      exact hkeep hbins hdependencies
    · rw [read_heading hopens hne, contextAfter]
      simp only [ofFields?_eq_none hopens h, Context.after, hbins, hdependencies]
      rfl

theorem foldl_contextAfter {lines : List (List Char)} (h : ∀ l ∈ lines, ∀ b d, ¬ Decodes l b d)
    (context : Option Context) :
    (lines.map Line.read).foldl contextAfter context = context.map (·.after lines) := by
  induction lines generalizing context with
  | nil => cases context <;> rfl
  | cons line lines ih =>
    rw [List.map_cons, List.foldl_cons,
      contextAfter_of_not_decodes (h line (List.mem_cons_self ..)),
      ih fun l hl => h l (List.mem_cons_of_mem _ hl), Option.map_map]
    congr 1
    funext c
    exact (c.after_append [line] lines).symm

/-- The lines above a row arrive at the context that is in force below them. -/
theorem contextAfter_eq_some_iff {above : List (List Char)} {c : Context} :
    (above.map Line.read).foldl contextAfter none = some c ↔ InForce above c := by
  -- both directions split the lines at the last heading that can be decoded;
  -- what stands before it is lost, whatever context it arrives at
  have hsplit : ∀ (before : List (List Char)) {line : List Char} {after : List (List Char)}
      {bins dependencies : Nat}, Decodes line bins dependencies →
      (∀ l ∈ after, ∀ b d, ¬ Decodes l b d) →
      ∃ heading : Heading, heading.bins = observablesAt (fieldsOf line) 1 bins ∧
        heading.dependencies = observablesAt (fieldsOf line) (bins + 2) dependencies ∧
        (fieldsOf line)[bins + dependencies + 2]? = some heading.formula ∧
        ((before ++ line :: after).map Line.read).foldl contextAfter none =
          some (heading.context.after after) := by
    intro before line after bins dependencies hd hafter
    obtain ⟨heading, hcontext, hbins, hdependencies, hformula⟩ := contextAfter_of_decodes hd
      ((before.map Line.read).foldl contextAfter none)
    refine ⟨heading, hbins, hdependencies, hformula, ?_⟩
    rw [List.map_append, List.foldl_append, List.map_cons, List.foldl_cons, hcontext,
      foldl_contextAfter hafter]
    rfl
  constructor
  · intro h
    rcases exists_last (fun l => ∃ b d, Decodes l b d) above with hno | hlast
    · rw [foldl_contextAfter fun l hl b d hd => hno l hl ⟨b, d, hd⟩] at h
      cases h
    · obtain ⟨before, line, after, rfl, ⟨bins, dependencies, hd⟩, hno⟩ := hlast
      have hafter : ∀ l ∈ after, ∀ b d, ¬ Decodes l b d := fun l hl b d hd => hno l hl ⟨b, d, hd⟩
      obtain ⟨heading, hbins, hdependencies, hformula, hfold⟩ := hsplit before hd hafter
      obtain rfl := Option.some.inj (hfold.symm.trans h)
      exact ⟨before, line, after, bins, dependencies, rfl, hd, hafter, hbins, hdependencies,
        hformula, rfl, rfl⟩
  · rintro ⟨before, line, after, bins, dependencies, rfl, hd, hafter, hcbins, hcdependencies,
      hcformula, hbinCount, hdependencyCount⟩
    obtain ⟨heading, hbins, hdependencies, hformula, hfold⟩ := hsplit before hd hafter
    rw [hfold]
    obtain ⟨⟨cbins, cdependencies, cformula⟩, binCount, dependencyCount⟩ := c
    obtain ⟨hbins', hdependencies', formula⟩ := heading
    dsimp only at *
    subst hbins hdependencies hcbins hcdependencies hbinCount hdependencyCount
    rw [hformula] at hcformula
    cases hcformula
    rfl

/-- **What a scan hands over.**  For every reader, a scan is the fold of the
    reader over the same rows.  Their line numbers increase, and they are the
    lines with fields that are no headings and have a context in force, each
    with its number, its fields and that context. -/
theorem scan_hands_over (text : List Char) :
    (∀ (σ ε : Type) (reader : σ → Row → Except ε (Option σ)) (start : σ),
      (scan reader start text).map Prod.fst =
        (rowsAmong (events text)).foldlM (fun s r => (reader s r).map (·.getD s)) start) ∧
    (rowsAmong (events text)).Pairwise (fun r r' => r.line < r'.line) ∧
    ∀ r, r ∈ rowsAmong (events text) ↔
      ∃ above line below, Text.lines text = above ++ line :: below ∧
        r.line = above.length + 1 ∧ opensHeading line = false ∧
        fieldsOf line = r.fields ∧ r.fields ≠ [] ∧ InForce above r.context := by
  refine ⟨fun σ ε reader start => scan_eq_foldlM reader start text,
    rowsAmong_pairwise _ none 1, fun r => ?_⟩
  rw [events, mem_rowsAmong_iff]
  constructor
  · rintro ⟨above, below, hlines, hn, hcontext⟩
    obtain ⟨above, rest, hlines, rfl, hrest⟩ := List.map_eq_append_iff.1 hlines
    obtain ⟨line, below, rfl, hline, -⟩ := List.map_eq_cons_iff.1 hrest
    obtain ⟨hopens, hfields, hne⟩ := read_eq_row_iff.1 hline
    exact ⟨above, line, below, hlines, by rw [hn, List.length_map]; omega, hopens, hfields, hne,
      contextAfter_eq_some_iff.1 hcontext⟩
  · rintro ⟨above, line, below, hlines, hn, hopens, hfields, hne, hcontext⟩
    refine ⟨above.map Line.read, below.map Line.read, ?_, by rw [hn, List.length_map]; omega,
      contextAfter_eq_some_iff.2 hcontext⟩
    rw [linesOf, hlines, List.map_append, List.map_cons, read_eq_row_iff.2 ⟨hopens, hfields, hne⟩]

/-- A heading that is too short changes the numbers that it declares only. -/
example : (rowsAmong (events "\x7b1 JetEta 1 JetPt [0]\x7d\n\x7b3 JetEta\x7d\n1 2\n".toList)).map
    (fun r => (r.line, r.context.bins, r.context.binCount, r.context.dependencyCount)) =
      [(3, [.eta], 3, 1)] := by
  decide

end JetEnergy.TableFile
