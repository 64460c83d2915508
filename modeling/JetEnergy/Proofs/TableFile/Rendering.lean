import JetEnergy.TableFile.Scan
import JetEnergy.Proofs.Decimal.Numbers
import JetEnergy.Proofs.Text.Splitting

/-!
  Writing headings and rows.

  * `Plain` fields can be written down with spaces between them; `read_rowLine`
    and `read_headingLine`: they are read back.
  * `Heading.fields` are the fields of a heading.  `ofFields?_fields`: they
    decode to the heading, as long as a field can hold the numbers of
    observables.
-/
namespace JetEnergy.TableFile

/-! ## Fields and lines -/

/-- A field that can be written down: a word without braces. -/
structure Plain (field : Field) : Prop where
  word : Text.IsWord field
  braces : '{' ∉ field ∧ '}' ∉ field

instance : DecidablePred Plain := fun field =>
  decidable_of_iff (Text.IsWord field ∧ field.contains '{' = false ∧ field.contains '}' = false)
    ⟨fun ⟨hword, hbraces⟩ => ⟨hword, by simpa using hbraces⟩,
      fun h => ⟨h.word, by simpa using h.braces⟩⟩

/-- Fields as a row. -/
def rowLine (fields : List Field) : List Char :=
  Text.spaced fields

/-- Fields as a heading. -/
def headingLine (fields : List Field) : List Char :=
  '{' :: Text.spaced fields ++ ['}']

theorem dropBraces_eq_self {line : List Char} (h : '{' ∉ line ∧ '}' ∉ line) :
    dropBraces line = line := by
  refine List.filter_eq_self.2 fun c hc => decide_eq_true ⟨?_, ?_⟩
  · rintro rfl; exact h.1 hc
  · rintro rfl; exact h.2 hc

section
variable {fields : List Field} (h : ∀ f ∈ fields, Plain f)
include h

theorem not_mem_spaced_braces : '{' ∉ Text.spaced fields ∧ '}' ∉ Text.spaced fields := by
  constructor
  · intro hmem
    rcases mem_intercalate hmem with hspace | ⟨f, hf, hc⟩
    · cases hspace
    · exact (h f hf).braces.1 hc
  · intro hmem
    rcases mem_intercalate hmem with hspace | ⟨f, hf, hc⟩
    · cases hspace
    · exact (h f hf).braces.2 hc

theorem fieldsOf_rowLine : fieldsOf (rowLine fields) = fields := by
  rw [fieldsOf, rowLine, dropBraces_eq_self (not_mem_spaced_braces h)]
  exact Text.words_spaced fun f hf => (h f hf).word

theorem fieldsOf_headingLine : fieldsOf (headingLine fields) = fields := by
  have hdrop : dropBraces (headingLine fields) = dropBraces (rowLine fields) := by
    simp [dropBraces, headingLine, rowLine]
  rw [fieldsOf, hdrop]
  exact fieldsOf_rowLine h

theorem opensHeading_rowLine : opensHeading (rowLine fields) = false := by
  have hbrace := (not_mem_spaced_braces h).1
  rw [rowLine]
  generalize Text.spaced fields = line at *
  induction line with
  | nil => rfl
  | cons c line ih =>
    obtain ⟨hc, hline⟩ := not_or.1 (mt List.mem_cons.2 hbrace)
    unfold opensHeading
    split
    · next heq => cases heq; exact absurd rfl hc
    · next heq => cases heq; exact ih hline
    · rfl

/-- A row is read back. -/
theorem read_rowLine (hne : fields ≠ []) : Line.read (rowLine fields) = .row fields := by
  unfold Line.read
  rw [fieldsOf_rowLine h, opensHeading_rowLine h]
  cases fields with
  | nil => exact absurd rfl hne
  | cons => rfl

/-- A heading is read back. -/
theorem read_headingLine (hne : fields ≠ []) :
    Line.read (headingLine fields) = .heading fields := by
  unfold Line.read
  rw [fieldsOf_headingLine h]
  cases fields with
  | nil => exact absurd rfl hne
  | cons => rfl

theorem not_mem_rowLine {c : Char} (hc : Text.isBlank c = true) (hspace : c ≠ ' ') :
    c ∉ rowLine fields :=
  Text.not_mem_spaced (fun f hf => (h f hf).word) hc hspace

theorem not_mem_headingLine {c : Char} (hc : Text.isBlank c = true) (hspace : c ≠ ' ') :
    c ∉ headingLine fields := by
  have hrow := not_mem_rowLine h hc hspace
  rw [headingLine, List.cons_append, List.mem_cons, List.mem_append, List.mem_singleton]
  rintro (rfl | hmem | rfl)
  · cases hc
  · exact hrow hmem
  · cases hc

theorem length_le_length_rowLine : fields.length ≤ (rowLine fields).length :=
  Text.length_le_length_spaced fun f hf => (h f hf).word

theorem length_le_length_headingLine : fields.length ≤ (headingLine fields).length := by
  have hrow := length_le_length_rowLine h
  rw [headingLine, List.cons_append, List.length_cons, List.length_append]
  rw [rowLine] at hrow
  omega

end

/-- The field of a natural number. -/
def numberField (n : Nat) : Field :=
  Nat.toDigits 10 n

theorem plain_numberField (n : Nat) : Plain (numberField n) where
  word := ⟨Nat.toDigits_ne_nil, fun _ hc =>
    Decimal.not_isBlank_of_isDigit (Decimal.isDigit_of_mem_digits hc)⟩
  braces := ⟨Decimal.not_mem_digits n rfl, Decimal.not_mem_digits n rfl⟩

theorem count?_numberField {n : Nat} (h : n < Decimal.intBound) :
    count? (numberField n) = some n := by
  rw [count?, numberField, Decimal.leadingInt_toDigits h]

/-! ## Headings -/

/-- The field of an observable. -/
def observableField (o : Observable) : Field :=
  o.name.toList

theorem plain_observableField (o : Observable) : Plain (observableField o) := by
  cases o <;> decide

/-- The name of an observable is read back, except that an unnamed one is not
    known. -/
theorem observable?_observableField (o : Observable) :
    observable? (observableField o) = if o = .unnamed then none else some o := by
  cases o <;> decide

/-- The fields of a heading. -/
def Heading.fields (h : Heading) : List Field :=
  numberField h.bins.length :: h.bins.map observableField ++
    numberField h.dependencies.length :: h.dependencies.map observableField ++ [h.formula]

theorem Heading.length_fields (h : Heading) :
    h.fields.length = h.bins.length + h.dependencies.length + 3 := by
  simp only [fields, List.length_append, List.length_cons, List.length_map, List.length_nil]
  omega

theorem Heading.plain_fields {h : Heading} (hplain : Plain h.formula) :
    ∀ f ∈ h.fields, Plain f := by
  intro f hf
  simp only [fields, List.mem_append, List.mem_cons, List.mem_map, List.not_mem_nil,
    or_false] at hf
  rcases hf with ((rfl | ⟨o, -, rfl⟩) | (rfl | ⟨o, -, rfl⟩)) | rfl
  · exact plain_numberField _
  · exact plain_observableField o
  · exact plain_numberField _
  · exact plain_observableField o
  · exact hplain

/-- The number of observables in a heading without a name. -/
def Heading.unnamedCount (h : Heading) : Nat :=
  (h.bins ++ h.dependencies).count .unnamed

theorem getD_observable? (o : Observable) :
    (observable? (observableField o)).getD .unnamed = o := by
  rw [observable?_observableField]
  split
  · next h => exact h.symm
  · rfl

theorem unknownCount_names (os : List Observable) :
    unknownCount (os.map observableField) = os.count .unnamed := by
  rw [unknownCount, List.countP_map, List.count]
  refine List.countP_congr fun o _ => ?_
  rw [Function.comp_apply, observable?_observableField]
  cases o <;> simp

/-- **A heading is read back** from its fields. -/
theorem Heading.ofFields?_fields {h : Heading} (hbins : h.bins.length < Decimal.intBound)
    (hdependencies : h.dependencies.length < Decimal.intBound) :
    ofFields? h.fields = some (h, h.unnamedCount) := by
  have hfields : h.fields = numberField h.bins.length ::
      (h.bins.map observableField ++ numberField h.dependencies.length ::
        (h.dependencies.map observableField ++ [h.formula])) := by
    simp [fields]
  have hrest : h.fields.drop (h.bins.length + 1) =
      numberField h.dependencies.length :: (h.dependencies.map observableField ++ [h.formula]) := by
    rw [hfields, List.drop_succ_cons]
    exact List.drop_left' (List.length_map ..)
  have hlast : h.fields.drop (h.bins.length + h.dependencies.length + 2) = [h.formula] := by
    have hsum : h.bins.length + h.dependencies.length + 2 =
        h.bins.length + 1 + (h.dependencies.length + 1) := by omega
    rw [hsum, ← List.drop_drop, hrest, List.drop_succ_cons]
    exact List.drop_left' (List.length_map ..)
  have hdeclaredBins : declaredBins? h.fields = some h.bins.length := by
    rw [hfields]
    exact count?_numberField hbins
  have hdeclaredDependencies : declaredDependencies? h.fields = some h.dependencies.length := by
    rw [declaredDependencies?, hdeclaredBins, Option.bind_some, ← List.head?_drop, hrest]
    exact count?_numberField hdependencies
  have hformula : h.fields[h.bins.length + h.dependencies.length + 2]? = some h.formula := by
    rw [← List.head?_drop, hlast]; rfl
  have hbinFields : (h.fields.drop 1).take h.bins.length = h.bins.map observableField := by
    rw [hfields, List.drop_succ_cons]
    exact List.take_left' (List.length_map ..)
  have hdependencyFields : (h.fields.drop (h.bins.length + 2)).take h.dependencies.length =
      h.dependencies.map observableField := by
    rw [show h.bins.length + 2 = h.bins.length + 1 + 1 from rfl, ← List.drop_drop, hrest,
      List.drop_succ_cons]
    exact List.take_left' (List.length_map ..)
  simp only [ofFields?, hdeclaredBins, hdeclaredDependencies, hformula, hbinFields,
    hdependencyFields, Option.map_some, ← List.map_append, unknownCount_names, unnamedCount,
    List.map_map, Function.comp_def, getD_observable?, List.map_id']

end JetEnergy.TableFile
