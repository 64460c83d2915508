import JetEnergy.Proofs.Correction.Reading
import JetEnergy.Proofs.Decimal.Doubles
import JetEnergy.Proofs.Uncertainty.Reading

/-!
  The windows of parsed tables.

  * `Window.Ordered`: both bounds are numbers, the lower one first.  Whatever two
    numbers a window is made of, it is ordered (`ordered_ofBounds`), and a field is
    always read as a number, so every window of a file is.
  * `Window.Clamps`: what moving values into a window does to them;
    `Window.Ordered.clamps`: an ordered window does so.
  * `Entry.Hands` says what an entry hands to its formula: for every dependency a
    value in its window, unless the jet has none there that is a number.
  * `windows_in_order`: all of this for the tables of every text.
-/
namespace JetEnergy

open TableFile

/-! ## Ordered windows -/

namespace Window

/-- The bounds of a window are numbers in order. -/
structure Ordered (w : Window) : Prop where
  low_number : w.low.isNaN = false
  high_number : w.high.isNaN = false
  low_le_high : w.low ≤ w.high

/-- What a window does to values: those that it contains stay, all others move to
    a value that it contains, and values in order stay in order. A value that is
    not a number counts as contained and as equal to itself. -/
structure Clamps (w : Window) : Prop where
  fixed_iff : ∀ x, w.clamp x = x ↔ w.contains x = true
  equal_iff : ∀ x, ((w.clamp x == x) = true ∨ x.isNaN = true) ↔ w.contains x = true
  contained : ∀ x, w.contains (w.clamp x) = true
  idempotent : ∀ x, w.clamp (w.clamp x) = w.clamp x
  monotone : ∀ x y, x ≤ y → w.clamp x ≤ w.clamp y

theorem ordered_ofBounds (o : Observable) {a b : Float} (ha : a.isNaN = false)
    (hb : b.isNaN = false) : (ofBounds o a b).Ordered := by
  unfold ofBounds
  split
  · next hlt => exact ⟨hb, ha, Decimal.le_of_lt hlt⟩
  · next hlt => exact ⟨ha, hb, (Decimal.lt_or_le hb ha).resolve_left hlt⟩

theorem contains_iff {w : Window} {x : Float} :
    w.contains x = true ↔ ¬ x < w.low ∧ ¬ w.high < x := by
  simp [contains]

theorem clamp_of_contains {w : Window} {x : Float} (h : w.contains x = true) : w.clamp x = x := by
  obtain ⟨hlow, hhigh⟩ := contains_iff.1 h
  rw [clamp, if_neg hlow, if_neg hhigh]

/-- A value that a window does not contain moves to the bound that it passed. -/
theorem clamp_of_not_contains {w : Window} {x : Float} (h : ¬ w.contains x = true) :
    x < w.low ∧ w.clamp x = w.low ∨ ¬ x < w.low ∧ w.high < x ∧ w.clamp x = w.high := by
  by_cases hlow : x < w.low
  · exact Or.inl ⟨hlow, if_pos hlow⟩
  · have hhigh : w.high < x := Classical.not_not.1 fun hhigh => h (contains_iff.2 ⟨hlow, hhigh⟩)
    exact Or.inr ⟨hlow, hhigh, by rw [clamp, if_neg hlow, if_pos hhigh]⟩

/-- What is not a number lies in every window. -/
theorem contains_of_isNaN {x : Float} (hx : x.isNaN = true) (w : Window) :
    w.contains x = true :=
  contains_iff.2 ⟨Decimal.not_lt_of_isNaN hx _, fun hlt =>
    Decimal.not_le_of_isNaN hx _ (Decimal.le_of_lt hlt)⟩

namespace Ordered

variable {w : Window} (h : w.Ordered)
include h

theorem contains_low : w.contains w.low = true :=
  contains_iff.2 ⟨Decimal.lt_irrefl _, Decimal.not_lt_of_le h.low_le_high⟩

theorem contains_high : w.contains w.high = true :=
  contains_iff.2 ⟨Decimal.not_lt_of_le h.low_le_high, Decimal.lt_irrefl _⟩

/-- A number in the window lies between its bounds. -/
theorem between_of_contains {x : Float} (hx : x.isNaN = false) (hin : w.contains x = true) :
    w.low ≤ x ∧ x ≤ w.high := by
  obtain ⟨hlow, hhigh⟩ := contains_iff.1 hin
  exact ⟨(Decimal.lt_or_le hx h.low_number).resolve_left hlow,
    (Decimal.lt_or_le h.high_number hx).resolve_left hhigh⟩

theorem contains_clamp (x : Float) : w.contains (w.clamp x) = true := by
  by_cases hin : w.contains x = true
  · rwa [clamp_of_contains hin]
  · rcases clamp_of_not_contains hin with ⟨-, hclamp⟩ | ⟨-, -, hclamp⟩ <;> rw [hclamp]
    · exact h.contains_low
    · exact h.contains_high

theorem isNaN_clamp {x : Float} (hx : x.isNaN = false) : (w.clamp x).isNaN = false := by
  by_cases hin : w.contains x = true
  · rwa [clamp_of_contains hin]
  · rcases clamp_of_not_contains hin with ⟨-, hclamp⟩ | ⟨-, -, hclamp⟩ <;> rw [hclamp]
    · exact h.low_number
    · exact h.high_number

/-- Values in order stay in order. -/
theorem clamp_le_clamp {x y : Float} (hxy : x ≤ y) : w.clamp x ≤ w.clamp y := by
  obtain ⟨hx, hy⟩ := Decimal.isNaN_of_le hxy
  by_cases hinx : w.contains x = true
  · rw [clamp_of_contains hinx]
    by_cases hiny : w.contains y = true
    · rwa [clamp_of_contains hiny]
    · rcases clamp_of_not_contains hiny with ⟨hlow, -⟩ | ⟨-, -, hclamp⟩
      · exact absurd (Decimal.lt_of_le_of_lt hxy hlow) (contains_iff.1 hinx).1
      · rw [hclamp]
        exact (h.between_of_contains hx hinx).2
  · rcases clamp_of_not_contains hinx with ⟨-, hclamp⟩ | ⟨-, hhigh, hclamp⟩ <;> rw [hclamp]
    · -- the lower bound is below everything that is in the window
      exact (h.between_of_contains (h.isNaN_clamp hy) (h.contains_clamp y)).1
    · have hover : w.high < y := Decimal.lt_of_lt_of_le hhigh hxy
      have hlow : ¬ y < w.low := fun hlow =>
        Decimal.not_lt_of_le h.low_le_high (Decimal.lt_of_lt_of_le hover (Decimal.le_of_lt hlow))
      rw [clamp, if_neg hlow, if_pos hover]
      exact (Decimal.le_of_beq (Decimal.beq_self h.high_number)).1

theorem clamps : w.Clamps where
  fixed_iff x := by
    refine ⟨fun hfixed => ?_, clamp_of_contains⟩
    rw [← hfixed]
    exact h.contains_clamp x
  equal_iff x := by
    constructor
    · rintro (hequal | hx)
      · by_contra hout
        rcases clamp_of_not_contains hout with ⟨hlow, hclamp⟩ | ⟨-, hhigh, hclamp⟩ <;>
          rw [hclamp] at hequal
        · exact Decimal.not_lt_of_le (Decimal.le_of_beq hequal).1 hlow
        · exact Decimal.not_lt_of_le (Decimal.le_of_beq hequal).2 hhigh
      · exact contains_of_isNaN hx w
    · intro hin
      rw [clamp_of_contains hin]
      cases hx : x.isNaN with
      | true => exact Or.inr rfl
      | false => exact Or.inl (Decimal.beq_self hx)
  contained := h.contains_clamp
  idempotent x := clamp_of_contains (h.contains_clamp x)
  monotone x y := h.clamp_le_clamp

end Ordered

end Window

/-! ## Windows of files -/

theorem mem_pairUp {α : Type} : ∀ {l : List α} {p : α × α}, p ∈ pairUp l → p.1 ∈ l ∧ p.2 ∈ l
  | a :: b :: rest, p, h => by
    rcases List.mem_cons.1 h with rfl | h
    · exact ⟨List.mem_cons_self .., List.mem_cons_of_mem _ (List.mem_cons_self ..)⟩
    · exact (mem_pairUp h).imp (fun h => List.mem_cons_of_mem _ (List.mem_cons_of_mem _ h))
        fun h => List.mem_cons_of_mem _ (List.mem_cons_of_mem _ h)

/-- Windows that are made of numbers are ordered. -/
theorem ordered_of_mem_ofPairs {os : List Observable} {numbers : List Float}
    (hnumbers : ∀ x ∈ numbers, x.isNaN = false) {w : Window}
    (h : w ∈ Window.ofPairs os (pairUp numbers)) : w.Ordered := by
  obtain ⟨⟨o, a, b⟩, hmem, rfl⟩ := List.mem_map.1 h
  obtain ⟨ha, hb⟩ := mem_pairUp (List.of_mem_zip hmem).2
  exact Window.ordered_ofBounds o (hnumbers a ha) (hnumbers b hb)

theorem isNaN_of_mem_numbers (fields : List Field) :
    ∀ x ∈ fields.map Decimal.leadingFloat, x.isNaN = false := by
  intro x hx
  obtain ⟨field, -, rfl⟩ := List.mem_map.1 hx
  exact Decimal.isNaN_leadingFloat field

theorem Correction.ordered_of_ofRow? {r : Row} {ranges : Correction.Ranges}
    (h : Correction.Ranges.ofRow? r = .ok (some ranges)) :
    ∀ w ∈ ranges.bins ++ ranges.dependencies, w.Ordered := by
  obtain ⟨-, -, rfl⟩ := ofRow?_ok_some_iff.1 h
  have hnumbers := isNaN_of_mem_numbers r.fields
  intro w hw
  rcases List.mem_append.1 hw with hbin | hdependency
  · exact ordered_of_mem_ofPairs (fun x hx => hnumbers x (List.mem_of_mem_take hx)) hbin
  · refine ordered_of_mem_ofPairs (fun x hx => hnumbers x ?_) hdependency
    have hfirst := List.mem_of_mem_take hx
    split at hfirst
    · exact List.mem_of_mem_drop (List.mem_of_mem_drop hfirst)
    · exact List.mem_of_mem_drop hfirst

theorem Uncertainty.ordered_of_mem_windowsIn {r : Row} {n : Nat} {w : Window}
    (h : w ∈ windowsIn r n) : w.Ordered :=
  ordered_of_mem_ofPairs (isNaN_of_mem_numbers _) h

/-! ## What a formula is given -/

/-- What a dependency supplies for a jet: the jet's value, moved into the window.
    It lies between the bounds, unless the jet has no number there. -/
structure Window.Supplies (w : Window) (jet : Jet) (x : Float) : Prop where
  read_eq : x = w.read jet
  between : (jet.value w.observable).isNaN = true ∨ w.low ≤ x ∧ x ≤ w.high

theorem Window.Ordered.supplies_read {w : Window} (h : w.Ordered) (jet : Jet) :
    w.Supplies jet (w.read jet) where
  read_eq := rfl
  between := by
    cases hx : (jet.value w.observable).isNaN with
    | true => exact Or.inl rfl
    | false => exact Or.inr (h.between_of_contains (h.isNaN_clamp hx) (h.contains_clamp _))

namespace Correction

/-- What an entry gives for a jet: the value of its formula for values that its
    dependencies supply, the fourth of them as a further parameter, or one of the
    outcomes without a value. -/
inductive Entry.Hands (e : Entry) (jet : Jet) : Outcome → Prop
  | none : e.dependencies.length = 0 → Hands e jet .noDependencies
  | few {vars} : 1 ≤ e.dependencies.length → e.dependencies.length ≤ 3 →
      List.Forall₂ (fun w x => w.Supplies jet x) e.dependencies vars →
      Hands e jet (.value (e.formula.value vars e.parameters))
  | four {x y z t} :
      List.Forall₂ (fun w x => w.Supplies jet x) e.dependencies [x, y, z, t] →
      Hands e jet (.value (e.formula.valueWithExtra [x, y, z] e.parameters t))
  | many : 4 < e.dependencies.length → Hands e jet (.tooManyDependencies e.dependencies.length)

theorem hands_outcome {e : Entry} (h : ∀ w ∈ e.dependencies, w.Ordered) (jet : Jet) :
    e.Hands jet (e.outcome jet) := by
  have hsupplies : List.Forall₂ (fun w x => w.Supplies jet x) e.dependencies
      (e.dependencies.map (·.read jet)) :=
    List.forall₂_map_right_iff.2 (List.forall₂_same.2 fun w hw => (h w hw).supplies_read jet)
  rcases Nat.lt_trichotomy e.dependencies.length 4 with hlt | hfour | hgt
  · rcases Nat.eq_zero_or_pos e.dependencies.length with hzero | hpos
    · rw [Entry.outcome, List.eq_nil_of_length_eq_zero hzero]
      exact .none hzero
    · rw [outcome_of_few hpos (Nat.le_of_lt_succ hlt)]
      exact .few hpos (Nat.le_of_lt_succ hlt) hsupplies
  · obtain ⟨x, y, z, t, hds, hout⟩ := exists_outcome_of_four hfour jet
    rw [hds] at hsupplies
    rw [hout]
    exact .four (hds ▸ hsupplies)
  · rw [outcome_of_many hgt]
    exact .many hgt

/-- An entry looks at a jet through its dependencies only. -/
theorem outcome_congr {e : Entry} {jet jet' : Jet}
    (h : ∀ w ∈ e.dependencies, w.read jet = w.read jet') : e.outcome jet = e.outcome jet' := by
  have hmap : e.dependencies.map (·.read jet) = e.dependencies.map (·.read jet') :=
    List.map_congr_left h
  rw [Entry.outcome, Entry.outcome]
  split
  · rfl
  · next hds =>
    simp only [hds, List.map_cons, List.cons.injEq] at hmap
    obtain ⟨hx, hy, hz, ht, -⟩ := hmap
    rw [hx, hy, hz, ht]
  · rw [hmap]

end Correction

/-! ## Tables -/

/-- **Every window of a file is ordered**, whatever the file holds and in which
    order it gives the bounds, and so moves values into itself in the order they
    have.  What a formula is given lies in its window, unless the jet has no
    number there, and two jets that meet the same entry and look the same through
    its windows have the same outcome. -/
theorem windows_in_order (source : String) (text : List Char) :
    (∀ t, Correction.Table.parse source text = .ok t →
      (∀ e ∈ t.entries, (∀ w ∈ e.bins ++ e.dependencies, w.Ordered ∧ w.Clamps) ∧
        ∀ jet, e.Hands jet (e.outcome jet)) ∧
      ∀ jet jet' e, t.find? jet = some e → t.find? jet' = some e →
        (∀ w ∈ e.dependencies, w.read jet = w.read jet') → t.outcome jet = t.outcome jet') ∧
    ∀ t, Uncertainty.Table.parse source text = .ok t →
      ∀ e ∈ t.entries, ∀ w ∈ e.bins, w.Ordered ∧ w.Clamps := by
  refine ⟨fun t ht => ⟨fun e he => ?entry, fun jet jet' e hjet hjet' hread => ?jets⟩,
    fun t ht e he w hw => ?band⟩
  case entry =>
    obtain ⟨r, -, hreads⟩ := Correction.exists_row_of_parse ht he
    have hordered := Correction.ordered_of_ofRow? hreads.ranges
    exact ⟨fun w hw => ⟨hordered w hw, (hordered w hw).clamps⟩,
      Correction.hands_outcome fun w hw => hordered w (List.mem_append_right _ hw)⟩
  case jets =>
    rw [Correction.Table.outcome, Correction.Table.outcome, hjet, hjet']
    exact Correction.outcome_congr hread
  case band =>
    rw [Uncertainty.entries_of_parse ht] at he
    obtain ⟨r, -, rfl⟩ := List.mem_map.1 he
    have hordered := Uncertainty.ordered_of_mem_windowsIn hw
    exact ⟨hordered, hordered.clamps⟩

/-- A bin whose bounds are in descending order, and a window up to a number that is
    too great: two jets below it look the same. -/
theorem windows_of_one_row : ∃ t e, Correction.Table.parse "table"
    "\x7b1 JetEta 1 JetPt x\x7d\n5 -5 3 1e999 20 2\n".toList = .ok t ∧ t.entries = [e] ∧
    (∀ w ∈ e.bins ++ e.dependencies, w.Ordered ∧ w.Clamps) ∧
    (∀ jet, e.Hands jet (e.outcome jet)) ∧
    t.outcome ⟨5, 1, 0, 0, 0⟩ = t.outcome ⟨10, -1, 0, 0, 0⟩ ∧
    ∃ u e, Uncertainty.Table.parse "table"
      "\x7b1 JetEta 1 JetPt x\x7d\n5 -5 3 1e999 20 2\n".toList = .ok u ∧ u.entries = [e] ∧
      ∀ w ∈ e.bins, w.Ordered ∧ w.Clamps := by
  obtain ⟨f, hf⟩ := Correction.exists_compile_x
  obtain ⟨r, hrows, hrow, hjet, hjet', hsame⟩ : ∃ r, rowsAmong
      (events "\x7b1 JetEta 1 JetPt x\x7d\n5 -5 3 1e999 20 2\n".toList) = [r] ∧
      (Correction.leastFields r.context < Decimal.indexBound ∧ Correction.isLong r = true ∧
        Correction.compileRow r = Formula.compile ['x'] 1) ∧
      (Correction.entryOf r f).holds ⟨5, 1, 0, 0, 0⟩ = true ∧
      (Correction.entryOf r f).holds ⟨10, -1, 0, 0, 0⟩ = true ∧
      ∀ w ∈ (Correction.Ranges.ofFields r.context r.fields).dependencies,
        w.read ⟨5, 1, 0, 0, 0⟩ = w.read ⟨10, -1, 0, 0, 0⟩ :=
    ⟨_, by with_unfolding_all rfl, ⟨by with_unfolding_all decide, by with_unfolding_all rfl,
      by with_unfolding_all rfl⟩, by with_unfolding_all rfl, by with_unfolding_all rfl,
      by decide +kernel⟩
  obtain ⟨t, ht, hentries⟩ := Correction.exists_parse_of_rows "table" hrows (f := f)
    (by simpa [hf] using hrow)
  have hfind : ∀ {jet}, (Correction.entryOf r f).holds jet = true →
      t.find? jet = some (Correction.entryOf r f) := by
    intro jet hholds
    rw [Correction.Table.find?, hentries, List.map_singleton, List.find?_cons, hholds]
  obtain ⟨u, e, hu, he⟩ : ∃ u e, Uncertainty.Table.parse "table"
      "\x7b1 JetEta 1 JetPt x\x7d\n5 -5 3 1e999 20 2\n".toList = .ok u ∧ u.entries = [e] :=
    ⟨_, _, by with_unfolding_all rfl, rfl⟩
  obtain ⟨hall, hjets⟩ := (windows_in_order "table" _).1 t ht
  obtain ⟨hwindows, hhands⟩ := hall (Correction.entryOf r f) (hentries ▸ List.mem_singleton_self _)
  exact ⟨t, Correction.entryOf r f, ht, hentries, hwindows, hhands,
    hjets _ _ _ (hfind hjet) (hfind hjet') hsame, u, e, hu, he,
    (windows_in_order "table" _).2 u hu e (he ▸ List.mem_singleton_self _)⟩

end JetEnergy
