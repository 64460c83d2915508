import JetEnergy.Proofs.Correction.Reading
import JetEnergy.Proofs.Uncertainty.Reading

/-!
  Tables of texts that are put together.

  * `readFresh_append`, `readFresh_below`: reading rows goes on from the
    entries before them, and does not depend on where they stand.
  * `parse_append`: a text that is added to a file leaves the entries before it
    and their failures as they are; with a heading of its own it is read as if
    it stood alone.
-/
namespace JetEnergy

/-- A failure `n` lines further down, with `k` more entries before it. -/
def LoadError.below (n k : Nat) : LoadError → LoadError
  | badFormula source line entry formula error =>
    badFormula source (line + n) (entry + k) formula error
  | e => e

/-- A halt `n` lines further down. -/
def Halt.below (n : Nat) : Halt → Halt
  | missingBound line bin => missingBound (line + n) bin
  | tooWide line => tooWide (line + n)
  | h => h

/-- A stop `n` lines further down, with `k` more entries before it. -/
def Stop.below (n k : Nat) : Stop LoadError → Stop LoadError
  | failure e => failure (e.below n k)
  | halt h => halt (h.below n)

namespace Correction

open TableFile

/-! ## Rows one after the other -/

theorem readFresh_append (source : String) (index : Nat) (xs ys : List Row) :
    readFresh source index (xs ++ ys) = (readFresh source index xs).bind fun es =>
      (readFresh source (index + es.length) ys).map (es ++ ·) := by
  induction xs generalizing index with
  | nil =>
    rw [List.nil_append, readFresh]
    simp only [Except.bind, List.length_nil, Nat.add_zero, List.nil_append]
    cases readFresh source index ys <;> rfl
  | cons r xs ih =>
    rw [List.cons_append, readFresh, readFresh]
    cases readRow source index r with
    | error stop => rfl
    | ok answer =>
      cases answer with
      | none => exact ih index
      | some e =>
        dsimp only
        rw [ih]
        cases readFresh source (index + 1) xs with
        | error stop => rfl
        | ok es =>
          simp only [Except.bind, Except.map, List.length_cons, Nat.add_right_comm index 1,
            Nat.add_assoc index]
          cases readFresh source (index + (es.length + 1)) ys <;> rfl

/-! ## Rows further down -/

/-- An entry whose row stands `n` lines further down. -/
def Entry.below (n : Nat) (e : Entry) : Entry :=
  { e with line := e.line + n }

theorem ofRow?_below (n : Nat) (r : Row) :
    Ranges.ofRow? (r.below n) = (Ranges.ofRow? r).mapError (Halt.below n) := by
  unfold Ranges.ofRow? Row.below
  dsimp only
  split
  · rfl
  · split <;> rfl

theorem readRow_below (source : String) (n k index : Nat) (r : Row) :
    readRow source (index + k) (r.below n) =
      match readRow source index r with
      | .error stop => .error (stop.below n k)
      | .ok answer => .ok (answer.map (Entry.below n)) := by
  have hcompile : compileRow (r.below n) = compileRow r := rfl
  rw [readRow, readRow, ofRow?_below, hcompile]
  cases Ranges.ofRow? r with
  | error halt => rfl
  | ok decoded =>
    cases decoded with
    | none => rfl
    | some ranges => cases compileRow r <;> rfl

/-- Where rows stand does not change what they give. -/
theorem readFresh_below (source : String) (n k index : Nat) (rows : List Row) :
    readFresh source (index + k) (rows.map (Row.below n)) =
      match readFresh source index rows with
      | .error stop => .error (stop.below n k)
      | .ok es => .ok (es.map (Entry.below n)) := by
  induction rows generalizing index with
  | nil => rfl
  | cons r rows ih =>
    rw [List.map_cons, readFresh, readFresh, readRow_below]
    cases readRow source index r with
    | error stop => rfl
    | ok answer =>
      cases answer with
      | none => exact ih index
      | some e =>
        dsimp only [Option.map_some]
        rw [Nat.add_right_comm, ih]
        cases readFresh source (index + 1) rows <;> rfl

theorem isKept_below (n : Nat) (e : Event) : isKept (e.below n) = isKept e := by
  cases e with
  | row r => rfl
  | _ => rfl

theorem after_below (t : Tally) (kept : Bool) (n : Nat) (e : Event) :
    t.after kept (e.below n) = t.after kept e := by
  cases e <;> rfl

/-- Tallies of texts that are put together add up. -/
theorem tallyFrom_append_below (n : Nat) (xs ys : List Event) :
    tallyFrom {} (xs ++ ys.map (Event.below n)) = tallyFrom {} xs + tallyFrom {} ys := by
  have hbelow : ∀ t : Tally, tallyFrom t (ys.map (Event.below n)) = tallyFrom t ys := by
    intro t
    simp only [tallyFrom, List.foldl_map, isKept_below, after_below]
  rw [tallyFrom_append, hbelow, ← Tally.add_empty (tallyFrom {} xs)]
  exact Tally.foldl_after isKept ys _ _

/-! ## Tables -/

/-- What stops the reading of a text stays if something is added to it. -/
theorem parse_append_error {source : String} {a : List Char} (ha : Text.Terminated a)
    (b : List Char) {stop : Stop LoadError} (h : Table.parse source a = .error stop) :
    Table.parse source (a ++ b) = .error stop := by
  rw [parse_error_iff] at h ⊢
  rw [events_append ha, rowsAmong_append, readFresh_append, h]
  rfl

/-- What is found first is found first if something is added. -/
theorem find?_of_entries_prefix {t t' : Table} (h : t.entries <+: t'.entries) {jet : Jet}
    {e : Entry} (he : t.find? jet = some e) :
    t'.find? jet = some e ∧ t'.outcome jet = t.outcome jet := by
  have he' : t'.find? jet = some e := List.IsPrefix.find?_eq_some h he
  exact ⟨he', by rw [Table.outcome, he', Table.outcome, he]⟩

/-- The entries of a text stay in front if something is added to it. -/
theorem entries_prefix {source : String} {a : List Char} (ha : Text.Terminated a) {b : List Char}
    {t t' : Table} (ht : Table.parse source a = .ok t)
    (ht' : Table.parse source (a ++ b) = .ok t') :
    t.entries <+: t'.entries := by
  obtain ⟨hread, -⟩ := parse_ok ht
  obtain ⟨hread', -⟩ := parse_ok ht'
  rw [events_append ha, rowsAmong_append, readFresh_append, hread] at hread'
  simp only [Except.bind] at hread'
  cases hrest : readFresh source (0 + t.entries.length) (rowsAmong (eventsFrom
      ((linesOf a).foldl contextAfter none) (1 + (Text.lines a).length) (linesOf b))) with
  | error stop => rw [hrest] at hread'; cases hread'
  | ok es =>
    rw [hrest] at hread'
    exact ⟨es, Except.ok.inj hread'⟩

/-- A text with a heading of its own is read below another one as it is alone. -/
theorem readFresh_of_opens {source : String} {a b : List Char} (ha : Text.Terminated a)
    (hb : OpensWithHeading b) {es : List Entry}
    (h : readFresh source 0 (rowsAmong (events a)) = .ok es) :
    readFresh source 0 (rowsAmong (events (a ++ b))) =
      match readFresh source 0 (rowsAmong (events b)) with
      | .error stop => .error (stop.below (Text.lines a).length es.length)
      | .ok es' => .ok (es ++ es'.map (Entry.below (Text.lines a).length)) := by
  rw [events_append_of_opens ha hb, rowsAmong_append, rowsAmong_below, readFresh_append, h]
  simp only [Except.bind]
  rw [readFresh_below]
  cases readFresh source 0 (rowsAmong (events b)) <;> rfl

/-- What a text gives below another one that is read, if it has a heading of its
    own. -/
theorem parse_append_of_opens {source : String} {a b : List Char} (ha : Text.Terminated a)
    (hb : OpensWithHeading b) {t : Table} (ht : Table.parse source a = .ok t) :
    (∀ err, Table.parse source b = .error err →
      Table.parse source (a ++ b) = .error (err.below (Text.lines a).length t.entries.length)) ∧
    ∀ u, Table.parse source b = .ok u → ∃ v, Table.parse source (a ++ b) = .ok v ∧
      v.entries = t.entries ++ u.entries.map (Entry.below (Text.lines a).length) ∧
      v.tally = t.tally + u.tally := by
  obtain ⟨hread, -, htally, -⟩ := parse_ok ht
  have happend := readFresh_of_opens ha hb hread
  constructor
  · intro err herr
    rw [parse_error_iff] at herr ⊢
    rw [happend, herr]
  · intro u hu
    obtain ⟨hread', -, htally', -⟩ := parse_ok hu
    rw [hread'] at happend
    obtain ⟨v, hv, hentries⟩ := exists_parse happend
    obtain ⟨-, -, htally'', -⟩ := parse_ok hv
    refine ⟨v, hv, hentries, ?_⟩
    rw [htally, htally', htally'', tallyOf, events_append_of_opens ha hb, tallyFrom_append_below]
    rfl

/-- **Reading is compositional in the text.**  Let a text be empty or end with a
    line feed, and add something to it.  If the text fails, the whole fails with
    the same error.  If both are read, the entries of the text come first in the
    whole, so what it finds for a jet, and the outcome, stay; an uncertainty file
    keeps its entries and bands in the same way.  If what is added has a heading
    of its own, the whole is read if that part is: its entries follow, each as
    many lines further down as the text has, all numbers of the tallies add up,
    and its failure comes back with the lines and the entries of the text
    before it. -/
theorem parse_append (source : String) {a : List Char} (ha : Text.Terminated a) (b : List Char) :
    (∀ err, Table.parse source a = .error err → Table.parse source (a ++ b) = .error err) ∧
    (∀ t v, Table.parse source a = .ok t → Table.parse source (a ++ b) = .ok v →
      t.entries <+: v.entries ∧
      ∀ jet e, t.find? jet = some e → v.find? jet = some e ∧ v.outcome jet = t.outcome jet) ∧
    (∀ t v, Uncertainty.Table.parse source a = .ok t →
      Uncertainty.Table.parse source (a ++ b) = .ok v →
      t.entries <+: v.entries ∧
      ∀ jet e, t.find? jet = some e → v.find? jet = some e ∧ v.band jet = t.band jet) ∧
    (∀ t, Table.parse source a = .ok t → OpensWithHeading b →
      ((∃ v, Table.parse source (a ++ b) = .ok v) ↔ ∃ u, Table.parse source b = .ok u) ∧
      (∀ u v, Table.parse source b = .ok u → Table.parse source (a ++ b) = .ok v →
        v.entries = t.entries ++ u.entries.map (Entry.below (Text.lines a).length) ∧
        v.tally = t.tally + u.tally) ∧
      ∀ err, Table.parse source b = .error err →
        Table.parse source (a ++ b) =
          .error (err.below (Text.lines a).length t.entries.length)) := by
  refine ⟨fun err h => parse_append_error ha b h, fun t v ht hv => ?_, fun t v ht hv => ?_,
    fun t ht hb => ?_⟩
  · have hkept := entries_prefix ha ht hv
    exact ⟨hkept, fun jet e he => find?_of_entries_prefix hkept he⟩
  · have hkept := Uncertainty.entries_prefix ha ht hv
    exact ⟨hkept, fun jet e he => Uncertainty.find?_of_entries_prefix hkept he⟩
  · obtain ⟨herror, hok⟩ := parse_append_of_opens ha hb ht
    refine ⟨⟨?_, ?_⟩, ?_, herror⟩
    · rintro ⟨v, hv⟩
      cases hu : Table.parse source b with
      | ok u => exact ⟨u, rfl⟩
      | error err => rw [herror err hu] at hv; cases hv
    · rintro ⟨u, hu⟩
      obtain ⟨v, hv, -⟩ := hok u hu
      exact ⟨v, hv⟩
    · intro u v hu hv
      obtain ⟨v', hv', hentries, htally⟩ := hok u hu
      obtain rfl : v' = v := Except.ok.inj (hv'.symm.trans hv)
      exact ⟨hentries, htally⟩

/-- A file with a refused formula, and one with a heading and a row, above
    another heading and another row. -/
theorem parse_append_two_headings :
    Table.parse "table" ("\x7b1 JetEta 1 JetPt #\x7d\n0 5 3 0 9 1\n".toList ++
      "\n\x7b1 JetEta 1 JetPt x\x7d\n0 5 3 0 9 2\n".toList) =
        .error (.failure (.badFormula "table" 2 0 "#" ⟨0, .strayCharacter '#'⟩)) ∧
    ∃ t u v, Table.parse "table" "\x7b1 JetEta 1 JetPt x\x7d\n-5 0 3 0 9 1\n".toList = .ok t ∧
      Table.parse "table" "\n\x7b1 JetEta 1 JetPt x\x7d\n0 5 3 0 9 2\n".toList = .ok u ∧
      Table.parse "table" ("\x7b1 JetEta 1 JetPt x\x7d\n-5 0 3 0 9 1\n".toList ++
        "\n\x7b1 JetEta 1 JetPt x\x7d\n0 5 3 0 9 2\n".toList) = .ok v ∧
      t.entries.length = 1 ∧ u.entries.length = 1 ∧
      v.entries = t.entries ++ u.entries.map (Entry.below 2) := by
  refine ⟨(parse_append "table" (Or.inr (by decide)) _).1 _ (by with_unfolding_all rfl), ?_⟩
  obtain ⟨f, hf⟩ := exists_compile_x
  have hone : ∀ (text : List Char) {r : Row}, rowsAmong (events text) = [r] →
      leastFields r.context < Decimal.indexBound → isLong r = true →
      compileRow r = Formula.compile ['x'] 1 →
      ∃ t, Table.parse "table" text = .ok t ∧ t.entries.length = 1 := by
    intro text r hrows hword hlong hr
    obtain ⟨t, ht, hentries⟩ := exists_parse_of_rows "table" hrows (f := f)
      (by simp [hword, hlong, hr, hf])
    exact ⟨t, ht, by rw [hentries]; rfl⟩
  obtain ⟨t, ht, htcount⟩ := hone "\x7b1 JetEta 1 JetPt x\x7d\n-5 0 3 0 9 1\n".toList
    (by with_unfolding_all rfl) (by with_unfolding_all decide) (by with_unfolding_all rfl)
    (by with_unfolding_all rfl)
  obtain ⟨u, hu, hucount⟩ := hone "\n\x7b1 JetEta 1 JetPt x\x7d\n0 5 3 0 9 2\n".toList
    (by with_unfolding_all rfl) (by with_unfolding_all decide) (by with_unfolding_all rfl)
    (by with_unfolding_all rfl)
  have hopens : OpensWithHeading "\n\x7b1 JetEta 1 JetPt x\x7d\n0 5 3 0 9 2\n".toList :=
    ⟨[[]], "\x7b1 JetEta 1 JetPt x\x7d".toList, ["0 5 3 0 9 2".toList], 1, 1, by decide, by decide,
      by decide, by decide, by decide, by decide⟩
  obtain ⟨hiff, hentries, -⟩ :=
    (parse_append "table" (Or.inr (by decide)) _).2.2.2 t ht hopens
  obtain ⟨v, hv⟩ := hiff.2 ⟨u, hu⟩
  exact ⟨t, u, v, ht, hu, hv, htcount, hucount, (hentries u v hu hv).1⟩

end Correction

end JetEnergy
