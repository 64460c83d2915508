import JetEnergy.Proofs.Correction.Accesses
import JetEnergy.Proofs.Uncertainty.Reading
import JetEnergy.Uncertainty.Positions

/-!
  Reading an uncertainty file without leaving a list.

  * `guardedEntry_eq`: decoding a row by positions fails where the row lacks a
    bound, and nowhere else.
  * `windowsIn_eq_iff`: the bounds of a row come from the fields that its context
    counts exactly if the context counts every bin that it names.
  * `reads_counted_fields` says for the lines of a file when its reading halts,
    and which fields its table is read from.
-/
namespace JetEnergy.Uncertainty

open TableFile

/-! ## Rows by positions -/

theorem guardedWindow_eq {fields : List Field} {i : Nat} (h : 2 * i + 1 < fields.length)
    (o : Observable) : guardedWindow fields o i =
      .ok (Window.ofBounds o (Decimal.leadingFloat fields[2 * i])
        (Decimal.leadingFloat fields[2 * i + 1])) := by
  rw [guardedWindow, entry_eq (Nat.lt_of_succ_lt h), entry_eq h]
  rfl

theorem guardedWindow_eq_error {fields : List Field} {i : Nat} (h : fields.length ≤ 2 * i + 1)
    (o : Observable) : guardedWindow fields o i = .error .outside := by
  rw [guardedWindow, entry_eq_error h]
  by_cases hlow : 2 * i < fields.length
  · rw [entry_eq hlow]
    rfl
  · rw [entry_eq_error (Nat.not_lt.1 hlow)]
    rfl

theorem guardedWindows_eq (position : Nat) (os : List Observable) (fields : List Field) (n : Nat) :
    (os.zipIdx n).mapM (fun (o, i) => guardedWindow fields o i) =
      (windowsFrom position os (fields.drop (2 * n))).mapError fun _ => .outside := by
  induction os generalizing position n with
  | nil => rfl
  | cons o os ih =>
    simp only [List.zipIdx_cons, List.mapM_cons]
    by_cases h : 2 * n + 1 < fields.length
    · rw [guardedWindow_eq h, ih (position + 1),
        List.drop_eq_getElem_cons (Nat.lt_of_succ_lt h), List.drop_eq_getElem_cons h, windowsFrom,
        show 2 * (n + 1) = 2 * n + 1 + 1 by omega]
      simp only [bind, Except.bind, pure, Except.pure]
      cases windowsFrom (position + 1) os (fields.drop (2 * n + 1 + 1)) <;> rfl
    · have hlength : ¬ 2 * (o :: os).length ≤ (fields.drop (2 * n)).length := by
        rw [List.length_drop, List.length_cons]
        omega
      rw [guardedWindow_eq_error (Nat.not_lt.1 h), windowsFrom_eq, if_neg hlength]
      rfl

theorem guardedNodes_eq : ∀ fields : List Field,
    (triples fields).mapM guardedNode = .ok (nodesOf fields)
  | [] | [_] | [_, _] => rfl
  | pt :: low :: high :: rest => by
    rw [triples, List.mapM_cons, guardedNodes_eq rest]
    rfl

/-- **An access to a row fails only where the row lacks a bound**, as long as
    the positions in it are words. -/
theorem guardedEntry_eq {r : Row} (hfits : 2 * r.context.binCount + 1 < Decimal.indexBound)
    (hlength : r.fields.length < Decimal.indexBound) :
    guardedEntry r = (Entry.ofRow? r).mapError fun _ => .outside := by
  rw [guardedEntry, Entry.ofRow?]
  simp only [word_eq hfits, bind, Except.bind]
  split
  · next hshort =>
    rw [List.drop_eq_nil_of_le (Nat.lt_succ_iff.1 hshort)]
    rfl
  · next hlong =>
    have hlt : 2 * r.context.binCount < r.fields.length := Nat.lt_of_lt_of_le (Nat.lt_succ_self _)
      (Nat.not_lt.1 hlong)
    rw [guardedWindows_eq 0, Nat.mul_zero, List.drop_zero, List.drop_eq_getElem_cons hlt]
    cases windowsFrom 0 r.context.bins r.fields with
    | error bin => rfl
    | ok windows =>
      have hvalues : ∀ declared, slice r.fields (2 * r.context.binCount + 1)
          (2 * r.context.binCount + 1 +
            min declared (r.fields.length - 2 * r.context.binCount - 1)) =
          .ok ((r.fields.drop (2 * r.context.binCount + 1)).take declared) := by
        intro declared
        rw [slice_eq (by omega), Nat.sub_sub, ← List.length_drop, ← List.take_eq_take_min]
      simp only [Except.mapError]
      rw [entry_eq hlt, less_eq (Nat.le_of_lt hlt)]
      dsimp only
      rw [less_eq (by omega)]
      dsimp only
      rw [word_eq (by omega)]
      dsimp only
      rw [hvalues]
      dsimp only
      rw [guardedNodes_eq]
      rfl

theorem guardedRows_eq (rows : List Row)
    (h : ∀ r ∈ rows, guardedEntry r = (Entry.ofRow? r).mapError fun _ => .outside) :
    (rows.mapM guardedEntry).map List.reduceOption =
      ((rows.filter isLong).mapM boundedEntry).mapError fun _ => .outside := by
  induction rows with
  | nil => rfl
  | cons r rows ih =>
    obtain ⟨hrow, hrows⟩ := List.forall_mem_cons.1 h
    have hrest := ih hrows
    rw [List.mapM_cons, hrow, ofRow?_eq]
    cases hlong : isLong r with
    | false =>
      rw [List.filter_cons_of_neg (by simp [hlong]), ← hrest]
      cases rows.mapM guardedEntry <;> rfl
    | true =>
      rw [List.filter_cons_of_pos hlong, List.mapM_cons]
      cases boundedEntry r with
      | error halt => rfl
      | ok e =>
        cases hguarded : rows.mapM guardedEntry with
        | error fault =>
          rw [hguarded] at hrest
          cases hbounded : (rows.filter isLong).mapM boundedEntry with
          | error halt => rw [hbounded] at hrest; cases hrest; rfl
          | ok es => rw [hbounded] at hrest; cases hrest
        | ok answers =>
          rw [hguarded] at hrest
          cases hbounded : (rows.filter isLong).mapM boundedEntry with
          | error halt => rw [hbounded] at hrest; cases hrest
          | ok es => rw [hbounded] at hrest; cases hrest; rfl

/-! ## Fields that are counted -/

theorem ofPairs_pairUp_take {os : List Observable} {fields : List Field} {n : Nat}
    (h : 2 * os.length ≤ n) :
    Window.ofPairs os (pairUp ((fields.take n).map Decimal.leadingFloat)) =
      Window.ofPairs os (pairUp (fields.map Decimal.leadingFloat)) := by
  induction os generalizing fields n with
  | nil => rfl
  | cons o os ih =>
    match fields with
    | [] => rw [List.take_nil]
    | [field] =>
      have hone : [field].length ≤ n := by
        rw [List.length_cons] at h ⊢
        rw [List.length_nil]
        omega
      rw [List.take_of_length_le hone]
    | low :: high :: rest =>
      obtain ⟨m, rfl⟩ : ∃ m, n = m + 1 + 1 := ⟨n - 2, by rw [List.length_cons] at h; omega⟩
      have hm : 2 * os.length ≤ m := by rw [List.length_cons] at h; omega
      exact congrArg (List.cons _) (ih hm)

/-- The bounds of a row are within the fields that its context counts exactly if
    the context counts every bin that it names. -/
theorem windowsIn_eq_iff {r : Row} (h : 2 * r.context.bins.length ≤ r.fields.length) :
    windowsIn r (2 * r.context.bins.length) = windowsIn r (2 * r.context.binCount) ↔
      r.context.bins.length ≤ r.context.binCount := by
  constructor
  · intro heq
    have hlength := congrArg List.length heq
    simp only [windowsIn, Correction.length_ofPairs, Correction.length_pairUp, List.length_map,
      List.length_take] at hlength
    omega
  · intro hle
    rw [windowsIn, windowsIn, ofPairs_pairUp_take (Nat.le_refl _), ofPairs_pairUp_take (by omega)]

/-- **Which fields an uncertainty file is read from.**  In a text whose positions
    are words, and whose contexts leave room for the position after their bins,
    an access fails only if the reading halts. It does so exactly if a row that
    is not dropped lacks a bound for a bin that its context names. Otherwise the
    entries of the table are those of the rows that are not dropped, in order.
    Every one of them takes its bounds from the fields that its context counts,
    and none from the number of its nodes or the nodes, exactly if no such
    context names more bins than it counts. -/
theorem reads_counted_fields {text : List Char} (hlength : text.length < Decimal.indexBound)
    (h : ∀ c ∈ contextsOf text, 2 * c.binCount + 1 < Decimal.indexBound) (source : String) :
    guardedEntries text =
      ((Table.parse source text).map Table.entries).mapError (fun _ => .outside) ∧
    ((∃ t, Table.parse source text = .ok t) ↔
      ∀ r ∈ longRows text, 2 * r.context.bins.length ≤ r.fields.length) ∧
    (∀ t, Table.parse source text = .ok t → t.entries = (longRows text).map entryOf) ∧
    ((∃ t, Table.parse source text = .ok t ∧
        List.Forall₂ (fun r e => e.line = r.line ∧ e.bins = windowsIn r (2 * r.context.binCount))
          (longRows text) t.entries) ↔
      ∀ r ∈ longRows text, r.context.bins.length ≤ r.context.binCount) := by
  refine ⟨?_, exists_parse_iff source text, fun t => entries_of_parse,
    fun ⟨t, ht, hcounted⟩ r hr => ?_, fun hcounted => ?_⟩
  · have hrows := guardedRows_eq (rowsAmong (events text)) fun r hr =>
      guardedEntry_eq (h _ (context_mem_contextsOf hr))
        (Nat.lt_of_le_of_lt (length_row_le hr) hlength)
    rw [entries_parse, longRows, ← hrows, guardedEntries, guardedEvents_of_length hlength]
    simp only [bind, Except.bind]
    cases (rowsAmong (events text)).mapM guardedEntry <;> rfl
  · have hbounds := (exists_parse_iff source text).1 ⟨t, ht⟩ r hr
    rw [entries_of_parse ht, List.forall₂_map_right_iff, List.forall₂_same] at hcounted
    exact (windowsIn_eq_iff hbounds).1 (hcounted r hr).2
  · have hbounds : ∀ r ∈ longRows text, 2 * r.context.bins.length ≤ r.fields.length := by
      intro r hr
      have hlong := isLong_iff.1 (List.mem_filter.1 hr).2
      have hle := hcounted r hr
      omega
    obtain ⟨t, ht⟩ := (exists_parse_iff source text).2 hbounds
    refine ⟨t, ht, ?_⟩
    rw [entries_of_parse ht, List.forall₂_map_right_iff, List.forall₂_same]
    exact fun r hr => ⟨rfl, (windowsIn_eq_iff (hbounds r hr)).2 (hcounted r hr)⟩

/-- A heading that is too short counts one of the two bins that its context
    names. A row with the bounds of that one only ends the reading; a longer row
    gives the other bin the number of its nodes and the momentum of the first
    one as bounds. -/
theorem reads_counted_fields_of_narrowed_rows :
    Table.parse "table"
      "\x7b2 JetEta JetPhi 0 None\x7d\n\x7b1 JetEta\x7d\n-5 5 0\n".toList =
        .error (.missingBound 3 1) ∧
    ∃ t e, Table.parse "table"
      "\x7b2 JetEta JetPhi 0 None\x7d\n\x7b1 JetEta\x7d\n-5 5 3 10 0.1 0.2\n".toList = .ok t ∧
      t.entries = [e] ∧ e.bins.length = 2 := by
  constructor
  · obtain ⟨r, hrows, hline, hfields, hbins⟩ : ∃ r, longRows
        "\x7b2 JetEta JetPhi 0 None\x7d\n\x7b1 JetEta\x7d\n-5 5 0\n".toList = [r] ∧
        r.line = 3 ∧ r.fields.length = 3 ∧ r.context.bins.length = 2 :=
      ⟨_, by with_unfolding_all rfl, rfl, rfl, rfl⟩
    refine parse_error_iff.2 ⟨[], r, [], hrows, List.forall_mem_nil _, ?_, ?_⟩
    · rw [hfields, hbins]
      decide
    · rw [hline, hfields]
  · obtain ⟨r, hrows, hfields, hbins⟩ : ∃ r, longRows
        "\x7b2 JetEta JetPhi 0 None\x7d\n\x7b1 JetEta\x7d\n-5 5 3 10 0.1 0.2\n".toList = [r] ∧
        r.fields.length = 6 ∧ r.context.bins.length = 2 :=
      ⟨_, by with_unfolding_all rfl, rfl, rfl⟩
    obtain ⟨-, hparse, hentries, -⟩ := @reads_counted_fields
      "\x7b2 JetEta JetPhi 0 None\x7d\n\x7b1 JetEta\x7d\n-5 5 3 10 0.1 0.2\n".toList
      (by decide) (by decide) "table"
    obtain ⟨t, ht⟩ := hparse.2 fun r' hr' => by
      rw [hrows, List.mem_singleton] at hr'
      rw [hr', hfields, hbins]
      decide
    refine ⟨t, entryOf r, ht, by rw [hentries t ht, hrows]; rfl, ?_⟩
    rw [entryOf, windowsIn, Correction.length_ofPairs, Correction.length_pairUp, List.length_map,
      List.length_take, hfields, hbins]
    rfl

end JetEnergy.Uncertainty
