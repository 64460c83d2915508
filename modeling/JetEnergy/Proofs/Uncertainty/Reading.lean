import JetEnergy.Uncertainty.Table
import JetEnergy.Proofs.TableFile.Appending

/-!
  Reading an uncertainty file.

  * `readRow_ok_some_iff`: an accepted row puts its entry in front of the
    entries before it.
  * `longRows` are the rows that are not dropped, and `entryOf` is what such a row
    decodes to if it has bounds for every bin.  `exists_parse_iff`, `parse_error_iff`:
    when a file has a table, and which row is to blame if it has none.
  * `length_nodesOf`, `triple_nodesOf`: the nodes in a list of fields are its
    complete triples, in order.
  * `entries_prefix`: the entries of a text stay in front if something is added
    to it, and so does what is found among them.
-/
namespace JetEnergy.Uncertainty

open TableFile

theorem readRow_ok_some_iff {entries entries' : List Entry} {r : Row} :
    readRow entries r = .ok (some entries') ↔
      ∃ e, Entry.ofRow? r = .ok (some e) ∧ entries' = e :: entries := by
  unfold readRow
  cases Entry.ofRow? r with
  | error halt => simp
  | ok answer =>
    cases answer with
    | none => simp
    | some e => simp [eq_comm]

/-! ## Entries of rows -/

/-- Whether a row has the fields that its context counts: two for every bin, and
    the number of what follows. -/
def isLong (r : Row) : Bool :=
  2 * r.context.binCount < r.fields.length

theorem isLong_iff {r : Row} : isLong r = true ↔ 2 * r.context.binCount < r.fields.length :=
  decide_eq_true_iff

/-- The rows of a file that are not dropped. -/
def longRows (text : List Char) : List Row :=
  (rowsAmong (events text)).filter isLong

/-- The windows that the first `n` fields of a row give its bins. -/
def windowsIn (r : Row) (n : Nat) : List Window :=
  Window.ofPairs r.context.bins (pairUp ((r.fields.take n).map Decimal.leadingFloat))

/-- The nodes of a row: as many numbers as it says, three each. -/
def nodesIn (r : Row) : List (Node Float) :=
  match r.fields.drop (2 * r.context.binCount) with
  | [] => []
  | count :: values => nodesOf (values.take (Decimal.leadingInt count).toNat)

/-- The entry of a row with two bounds for every bin that its context names. -/
def entryOf (r : Row) : Entry :=
  ⟨windowsIn r (2 * r.context.bins.length), nodesIn r, r.line⟩

/-- The entry of a long row. -/
def boundedEntry (r : Row) : Except Halt Entry :=
  if 2 * r.context.bins.length ≤ r.fields.length then .ok (entryOf r)
  else .error (.missingBound r.line (r.fields.length / 2))

theorem windowsFrom_eq (position : Nat) (os : List Observable) (fields : List Field) :
    windowsFrom position os fields =
      if 2 * os.length ≤ fields.length then
        .ok (Window.ofPairs os (pairUp ((fields.take (2 * os.length)).map Decimal.leadingFloat)))
      else .error (position + fields.length / 2) := by
  induction os generalizing position fields with
  | nil => rfl
  | cons o os ih =>
    match fields with
    | [] => rfl
    | [_] =>
      rw [if_neg (by simp only [List.length_cons, List.length_nil]; omega)]
      simp [windowsFrom]
    | low :: high :: rest =>
      have htake : (low :: high :: rest).take (2 * (o :: os).length) =
          low :: high :: rest.take (2 * os.length) := rfl
      rw [windowsFrom, ih, htake]
      by_cases h : 2 * os.length ≤ rest.length
      · rw [if_pos h, if_pos (by simp only [List.length_cons]; omega)]
        rfl
      · rw [if_neg h, if_neg (by simp only [List.length_cons]; omega)]
        simp only [Except.map, List.length_cons]
        congr 1
        omega

theorem ofRow?_eq (r : Row) :
    Entry.ofRow? r = if isLong r then (boundedEntry r).map some else .ok none := by
  rw [Entry.ofRow?]
  split
  · next hdrop =>
    rw [if_neg (mt isLong_iff.1 (Nat.not_lt.2 (List.drop_eq_nil_iff.1 hdrop)))]
  · next count values hdrop =>
    have hlong : 2 * r.context.binCount < r.fields.length := by
      refine Nat.not_le.1 fun hle => ?_
      rw [List.drop_eq_nil_iff.2 hle] at hdrop
      cases hdrop
    rw [if_pos (isLong_iff.2 hlong), windowsFrom_eq, boundedEntry, entryOf, nodesIn, windowsIn,
      hdrop]
    by_cases hbounds : 2 * r.context.bins.length ≤ r.fields.length
    · rw [if_pos hbounds, if_pos hbounds]
      rfl
    · rw [if_neg hbounds, if_neg hbounds, Nat.zero_add]
      rfl

theorem foldlM_readRow (rows : List Row) (entries : List Entry) :
    rows.foldlM (fun s r => (readRow s r).map (·.getD s)) entries =
      ((rows.filter isLong).mapM boundedEntry).map (·.reverse ++ entries) := by
  induction rows generalizing entries with
  | nil => rfl
  | cons r rows ih =>
    rw [List.foldlM_cons, readRow, ofRow?_eq]
    cases hlong : isLong r with
    | false =>
      rw [List.filter_cons_of_neg (by simp [hlong])]
      exact ih entries
    | true =>
      rw [List.filter_cons_of_pos hlong, List.mapM_cons]
      cases boundedEntry r with
      | error halt => rfl
      | ok e =>
        refine (ih (e :: entries)).trans ?_
        cases (rows.filter isLong).mapM boundedEntry with
        | error halt => rfl
        | ok rest =>
          exact congrArg Except.ok (by simp)

/-- The entries of a file are those of its long rows, in order. -/
theorem entries_parse (source : String) (text : List Char) :
    (Table.parse source text).map Table.entries = (longRows text).mapM boundedEntry := by
  have hparse : (Table.parse source text).map Table.entries =
      ((scan readRow [] text).map Prod.fst).map List.reverse := by
    rw [Table.parse]
    cases scan readRow [] text <;> rfl
  rw [hparse, scan_eq_foldlM, foldlM_readRow, ← longRows]
  cases (longRows text).mapM boundedEntry with
  | error halt => rfl
  | ok entries => exact congrArg Except.ok (by simp)

theorem exists_boundedEntry_iff {r : Row} :
    (∃ e, boundedEntry r = .ok e) ↔ 2 * r.context.bins.length ≤ r.fields.length := by
  rw [boundedEntry]
  split <;> simp [*]

/-- A file has a table if no long row lacks a bound. -/
theorem exists_parse_iff (source : String) (text : List Char) :
    (∃ t, Table.parse source text = .ok t) ↔
      ∀ r ∈ longRows text, 2 * r.context.bins.length ≤ r.fields.length := by
  rw [← exists_map_iff (f := Table.entries), entries_parse, exists_mapM_iff]
  exact forall₂_congr fun r _ => exists_boundedEntry_iff

theorem boundedEntry_eq_error_iff {r : Row} {halt : Halt} :
    boundedEntry r = .error halt ↔ r.fields.length < 2 * r.context.bins.length ∧
      halt = .missingBound r.line (r.fields.length / 2) := by
  rw [boundedEntry]
  split
  · next hle => simp [Nat.not_lt.2 hle]
  · next hlt => simp [Nat.not_le.1 hlt, eq_comm]

/-- A file without a table halts at the first long row that lacks a bound. -/
theorem parse_error_iff {source : String} {text : List Char} {halt : Halt} :
    Table.parse source text = .error halt ↔
      ∃ above r below, longRows text = above ++ r :: below ∧
        (∀ r' ∈ above, 2 * r'.context.bins.length ≤ r'.fields.length) ∧
        r.fields.length < 2 * r.context.bins.length ∧
        halt = .missingBound r.line (r.fields.length / 2) := by
  rw [← map_error_iff (f := Table.entries), entries_parse, mapM_error_iff]
  simp only [exists_boundedEntry_iff, boundedEntry_eq_error_iff]

/-- The entries of a table are what its long rows say. -/
theorem entries_of_parse {source : String} {text : List Char} {t : Table}
    (h : Table.parse source text = .ok t) : t.entries = (longRows text).map entryOf := by
  have hall := entries_parse source text
  rw [h] at hall
  have heach := mapM_ok_iff.1 hall.symm
  rw [← List.forall₂_eq_eq_eq, List.forall₂_map_right_iff]
  refine heach.flip.imp fun e r he => ?_
  rw [boundedEntry] at he
  split at he
  · exact (Except.ok.inj he).symm
  · cases he

/-! ## Nodes in fields -/

theorem length_nodesOf (fields : List Field) : (nodesOf fields).length = fields.length / 3 := by
  fun_induction nodesOf fields with
  | case1 pt low high rest ih =>
    simp only [List.length_cons, ih]
    omega
  | case2 fields hfew =>
    match fields with
    | [] => rfl
    | [_] | [_, _] => simp
    | pt :: low :: high :: rest => exact absurd rfl (hfew pt low high rest)

/-- The node number `j` stands in the fields from number `3 * j` on. -/
theorem triple_nodesOf {fields : List Field} {j : Nat} {n : Node Float}
    (h : (nodesOf fields)[j]? = some n) :
    ((fields.drop (3 * j)).take 3).map Decimal.leadingFloat = [n.pt, n.low, n.high] := by
  fun_induction nodesOf fields generalizing j with
  | case1 pt low high rest ih =>
    cases j with
    | zero => cases h; rfl
    | succ j => exact ih h
  | case2 => cases h

/-- What the nodes of a long row are. -/
theorem nodesIn_spec {r : Row} (h : isLong r = true) :
    ∃ count values, r.fields.drop (2 * r.context.binCount) = count :: values ∧
      (nodesIn r).length = min (Decimal.leadingInt count).toNat values.length / 3 ∧
      ∀ j n, (nodesIn r)[j]? = some n →
        ((values.drop (3 * j)).take 3).map Decimal.leadingFloat = [n.pt, n.low, n.high] := by
  cases hdrop : r.fields.drop (2 * r.context.binCount) with
  | nil => exact absurd (List.drop_eq_nil_iff.1 hdrop) (Nat.not_le.2 (isLong_iff.1 h))
  | cons count values =>
    have hnodes : nodesIn r = nodesOf (values.take (Decimal.leadingInt count).toNat) := by
      rw [nodesIn, hdrop]
    refine ⟨count, values, rfl, ?_, fun j n hj => ?_⟩
    · rw [hnodes, length_nodesOf, List.length_take]
    · rw [hnodes] at hj
      have hlt : j < (nodesOf (values.take (Decimal.leadingInt count).toNat)).length :=
        (List.getElem?_eq_some_iff.1 hj).1
      rw [length_nodesOf, List.length_take] at hlt
      rw [← triple_nodesOf hj, List.drop_take, List.take_take, Nat.min_eq_left (by omega)]

/-! ## Longer texts -/

/-- The entries of a text stay in front if something is added to it. -/
theorem entries_prefix {source : String} {a : List Char} (ha : Text.Terminated a) {b : List Char}
    {t t' : Table} (ht : Table.parse source a = .ok t)
    (ht' : Table.parse source (a ++ b) = .ok t') :
    t.entries <+: t'.entries := by
  unfold Table.parse at ht ht'
  cases hscan : scan readRow [] a with
  | error halt => rw [hscan] at ht; cases ht
  | ok found =>
    rw [hscan] at ht
    cases ht
    have hscan' : scan readRow [] (a ++ b) = scanEvents readRow found.1 found.2 (eventsFrom
        ((linesOf a).foldl contextAfter none) (1 + (Text.lines a).length) (linesOf b)) := by
      rw [scan, events_append ha, scanEvents_append, show scanEvents readRow [] {} (events a) =
        .ok found from hscan]
      rfl
    cases hrest : scan readRow [] (a ++ b) with
    | error halt => rw [hrest] at ht'; cases ht'
    | ok found' =>
      rw [hrest] at ht'
      cases ht'
      have hsuffix : found.1 <:+ found'.1 :=
        scanEvents_keeps readRow (P := (found.1 <:+ ·))
          (fun s r s' hs hr => by
            obtain ⟨e, -, rfl⟩ := readRow_ok_some_iff.1 hr
            exact hs.trans (List.suffix_cons e s))
          (List.suffix_refl _) (hscan'.symm.trans hrest)
      exact List.reverse_prefix.2 hsuffix

/-- What is found first is found first if something is added. -/
theorem find?_of_entries_prefix {t t' : Table} (h : t.entries <+: t'.entries) {jet : Jet}
    {e : Entry} (he : t.find? jet = some e) :
    t'.find? jet = some e ∧ t'.band jet = t.band jet := by
  have he' : t'.find? jet = some e := List.IsPrefix.find?_eq_some h he
  exact ⟨he', by rw [Table.band, he', Table.band, he]⟩

end JetEnergy.Uncertainty
