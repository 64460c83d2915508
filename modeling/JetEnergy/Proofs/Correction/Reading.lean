import Mathlib.Data.List.Dedup
import JetEnergy.Proofs.Correction.Entries

/-!
  Reading a correction file without sharing formulas.

  * A row is long if it has as many fields as its context asks for: `isLong`.
    `readRow` reads a row and compiles its formula anew; `readRow_cases` are the
    ways this can go.  A row is `Readable` if the reading goes on behind it.
  * `readFresh` reads rows one after the other.  `Pool.Shares` is what a pool
    keeps; `scanEvents_row`: with it, reading goes as `readFresh` does.
  * `parse_error_iff`, `parse_ok` and `exists_parse` say the same of a table.
    Nothing after them looks at a pool.
  * `sharing_is_unobservable`: which row a failed or halted reading stops at, and
    what a successful one gives.
-/
namespace JetEnergy.Correction

open TableFile Formula

/-! ## Rows -/

/-- Whether a row has as many fields as its context asks for. -/
def isLong (r : Row) : Bool :=
  leastFields r.context ≤ r.fields.length

/-- The text of the formula of a long row, folded if it has four dependencies. -/
def textOf (r : Row) : List Char :=
  formulaText r.context.formula (.ofFields r.context r.fields)

/-- The formula of a long row, compiled anew. -/
def compileRow (r : Row) : Except FormulaError Formula :=
  Formula.compile (textOf r) (formulaArity (.ofFields r.context r.fields))

/-- The entry of a long row with its formula. -/
def entryOf (r : Row) (f : Formula) : Entry :=
  { Ranges.ofFields r.context r.fields with formula := f, line := r.line }

/-- Reads a row that would be entry `index`, and compiles its formula anew. -/
def readRow (source : String) (index : Nat) (r : Row) : Except (Stop LoadError) (Option Entry) :=
  match Ranges.ofRow? r with
  | .error h => .error (.halt h)
  | .ok none => .ok none
  | .ok (some _) =>
    match compileRow r with
    | .error e => .error (.failure (.badFormula source r.line index (String.ofList (textOf r)) e))
    | .ok f => .ok (some (entryOf r f))

/-- A row that a reading goes on behind: its widths fit in a word, and its formula
    compiles if it is long. -/
def Readable (r : Row) : Prop :=
  leastFields r.context < Decimal.indexBound ∧ (isLong r = true → ∃ f, compileRow r = .ok f)

section
variable {source : String} {index : Nat} {r : Row}

theorem isLong_iff : isLong r = true ↔ leastFields r.context ≤ r.fields.length :=
  decide_eq_true_iff

theorem isLong_eq_false_iff : isLong r = false ↔ r.fields.length < leastFields r.context := by
  rw [← Bool.not_eq_true, isLong_iff, Nat.not_le]

/-- A row halts the reading, is dropped, has its formula refused, or becomes an
    entry. -/
theorem readRow_cases (source : String) (index : Nat) (r : Row) :
    (Decimal.indexBound ≤ leastFields r.context ∧
      readRow source index r = .error (.halt (.tooWide r.line))) ∨
    (leastFields r.context < Decimal.indexBound ∧ isLong r = false ∧
      readRow source index r = .ok none) ∨
    (leastFields r.context < Decimal.indexBound ∧ isLong r = true ∧
      ((∃ e, compileRow r = .error e ∧ readRow source index r =
          .error (.failure (.badFormula source r.line index (String.ofList (textOf r)) e))) ∨
        ∃ f, compileRow r = .ok f ∧ readRow source index r = .ok (some (entryOf r f)))) := by
  rw [readRow]
  cases hdecode : Ranges.ofRow? r with
  | error halt =>
    obtain ⟨hwide, rfl⟩ := ofRow?_error_iff.1 hdecode
    exact Or.inl ⟨hwide, rfl⟩
  | ok decoded =>
    cases decoded with
    | none =>
      obtain ⟨hword, hshort⟩ := ofRow?_ok_none_iff.1 hdecode
      exact Or.inr (Or.inl ⟨hword, isLong_eq_false_iff.2 hshort, rfl⟩)
    | some ranges =>
      obtain ⟨hword, hlong, -⟩ := ofRow?_ok_some_iff.1 hdecode
      refine Or.inr (Or.inr ⟨hword, isLong_iff.2 hlong, ?_⟩)
      dsimp only
      cases compileRow r with
      | error e => exact Or.inl ⟨e, rfl, rfl⟩
      | ok f => exact Or.inr ⟨f, rfl, rfl⟩

/-- A row whose widths are no word halts the reading. -/
theorem readRow_halt_iff {halt : Halt} : readRow source index r = .error (.halt halt) ↔
    Decimal.indexBound ≤ leastFields r.context ∧ halt = .tooWide r.line := by
  rcases readRow_cases source index r with
    ⟨hwide, hread⟩ | ⟨hword, -, hread⟩ | ⟨hword, -, ⟨e, -, hread⟩ | ⟨f, -, hread⟩⟩
  · rw [hread]
    simp [hwide, eq_comm]
  all_goals
    rw [hread]
    simp [Nat.not_le.2 hword]

/-- A long row whose formula is refused fails the reading. -/
theorem readRow_failure_iff {err : LoadError} : readRow source index r = .error (.failure err) ↔
    leastFields r.context < Decimal.indexBound ∧ isLong r = true ∧ ∃ e, compileRow r = .error e ∧
      err = .badFormula source r.line index (String.ofList (textOf r)) e := by
  rcases readRow_cases source index r with
    ⟨hwide, hread⟩ | ⟨-, hshort, hread⟩ | ⟨hword, hlong, ⟨e, he, hread⟩ | ⟨f, hf, hread⟩⟩
  · rw [hread]
    simp [Nat.not_lt.2 hwide]
  · rw [hread]
    simp [hshort]
  · rw [hread]
    simp [hword, hlong, he, eq_comm]
  · rw [hread]
    simp [hf]

theorem readable_iff : Readable r ↔ ∃ answer, readRow source index r = .ok answer := by
  rw [Readable]
  rcases readRow_cases source index r with
    ⟨hwide, hread⟩ | ⟨hword, hshort, hread⟩ | ⟨hword, hlong, ⟨e, he, hread⟩ | ⟨f, hf, hread⟩⟩
  · rw [hread]
    simp [Nat.not_lt.2 hwide]
  · rw [hread]
    simp [hword, hshort]
  · rw [hread]
    simp [hlong, he]
  · rw [hread]
    simp [hword, hf]

theorem readRow_ok_none_iff : readRow source index r = .ok none ↔
    leastFields r.context < Decimal.indexBound ∧ isLong r = false := by
  rcases readRow_cases source index r with
    ⟨hwide, hread⟩ | ⟨hword, hshort, hread⟩ | ⟨-, hlong, ⟨e, -, hread⟩ | ⟨f, -, hread⟩⟩
  · rw [hread]
    simp [Nat.not_lt.2 hwide]
  · rw [hread]
    simp [hword, hshort]
  all_goals
    rw [hread]
    simp [hlong]

/-- A row becomes an entry if this is the entry that is read from it. -/
theorem readRow_ok_some_iff {e : Entry} :
    readRow source index r = .ok (some e) ↔ e.ReadFrom r := by
  constructor
  · intro h
    rcases readRow_cases source index r with
      ⟨-, hread⟩ | ⟨-, -, hread⟩ | ⟨hword, hlong, ⟨_, -, hread⟩ | ⟨f, hf, hread⟩⟩
    any_goals cases hread.symm.trans h
    exact ⟨rfl, ofRow?_ok_some_iff.2 ⟨hword, isLong_iff.1 hlong, rfl⟩, hf⟩
  · obtain ⟨ranges, f, line⟩ := e
    rintro ⟨hline, hdecode, hf⟩
    obtain ⟨-, -, hranges⟩ := ofRow?_ok_some_iff.1 hdecode
    obtain rfl : line = r.line := hline
    obtain rfl : ranges = .ofFields r.context r.fields := hranges
    have hcompile : compileRow r = .ok f := hf
    rw [readRow, hdecode]
    dsimp only
    rw [hcompile]
    rfl

theorem entryOf_readFrom {f : Formula} (hword : leastFields r.context < Decimal.indexBound)
    (hlong : isLong r = true) (hf : compileRow r = .ok f) : (entryOf r f).ReadFrom r :=
  ⟨rfl, ofRow?_ok_some_iff.2 ⟨hword, isLong_iff.1 hlong, rfl⟩, hf⟩

theorem Entry.ReadFrom.isLong {e : Entry} (h : e.ReadFrom r) : isLong r = true :=
  isLong_iff.2 (ofRow?_ok_some_iff.1 h.ranges).2.1

end

/-! ## Reading without a pool -/

/-- The entries of rows, the first of which would be entry `index`. The first row
    that is not readable ends the reading. -/
def readFresh (source : String) (index : Nat) : List Row → Except (Stop LoadError) (List Entry)
  | [] => .ok []
  | r :: rows =>
    match readRow source index r with
    | .error stop => .error stop
    | .ok none => readFresh source index rows
    | .ok (some e) => (readFresh source (index + 1) rows).map (e :: ·)

/-- A reading goes through if the widths of every row fit in a word and each long
    row has its entry. -/
theorem readFresh_ok_iff {source : String} {index : Nat} {rows : List Row}
    {entries : List Entry} : readFresh source index rows = .ok entries ↔
      (∀ r ∈ rows, leastFields r.context < Decimal.indexBound) ∧
        List.Forall₂ Entry.ReadFrom entries (rows.filter isLong) := by
  induction rows generalizing index entries with
  | nil => simp [readFresh, eq_comm]
  | cons r rows ih =>
    rw [readFresh, List.forall_mem_cons]
    cases hread : readRow source index r with
    | error stop =>
      simp only [reduceCtorEq, false_iff]
      rintro ⟨⟨hword, -⟩, hentries⟩
      have hreadable : Readable r := by
        refine ⟨hword, fun hlong => ?_⟩
        rw [List.filter_cons_of_pos hlong, List.forall₂_cons_right_iff] at hentries
        obtain ⟨e, es, he, -, -⟩ := hentries
        obtain ⟨-, -, hranges⟩ := ofRow?_ok_some_iff.1 he.ranges
        exact ⟨e.formula, by rw [compileRow, textOf, ← hranges]; exact he.formula⟩
      obtain ⟨answer, hanswer⟩ := readable_iff.1 hreadable
      cases hread.symm.trans hanswer
    | ok answer =>
      cases answer with
      | none =>
        obtain ⟨hword, hshort⟩ := readRow_ok_none_iff.1 hread
        rw [List.filter_cons_of_neg (by simp [hshort])]
        dsimp only
        rw [ih, and_iff_right hword]
      | some e =>
        have he := readRow_ok_some_iff.1 hread
        have hword := (ofRow?_ok_some_iff.1 he.ranges).1
        rw [List.filter_cons_of_pos he.isLong, List.forall₂_cons_right_iff, and_iff_right hword]
        dsimp only
        rw [map_ok_iff]
        constructor
        · rintro ⟨es, hes, rfl⟩
          obtain ⟨hwords, hall⟩ := ih.1 hes
          exact ⟨hwords, e, es, he, hall, rfl⟩
        · rintro ⟨hwords, e', es, he', hall, rfl⟩
          have hsame : readRow source index r = .ok (some e') := readRow_ok_some_iff.2 he'
          obtain rfl : e = e' := by simpa using hread.symm.trans hsame
          exact ⟨es, ih.2 ⟨hwords, hall⟩, rfl⟩

theorem readFresh_error_iff {source : String} {index : Nat} {rows : List Row}
    {stop : Stop LoadError} : readFresh source index rows = .error stop ↔
      ∃ before r after, rows = before ++ r :: after ∧ (∀ b ∈ before, Readable b) ∧
        readRow source (index + before.countP isLong) r = .error stop := by
  induction rows generalizing index with
  | nil => simp [readFresh]
  | cons r rows ih =>
    -- A first row that can be read stands in front of the one that stops the reading.
    have hsplit : ∀ {answer}, readRow source index r = .ok answer →
        ((∃ before r' after, rows = before ++ r' :: after ∧ (∀ b ∈ before, Readable b) ∧
            readRow source (index + (r :: before).countP isLong) r' = .error stop) ↔
          ∃ before r' after, r :: rows = before ++ r' :: after ∧ (∀ b ∈ before, Readable b) ∧
            readRow source (index + before.countP isLong) r' = .error stop) := by
      intro answer hread
      have hr : Readable r := readable_iff.2 ⟨answer, hread⟩
      constructor
      · rintro ⟨before, r', after, rfl, hbefore, hstop⟩
        exact ⟨r :: before, r', after, rfl, List.forall_mem_cons.2 ⟨hr, hbefore⟩, hstop⟩
      · rintro ⟨before, r', after, hrows, hbefore, hstop⟩
        cases before with
        | nil =>
          cases hrows
          cases hread.symm.trans hstop
        | cons b before =>
          cases hrows
          exact ⟨before, r', after, rfl, (List.forall_mem_cons.1 hbefore).2, hstop⟩
    rw [readFresh]
    cases hread : readRow source index r with
    | error stop' =>
      constructor
      · intro h
        cases h
        exact ⟨[], r, rows, rfl, List.forall_mem_nil _, hread⟩
      · rintro ⟨before, r', after, hrows, hbefore, hstop⟩
        cases before with
        | nil =>
          cases hrows
          have hsame : Except.error stop' = Except.error stop := hread.symm.trans hstop
          exact congrArg Except.error (Except.error.inj hsame)
        | cons b before =>
          cases hrows
          obtain ⟨answer, hanswer⟩ := readable_iff.1 (hbefore r (List.mem_cons_self ..))
          cases hread.symm.trans hanswer
    | ok answer =>
      rw [← hsplit hread]
      cases answer with
      | none =>
        obtain ⟨-, hshort⟩ := readRow_ok_none_iff.1 hread
        simp only [List.countP_cons_of_neg (by simp [hshort] : ¬ isLong r = true)]
        exact ih
      | some e =>
        have hlong := (readRow_ok_some_iff.1 hread).isLong
        simp only [List.countP_cons_of_pos hlong]
        rw [map_error_iff, ih]
        simp only [Nat.add_assoc, Nat.add_comm 1]

/-! ## The pool -/

/-- What a formula is compiled from. -/
def keyOf (f : Formula) : List Char × Nat :=
  (f.source, f.arity)

theorem keyOf_of_compile {source : List Char} {arity : Nat} {f : Formula}
    (h : Formula.compile source arity = .ok f) : keyOf f = (source, arity) := by
  obtain ⟨-, hsource, harity, -⟩ := compile_ok_iff.1 h
  rw [keyOf, hsource, harity]

/-- A pool holds the formulas of some entries, each once. -/
structure Pool.Shares (pool : Pool) (entries : List Entry) : Prop where
  sound : pool.Sound
  nodup : (pool.map keyOf).Nodup
  keys : ∀ k, k ∈ pool.map keyOf ↔ k ∈ entries.map (keyOf ·.formula)

theorem Pool.find?_eq_none_iff {pool : Pool} {source : List Char} {arity : Nat} :
    pool.find? source arity = none ↔ (source, arity) ∉ pool.map keyOf := by
  simp [Pool.find?, List.find?_eq_none, keyOf]

/-- A formula from the pool is the one that would be compiled. -/
theorem Pool.compile_eq {pool : Pool} (hs : pool.Sound) (source : List Char) (arity : Nat) :
    (pool.compile source arity).map Prod.fst = Formula.compile source arity := by
  cases hp : pool.compile source arity with
  | ok found => exact (Pool.compile_sound hs hp).1.symm
  | error e =>
    unfold Pool.compile at hp
    split at hp
    · cases hp
    · cases hc : Formula.compile source arity with
      | error e' => rw [hc] at hp; cases hp; rfl
      | ok f => rw [hc] at hp; cases hp

/-- Compiling from a pool gives what compiling anew gives, and the pool goes on
    to hold the formulas of the entries. -/
theorem Pool.Shares.compile {pool : Pool} {entries : List Entry} (h : pool.Shares entries)
    {source : List Char} {arity : Nat} {f : Formula} (hc : Formula.compile source arity = .ok f) :
    ∃ pool', pool.compile source arity = .ok (f, pool') ∧
      ∀ e : Entry, e.formula = f → Pool.Shares pool' (e :: entries) := by
  have hkey := keyOf_of_compile hc
  cases hfind : pool.find? source arity with
  | some g =>
    have hg : pool.compile source arity = .ok (g, pool) := by rw [Pool.compile, hfind]
    obtain ⟨hc', -⟩ := Pool.compile_sound h.sound hg
    obtain rfl : g = f := Except.ok.inj (hc'.symm.trans hc)
    have hmem : (source, arity) ∈ pool.map keyOf := by
      by_contra hno
      rw [Pool.find?_eq_none_iff.2 hno] at hfind; cases hfind
    refine ⟨pool, hg, fun e he => ⟨h.sound, h.nodup, fun k => ?_⟩⟩
    rw [List.map_cons, he, hkey, List.mem_cons, ← h.keys k]
    constructor
    · exact Or.inr
    · rintro (rfl | hk)
      · exact hmem
      · exact hk
  | none =>
    have hf : pool.compile source arity = .ok (f, f :: pool) := by
      rw [Pool.compile, hfind, hc]; rfl
    refine ⟨f :: pool, hf, fun e he => ⟨(Pool.compile_sound h.sound hf).2, ?_, fun k => ?_⟩⟩
    · rw [List.map_cons, List.nodup_cons, hkey]
      exact ⟨Pool.find?_eq_none_iff.1 hfind, h.nodup⟩
    · rw [List.map_cons, List.map_cons, he, List.mem_cons, List.mem_cons, h.keys k]

/-- A pool has as many formulas as the entries have texts and arities. -/
theorem Pool.Shares.length_eq {pool : Pool} {entries : List Entry} (h : pool.Shares entries) :
    pool.length = (entries.map (keyOf ·.formula)).dedup.length := by
  have hperm : (pool.map keyOf).Perm (entries.map (keyOf ·.formula)).dedup :=
    (List.perm_ext_iff_of_nodup h.nodup (List.nodup_dedup _)).2 fun k => by
      rw [List.mem_dedup, h.keys k]
  rw [← hperm.length_eq, List.length_map]

/-! ## A step and a run -/

/-- What a reading so far has kept: a pool for its entries. -/
def Reading.Shared (s : Reading) : Prop :=
  Pool.Shares s.pool s.entries

/-- Reading a row with a pool gives what reading it anew gives. -/
theorem Reading.row_eq (source : String) {s : Reading} (hs : s.Shared) (r : Row) :
    match readRow source s.entries.length r with
    | .error stop => s.row source r = .error stop
    | .ok none => s.row source r = .ok none
    | .ok (some e) => ∃ s' : Reading, s.row source r = .ok (some s') ∧
        s'.entries = e :: s.entries ∧ s'.Shared := by
  rw [readRow, Reading.row]
  cases hdecode : Ranges.ofRow? r with
  | error halt => rfl
  | ok decoded =>
    cases decoded with
    | none => rfl
    | some ranges =>
      obtain ⟨-, -, rfl⟩ := ofRow?_ok_some_iff.1 hdecode
      dsimp only
      cases hcompile : compileRow r with
      | error e =>
        have hpool := Pool.compile_eq hs.sound (textOf r)
          (formulaArity (.ofFields r.context r.fields))
        have hrefused := map_error_iff.1 (hpool.trans hcompile)
        rw [textOf] at hrefused
        rw [hrefused]
        rfl
      | ok f =>
        obtain ⟨pool, hpool, hshares⟩ := Pool.Shares.compile hs hcompile
        rw [textOf] at hpool
        rw [hpool]
        exact ⟨_, rfl, rfl, hshares _ rfl⟩

/-- Whether a line becomes an entry, if its formula compiles. -/
def isKept : Event → Bool
  | .row r => isLong r
  | _ => false

/-- The tally of events of which the long rows are kept. -/
def tallyFrom (tally : Tally) (es : List Event) : Tally :=
  es.foldl (fun t e => t.after (isKept e) e) tally

theorem tallyFrom_append (tally : Tally) (es fs : List Event) :
    tallyFrom tally (es ++ fs) = tallyFrom (tallyFrom tally es) fs :=
  List.foldl_append ..

theorem tallyFrom_cons_row {r : Row} {kept : Bool} (h : isLong r = kept) (tally : Tally)
    (es : List Event) :
    tallyFrom tally (.row r :: es) = tallyFrom (tally.after kept (.row r)) es := by
  rw [← h]
  rfl

/-- **A run without the pool.**  Reading events gives what reading their rows anew
    gives: what stops it, or the entries and the tally. -/
theorem scanEvents_row (source : String) (es : List Event) {s : Reading} (hs : s.Shared)
    (tally : Tally) :
    match readFresh source s.entries.length (rowsAmong es) with
    | .error stop => scanEvents (Reading.row source) s tally es = .error stop
    | .ok new => ∃ s', scanEvents (Reading.row source) s tally es = .ok (s', tallyFrom tally es) ∧
        s'.entries = new.reverse ++ s.entries ∧ s'.Shared := by
  induction es generalizing s tally with
  | nil => exact ⟨s, rfl, rfl, hs⟩
  | cons e es ih =>
    cases e with
    | row r =>
      have hrow := Reading.row_eq source hs r
      rw [rowsAmong_cons_row, readFresh, scanEvents]
      cases hread : readRow source s.entries.length r with
      | error stop =>
        rw [hread] at hrow
        rw [hrow]
      | ok answer =>
        rw [hread] at hrow
        cases answer with
        | none =>
          rw [hrow, tallyFrom_cons_row (readRow_ok_none_iff.1 hread).2]
          exact ih hs _
        | some e =>
          obtain ⟨s', hs', hentries, hshared⟩ := hrow
          rw [hs', tallyFrom_cons_row (readRow_ok_some_iff.1 hread).isLong]
          have hrest := ih hshared (tally.after true (.row r))
          rw [hentries, List.length_cons] at hrest
          dsimp only
          cases hfresh : readFresh source (s.entries.length + 1) (rowsAmong es) with
          | error stop => rw [hfresh] at hrest; exact hrest
          | ok new =>
            rw [hfresh] at hrest
            obtain ⟨s'', hscan, hnew, hs''⟩ := hrest
            exact ⟨s'', hscan, by simp [hnew], hs''⟩
    | _ => exact ih hs _

/-! ## Tables -/

/-- The tally of a file whose long rows all become entries. -/
def tallyOf (text : List Char) : Tally :=
  tallyFrom {} (events text)

theorem shared_empty : Reading.Shared {} where
  sound := fun f hf => by cases hf
  nodup := .nil
  keys := fun k => Iff.rfl

/-- Reading a file, anew or with a pool. -/
theorem parse_eq (source : String) (text : List Char) :
    match readFresh source 0 (rowsAmong (events text)) with
    | .error stop => Table.parse source text = .error stop
    | .ok entries => ∃ pool, Table.parse source text = .ok ⟨source, entries, tallyOf text, pool⟩ ∧
        Pool.Shares pool entries := by
  have hscan := scanEvents_row source (events text) shared_empty {}
  rw [Table.parse, scan]
  rw [show ({} : Reading).entries.length = 0 from rfl] at hscan
  cases hr : readFresh source 0 (rowsAmong (events text)) with
  | error stop =>
    rw [hr] at hscan
    rw [hscan]
  | ok entries =>
    rw [hr] at hscan
    obtain ⟨s', hs', hentries, hshared⟩ := hscan
    have hreverse : s'.entries.reverse = entries := by rw [hentries]; simp
    refine ⟨s'.pool, ?_, hshared.sound, hshared.nodup, fun k => ?_⟩
    · rw [hs', ← hreverse]; rfl
    · rw [hshared.keys k, ← hreverse, List.map_reverse, List.mem_reverse]

theorem parse_error_iff {source : String} {text : List Char} {stop : Stop LoadError} :
    Table.parse source text = .error stop ↔
      readFresh source 0 (rowsAmong (events text)) = .error stop := by
  have hparse := parse_eq source text
  cases hr : readFresh source 0 (rowsAmong (events text)) with
  | error stop' => rw [hr] at hparse; rw [hparse]; simp
  | ok entries =>
    rw [hr] at hparse
    obtain ⟨pool, hpool, -⟩ := hparse
    rw [hpool]; simp

theorem parse_ok {source : String} {text : List Char} {t : Table}
    (h : Table.parse source text = .ok t) :
    readFresh source 0 (rowsAmong (events text)) = .ok t.entries ∧ t.source = source ∧
      t.tally = tallyOf text ∧ Pool.Shares t.formulas t.entries := by
  have hparse := parse_eq source text
  cases hr : readFresh source 0 (rowsAmong (events text)) with
  | error stop => rw [hr] at hparse; rw [hparse] at h; cases h
  | ok entries =>
    rw [hr] at hparse
    obtain ⟨pool, hpool, hshares⟩ := hparse
    rw [hpool] at h
    cases h
    exact ⟨rfl, rfl, rfl, hshares⟩

theorem exists_parse {source : String} {text : List Char} {entries : List Entry}
    (h : readFresh source 0 (rowsAmong (events text)) = .ok entries) :
    ∃ t, Table.parse source text = .ok t ∧ t.entries = entries := by
  have hparse := parse_eq source text
  rw [h] at hparse
  obtain ⟨pool, hpool, -⟩ := hparse
  exact ⟨_, hpool, rfl⟩

/-- A file in which all rows are long and have the same formula. -/
theorem exists_parse_of_rows (source : String) {text : List Char} {rows : List Row} {f : Formula}
    (hrows : rowsAmong (events text) = rows)
    (h : ∀ r ∈ rows, leastFields r.context < Decimal.indexBound ∧ isLong r = true ∧
      compileRow r = .ok f) :
    ∃ t, Table.parse source text = .ok t ∧ t.entries = rows.map (entryOf · f) := by
  refine exists_parse ?_
  rw [hrows, readFresh_ok_iff]
  refine ⟨fun r hr => (h r hr).1, ?_⟩
  rw [List.filter_eq_self.2 fun r hr => (h r hr).2.1, List.forall₂_map_left_iff,
    List.forall₂_same]
  intro r hr
  obtain ⟨hword, hlong, hf⟩ := h r hr
  exact entryOf_readFrom hword hlong hf

/-- A table is there just if every row of the file is readable. -/
theorem exists_parse_iff (source : String) (text : List Char) :
    (∃ t, Table.parse source text = .ok t) ↔ ∀ r ∈ rowsAmong (events text), Readable r := by
  cases hparse : Table.parse source text with
  | error stop =>
    obtain ⟨before, r, after, hrows, -, hstop⟩ :=
      readFresh_error_iff.1 (parse_error_iff.1 hparse)
    simp only [reduceCtorEq, exists_false, false_iff]
    intro h
    obtain ⟨answer, hanswer⟩ := readable_iff.1 (h r (by rw [hrows]; simp))
    cases hstop.symm.trans hanswer
  | ok t =>
    refine iff_of_true ⟨t, rfl⟩ fun r hr => ?_
    obtain ⟨hwords, hentries⟩ := readFresh_ok_iff.1 (parse_ok hparse).1
    refine ⟨hwords r hr, fun hlong => ?_⟩
    obtain ⟨i, hi, rfl⟩ := List.getElem_of_mem (List.mem_filter.2 ⟨hr, hlong⟩)
    have he := hentries.flip.get hi (hentries.length_eq ▸ hi)
    obtain ⟨-, -, hranges⟩ := ofRow?_ok_some_iff.1 he.ranges
    exact ⟨_, by rw [compileRow, textOf]; exact hranges ▸ he.formula⟩

/-- Only a row whose widths are no word halts the reading of a file. -/
theorem exists_wide_row {source : String} {text : List Char} {halt : Halt}
    (h : Table.parse source text = .error (.halt halt)) :
    ∃ r ∈ rowsAmong (events text),
      Decimal.indexBound ≤ leastFields r.context ∧ halt = .tooWide r.line := by
  obtain ⟨before, r, after, hrows, -, hstop⟩ := readFresh_error_iff.1 (parse_error_iff.1 h)
  exact ⟨r, by rw [hrows]; simp, readRow_halt_iff.1 hstop⟩

/-- **Sharing formulas does not show, and what stops a reading is precise.**  A row
    is readable if its widths fit in a word and, if it has as many fields as they
    ask for, its formula compiles anew.  There is a table just if all rows are
    readable.  The first one that is not either fails the reading, by its line and
    by the number of entries before it, with the text and the error of its own
    formula; or it halts the reading, if its widths fit in no word.  So as long as
    all of them do, reading fails just if the formula of a long row is refused.
    In a table every long row is an entry, in order, with the formula that its own
    text compiles to, and there are as many formulas as the entries have pairs of
    a text and an arity. -/
theorem sharing_is_unobservable (source : String) (text : List Char) :
    ((∃ t, Table.parse source text = .ok t) ↔ ∀ r ∈ rowsAmong (events text), Readable r) ∧
    (∀ err, Table.parse source text = .error (.failure err) ↔
      ∃ before r after e, rowsAmong (events text) = before ++ r :: after ∧
        (∀ b ∈ before, Readable b) ∧ leastFields r.context < Decimal.indexBound ∧
        isLong r = true ∧ compileRow r = .error e ∧
        err = .badFormula source r.line (before.countP isLong) (String.ofList (textOf r)) e) ∧
    (∀ halt, Table.parse source text = .error (.halt halt) ↔
      ∃ before r after, rowsAmong (events text) = before ++ r :: after ∧
        (∀ b ∈ before, Readable b) ∧ Decimal.indexBound ≤ leastFields r.context ∧
        halt = .tooWide r.line) ∧
    ((∀ r ∈ rowsAmong (events text), leastFields r.context < Decimal.indexBound) →
      ((∃ err, Table.parse source text = .error (.failure err)) ↔
        ∃ r ∈ rowsAmong (events text), isLong r = true ∧ ∃ e, compileRow r = .error e)) ∧
    ∀ t, Table.parse source text = .ok t →
      List.Forall₂ Entry.ReadFrom t.entries ((rowsAmong (events text)).filter isLong) ∧
      t.formulas.length =
        (t.entries.map fun e => (e.formula.source, e.formula.arity)).dedup.length := by
  have hfailure : ∀ err, Table.parse source text = .error (.failure err) ↔
      ∃ before r after e, rowsAmong (events text) = before ++ r :: after ∧
        (∀ b ∈ before, Readable b) ∧ leastFields r.context < Decimal.indexBound ∧
        isLong r = true ∧ compileRow r = .error e ∧
        err = .badFormula source r.line (before.countP isLong) (String.ofList (textOf r)) e := by
    intro err
    simp only [parse_error_iff, readFresh_error_iff, Nat.zero_add, readRow_failure_iff,
      exists_and_left]
  have hhalt : ∀ halt, Table.parse source text = .error (.halt halt) ↔
      ∃ before r after, rowsAmong (events text) = before ++ r :: after ∧
        (∀ b ∈ before, Readable b) ∧ Decimal.indexBound ≤ leastFields r.context ∧
        halt = .tooWide r.line := by
    intro halt
    simp only [parse_error_iff, readFresh_error_iff, Nat.zero_add, readRow_halt_iff]
  refine ⟨exists_parse_iff source text, hfailure, hhalt, fun hwords => ⟨?_, ?_⟩, fun t ht => ?_⟩
  · rintro ⟨err, herr⟩
    obtain ⟨before, r, after, e, hrows, -, -, hlong, he, -⟩ := (hfailure err).1 herr
    exact ⟨r, by rw [hrows]; simp, hlong, e, he⟩
  · rintro ⟨r, hr, hlong, e, he⟩
    cases hparse : Table.parse source text with
    | ok t =>
      obtain ⟨f, hf⟩ := ((exists_parse_iff source text).1 ⟨t, hparse⟩ r hr).2 hlong
      cases he.symm.trans hf
    | error stop =>
      cases stop with
      | failure err => exact ⟨err, rfl⟩
      | halt h =>
        obtain ⟨r', hr', hwide, -⟩ := exists_wide_row hparse
        exact absurd (hwords r' hr') (Nat.not_lt.2 hwide)
  · obtain ⟨hread, -, -, hshares⟩ := parse_ok ht
    exact ⟨(readFresh_ok_iff.1 hread).2, hshares.length_eq⟩

/-- The formula that is a variable. -/
theorem exists_compile_x : ∃ f, Formula.compile ['x'] 1 = .ok f := by
  have hread : treeOf (.standard 1) ['x'] = .ok (.var 0) :=
    (treeOf_ok_iff (Scope.standard_proper 1)).2 ⟨_, by with_unfolding_all rfl,
      .disjunction_of_signed (.signed_of_primary (.name (.var rfl Nat.one_pos)))⟩
  obtain ⟨f, hf, -⟩ := exists_compile (by decide) hread
  exact ⟨f, hf⟩

/-- A formula that no row uses may be anything, and two rows share one. But the
    width of a short heading, which a row needs not reach, can halt the reading at
    that row, although the formula of a row below it is refused. -/
theorem sharing_of_two_files :
    (∃ t, Table.parse "table" ("\x7b1 JetEta 1 JetPt ((\x7d\n\x7b1 JetEta 1 JetPt x\x7d\n" ++
        "-5 0 3 0 9 1\n0 5 3 0 9 2\n").toList = .ok t ∧
      t.entries.length = 2 ∧ t.formulas.length = 1) ∧
    Table.parse "table" ("\x7b1 JetEta 1 JetPt ((\x7d\n\x7b9223372036854775807\x7d\n" ++
        "-5 5 3 0 1000 1.0\n\x7b1 JetEta 1 JetPt ((\x7d\n-5 5 3 0 1000 1.0\n").toList =
      .error (.halt (.tooWide 3)) := by
  constructor
  · obtain ⟨f, hf⟩ := exists_compile_x
    obtain ⟨a, b, hrows, ⟨hworda, hlonga, ha⟩, hwordb, hlongb, hb⟩ : ∃ a b, rowsAmong (events
        ("\x7b1 JetEta 1 JetPt ((\x7d\n\x7b1 JetEta 1 JetPt x\x7d\n" ++
          "-5 0 3 0 9 1\n0 5 3 0 9 2\n").toList) = [a, b] ∧
        (leastFields a.context < Decimal.indexBound ∧ isLong a = true ∧
          compileRow a = Formula.compile ['x'] 1) ∧
        leastFields b.context < Decimal.indexBound ∧ isLong b = true ∧
          compileRow b = Formula.compile ['x'] 1 :=
      ⟨_, _, by with_unfolding_all rfl, ⟨by with_unfolding_all decide, by with_unfolding_all rfl,
        by with_unfolding_all rfl⟩, by with_unfolding_all decide, by with_unfolding_all rfl,
        by with_unfolding_all rfl⟩
    obtain ⟨t, ht, hentries⟩ := exists_parse_of_rows "table" hrows (f := f)
      (by simp [hworda, hlonga, ha, hwordb, hlongb, hb, hf])
    obtain ⟨-, hcount⟩ := (sharing_is_unobservable "table" _).2.2.2.2 t ht
    refine ⟨t, ht, by rw [hentries]; rfl, ?_⟩
    rw [hcount, hentries]
    simp [entryOf]
  · obtain ⟨a, b, hrows, hwide, hline⟩ : ∃ a b, rowsAmong (events
        ("\x7b1 JetEta 1 JetPt ((\x7d\n\x7b9223372036854775807\x7d\n" ++
          "-5 5 3 0 1000 1.0\n\x7b1 JetEta 1 JetPt ((\x7d\n-5 5 3 0 1000 1.0\n").toList) =
          [a, b] ∧
        Decimal.indexBound ≤ leastFields a.context ∧ a.line = 3 :=
      ⟨_, _, by with_unfolding_all rfl, by with_unfolding_all decide, rfl⟩
    exact ((sharing_is_unobservable "table" _).2.2.1 _).2
      ⟨[], a, [b], hrows, List.forall_mem_nil _, hwide, by rw [hline]⟩

end JetEnergy.Correction
