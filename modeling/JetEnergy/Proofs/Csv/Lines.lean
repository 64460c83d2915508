import JetEnergy.Csv.Reader
import Mathlib.Order.Monotone.Basic

/-!
  Where the records of a text start, and on which lines.

  * `Reading.Steps` says what one symbol makes of a reading; nothing after
    `Reading.steps` unfolds the reader.
  * `readTo` is the reader before the symbol at a place, and `Starts text n k` says
    that the symbol at place `k` is the first one of record `n`. Each record starts
    at one place: `exists_starts`, `Starts.unique`. From there on the text reads as
    that record and those after it: `Starts.fields_eq`.
  * `lineAt` is the line of a place in the text alone: a carriage return, a line
    feed and both one after the other each end a line.
  * `emptyLines` and `innerLines` count the line ends that end no record: those
    between two records, and those in quoted stretches. `Starts.lineAt_eq`: these
    are all that the line of a record counts besides the records before it.
-/
namespace JetEnergy.Csv

variable {α : Type}

/-! ## The reader, symbol by symbol -/

/-- A mark ends records: a carriage return or a line feed. -/
def Mark.EndsRecord (m : Mark) : Prop :=
  m = .carriageReturn ∨ m = .lineFeed

instance (m : Mark) : Decidable m.EndsRecord :=
  inferInstanceAs (Decidable (_ ∨ _))

namespace Reading

/-- The number of records that a reading has begun. -/
def begun (r : Reading α) : Nat :=
  r.records.length + if r.mode = .between then 0 else 1

theorem length_finish (r : Reading α) : r.finish.length = r.begun := by
  obtain ⟨mode, _, _, _, _, _⟩ := r
  cases mode <;> simp [finish, begun, endRecord]

/-- A reading has read some records, and then the same as another one. The places
    of the records are left aside. -/
structure Extends (r s : Reading α) (before : List (List (List α))) : Prop where
  mode : r.mode = s.mode
  field : r.field = s.field
  fields : r.fields = s.fields
  records : r.records.map (·.fields) = s.records.map (·.fields) ++ before

namespace Extends

variable {r s : Reading α} {before : List (List (List α))}

theorem endRecord (h : r.Extends s before) : r.endRecord.Extends s.endRecord before :=
  ⟨rfl, rfl, rfl, by simp [Reading.endRecord, h.field, h.fields, h.records]⟩

theorem keep (h : r.Extends s before) (a : α) (mode : Mode) :
    (r.keep a mode).Extends (s.keep a mode) before :=
  ⟨rfl, congrArg (a :: ·) h.field, h.fields, h.records⟩

theorem plain (h : r.Extends s before) (a : α) (m : Mark) :
    (r.plain a m).Extends (s.plain a m) before := by
  cases m with
  | comma => exact ⟨rfl, rfl, by simp [Reading.plain, endField, h.field, h.fields], h.records⟩
  | carriageReturn | lineFeed => exact h.endRecord
  | quote | other => exact h.keep a .inField

theorem opening (h : r.Extends s before) (a : α) (m : Mark) :
    (r.opening a m).Extends (s.opening a m) before := by
  cases m with
  | quote => exact ⟨rfl, h.field, h.fields, h.records⟩
  | comma => exact h.plain a .comma
  | carriageReturn => exact h.plain a .carriageReturn
  | lineFeed => exact h.plain a .lineFeed
  | other => exact h.plain a .other

theorem take (h : r.Extends s before) (a : α) (m : Mark) :
    (r.take a m).Extends (s.take a m) before := by
  unfold Reading.take
  rw [← h.mode]
  cases r.mode with
  | between =>
    dsimp only
    split
    · exact h
    · exact h
    · exact h.opening a m
  | atField => exact h.opening a m
  | inField => exact h.plain a m
  | quoted =>
    dsimp only
    split
    · exact ⟨rfl, h.field, h.fields, h.records⟩
    · exact h.keep a .quoted
  | afterQuote =>
    dsimp only
    split
    · exact h.keep a .quoted
    · exact h.plain a m

theorem finish (h : r.Extends s before) :
    r.finish.map (·.fields) = before.reverse ++ s.finish.map (·.fields) := by
  have hend := h.endRecord.records
  rw [Reading.finish, Reading.finish, h.mode]
  cases s.mode <;>
    simp only [List.map_reverse, h.records, hend, List.reverse_append]

end Extends

variable [Marked α]

/-- What a symbol of some mark makes of a reading. -/
inductive Steps (m : Mark) (r s : Reading α) : Prop
  /-- a line without a record ends -/
  | skips : r.mode = .between → m.EndsRecord → s.mode = .between → s.records = r.records →
      s.field = r.field → s.fields = r.fields → Steps m r s
  /-- a record begins -/
  | begins : r.mode = .between → ¬ m.EndsRecord → s.mode ≠ .between → s.records = r.records →
      Steps m r s
  /-- the record under way ends -/
  | ends : r.mode ≠ .between → r.mode ≠ .quoted → m.EndsRecord → s.mode = .between →
      s.records.length = r.records.length + 1 → s.field = [] → s.fields = [] → Steps m r s
  /-- the record under way goes on, past a line end only if that is quoted -/
  | goesOn : r.mode ≠ .between → (m.EndsRecord → r.mode = .quoted ∧ s.mode = .quoted) →
      s.mode ≠ .between → s.records = r.records → Steps m r s

theorem steps (r : Reading α) (a : α) : Steps (Marked.mark a) r (r.step a) := by
  obtain ⟨mode, _, _, _, _, _⟩ := r
  rw [step]
  generalize Marked.mark a = m
  cases mode with
  | between =>
    cases m with
    | carriageReturn | lineFeed =>
      exact .skips rfl (by simp [Mark.EndsRecord]) rfl rfl rfl rfl
    | comma | quote | other => exact .begins rfl (by simp [Mark.EndsRecord]) nofun rfl
  | quoted =>
    cases m with
    | carriageReturn | lineFeed => exact .goesOn nofun (fun _ => ⟨rfl, rfl⟩) nofun rfl
    | comma | quote | other => exact .goesOn nofun (by simp [Mark.EndsRecord]) nofun rfl
  | atField | inField | afterQuote =>
    cases m with
    | carriageReturn | lineFeed =>
      exact .ends nofun nofun (by simp [Mark.EndsRecord]) rfl rfl rfl rfl
    | comma | quote | other => exact .goesOn nofun (by simp [Mark.EndsRecord]) nofun rfl

/-- A record begins with the first symbol after the last one that is no line end. -/
theorem begun_step (r : Reading α) (a : α) :
    (r.step a).begun =
      r.begun + if r.mode = .between ∧ ¬ (Marked.mark a).EndsRecord then 1 else 0 := by
  rw [begun, begun]
  cases r.steps a with
  | skips hr hm hs hrecords => simp [hr, hm, hs, hrecords]
  | begins hr hm hs hrecords => simp [hr, hm, hs, hrecords]
  | ends hr _ _ hs hrecords => simp [hr, hs, hrecords]
  | goesOn hr _ hs hrecords => simp [hr, hs, hrecords]

/-- A record ends with a line end outside quoted stretches. -/
theorem length_records_step (r : Reading α) (a : α) :
    (r.step a).records.length = r.records.length +
      if (Marked.mark a).EndsRecord ∧ r.mode ≠ .between ∧ r.mode ≠ .quoted then 1 else 0 := by
  cases r.steps a with
  | skips hr _ _ hrecords => simp [hr, hrecords]
  | begins hr _ _ hrecords => simp [hr, hrecords]
  | ends hr hquoted hm _ hrecords => simp [hr, hquoted, hm, hrecords]
  | goesOn _ hm _ hrecords =>
    rw [hrecords, if_neg fun h => h.2.2 (hm h.1).1, Nat.add_zero]

/-- After a line end the reader is between records or in a quoted stretch. -/
theorem mode_step_of_endsRecord (r : Reading α) {a : α} (ha : (Marked.mark a).EndsRecord) :
    (r.step a).mode = .between ∨ (r.step a).mode = .quoted := by
  cases r.steps a with
  | skips _ _ hs => exact Or.inl hs
  | begins _ hm => exact absurd ha hm
  | ends _ _ _ hs => exact Or.inl hs
  | goesOn _ hm => exact Or.inr (hm ha).2

/-- Between records no field is under way. -/
def Settled (r : Reading α) : Prop :=
  r.mode = .between → r.field = [] ∧ r.fields = []

theorem Settled.step {r : Reading α} (hr : r.Settled) (a : α) : (r.step a).Settled := by
  intro hs
  cases r.steps a with
  | skips hmode _ _ _ hfield hfields => rw [hfield, hfields]; exact hr hmode
  | begins _ _ hother => exact absurd hs hother
  | ends _ _ _ _ _ hfield hfields => exact ⟨hfield, hfields⟩
  | goesOn _ _ hother => exact absurd hs hother

namespace Extends

variable {r s : Reading α} {before : List (List (List α))}

theorem step (h : r.Extends s before) (a : α) : (r.step a).Extends (s.step a) before := by
  have hadvance : (r.advance (Marked.mark a)).Extends (s.advance (Marked.mark a)) before :=
    ⟨h.mode, h.field, h.fields, h.records⟩
  exact hadvance.take a _

theorem foldl (h : r.Extends s before) (text : List α) :
    (text.foldl Reading.step r).Extends (text.foldl Reading.step s) before := by
  induction text generalizing r s with
  | nil => exact h
  | cons a text ih => exact ih (h.step a)

end Extends

end Reading

variable [Marked α]

/-- The reader before the symbol at a place. -/
def readTo (text : List α) (k : Nat) : Reading α :=
  (text.take k).foldl Reading.step {}

section
variable {text : List α} {k : Nat}

theorem readTo_succ {a : α} (h : text[k]? = some a) :
    readTo text (k + 1) = (readTo text k).step a := by
  rw [readTo, List.take_add_one, h, List.foldl_append]
  rfl

theorem readTo_succ_of_none (h : text[k]? = none) : readTo text (k + 1) = readTo text k := by
  rw [readTo, List.take_add_one, h, Option.toList_none, List.append_nil, readTo]

theorem records_eq_finish (text : List α) : records text = (readTo text text.length).finish := by
  rw [records, readTo, List.take_length]

end

/-! ## Starts of records -/

/-- The symbol at place `k` is the first one of record `n`, records being numbered
    from 0 on: before it the reader is between records and has read `n` of them,
    and it is no line end. -/
structure Starts (text : List α) (n k : Nat) : Prop where
  mode : (readTo text k).mode = .between
  count : (readTo text k).records.length = n
  symbol : ∃ a, text[k]? = some a ∧ ¬ (Marked.mark a).EndsRecord

section
variable {text : List α} {n k : Nat}

/-- The records begun before the symbol after a place. -/
theorem begun_readTo_succ {a : α} (h : text[k]? = some a) :
    (readTo text (k + 1)).begun = (readTo text k).begun +
      if (readTo text k).mode = .between ∧ ¬ (Marked.mark a).EndsRecord then 1 else 0 := by
  rw [readTo_succ h, Reading.begun_step]

theorem begun_readTo_mono (text : List α) : Monotone fun k => (readTo text k).begun := by
  refine monotone_nat_of_le_succ fun k => ?_
  cases h : text[k]? with
  | none => rw [readTo_succ_of_none h]
  | some a => exact (begun_readTo_succ h).symm ▸ Nat.le_add_right _ _

theorem Starts.begun_eq (h : Starts text n k) : (readTo text k).begun = n := by
  rw [Reading.begun, if_pos h.mode, h.count, Nat.add_zero]

theorem Starts.begun_succ (h : Starts text n k) : (readTo text (k + 1)).begun = n + 1 := by
  obtain ⟨a, ha, hmark⟩ := h.symbol
  rw [begun_readTo_succ ha, h.begun_eq, if_pos ⟨h.mode, hmark⟩]

/-- A record starts at one place only. -/
theorem Starts.unique {j : Nat} (hk : Starts text n k) (hj : Starts text n j) : k = j := by
  -- past the first of both places there would be one record more at the second
  have hle : ∀ {i j}, Starts text n i → Starts text n j → ¬ i < j := fun {i j} hi hj hlt => by
    have hmono : (readTo text (i + 1)).begun ≤ (readTo text j).begun :=
      begun_readTo_mono text hlt
    rw [hi.begun_succ, hj.begun_eq] at hmono
    omega
  have := hle hk hj
  have := hle hj hk
  omega

/-- Each record begun before a place starts before it. -/
theorem exists_starts_lt (h : n < (readTo text k).begun) : ∃ j < k, Starts text n j := by
  induction k with
  | zero => simp [readTo, Reading.begun] at h
  | succ k ih =>
    by_cases hbefore : n < (readTo text k).begun
    · obtain ⟨j, hj, hstarts⟩ := ih hbefore
      exact ⟨j, by omega, hstarts⟩
    · cases ha : text[k]? with
      | none => exact absurd (readTo_succ_of_none ha ▸ h) hbefore
      | some a =>
        -- the symbol begins a record, so this is record `n`
        rw [begun_readTo_succ ha] at h
        split at h
        · next hstart =>
          refine ⟨k, by omega, hstart.1, ?_, a, ha, hstart.2⟩
          rw [Reading.begun, if_pos hstart.1] at h hbefore
          omega
        · exact absurd h hbefore

theorem exists_starts (h : n < (records text).length) : ∃ k, Starts text n k := by
  rw [records_eq_finish, Reading.length_finish] at h
  obtain ⟨k, -, hk⟩ := exists_starts_lt h
  exact ⟨k, hk⟩

theorem settled_readTo (text : List α) (k : Nat) : (readTo text k).Settled := by
  induction k with
  | zero => exact fun _ => ⟨rfl, rfl⟩
  | succ k ih =>
    cases ha : text[k]? with
    | none => exact readTo_succ_of_none ha ▸ ih
    | some a => exact readTo_succ ha ▸ ih.step a

/-- From the start of a record on, the text reads as this record and those after
    it. -/
theorem Starts.fields_eq (h : Starts text n k) :
    ((records text).drop n).map (·.fields) = (records (text.drop k)).map (·.fields) := by
  obtain ⟨hfield, hfields⟩ := settled_readTo text k h.mode
  have hextends : (readTo text k).Extends {} ((readTo text k).records.map (·.fields)) :=
    ⟨h.mode, hfield, hfields, rfl⟩
  have hall := (hextends.foldl (text.drop k)).finish
  rw [readTo, ← List.foldl_append, List.take_append_drop, ← readTo] at hall
  rw [List.map_drop, records, hall, List.drop_left' (by simp [h.count]), records]

end

/-! ## Lines -/

/-- The symbol at a place ends a line: a carriage return, or a line feed that does
    not follow one. -/
def endsLine (text : List α) (i : Nat) : Bool :=
  match text[i]?.map Marked.mark with
  | some .carriageReturn => true
  | some .lineFeed => i = 0 || text[i - 1]?.map Marked.mark ≠ some .carriageReturn
  | _ => false

/-- The number of the line on which a place is, from 1 on. -/
def lineAt (text : List α) (k : Nat) : Nat :=
  1 + (List.range k).countP (endsLine text)

/-- The number of line ends before a place that the reader meets in a mode. -/
def lineEndsIn (mode : Mode) (text : List α) (k : Nat) : Nat :=
  (List.range k).countP fun i => endsLine text i && (readTo text i).mode = mode

/-- The number of line ends between two records, before a place. -/
def emptyLines (text : List α) (k : Nat) : Nat := lineEndsIn .between text k

/-- The number of line ends in quoted stretches, before a place. -/
def innerLines (text : List α) (k : Nat) : Nat := lineEndsIn .quoted text k

section
variable {text : List α} {n k : Nat}

/-- A line feed right after a carriage return ends no record. -/
theorem mode_of_return (h : text[k]?.map Marked.mark = some .carriageReturn) :
    (readTo text (k + 1)).mode = .between ∨ (readTo text (k + 1)).mode = .quoted := by
  obtain ⟨a, ha, hmark⟩ := Option.map_eq_some_iff.1 h
  rw [readTo_succ ha]
  exact Reading.mode_step_of_endsRecord _ (Or.inl hmark)

/-- A symbol ends a record exactly if it ends a line that is neither empty nor goes
    on in a quoted stretch. -/
theorem endsRecord_iff_endsLine {a : α} (ha : text[k]? = some a)
    (hbetween : (readTo text k).mode ≠ .between) (hquoted : (readTo text k).mode ≠ .quoted) :
    (Marked.mark a).EndsRecord ↔ endsLine text k = true := by
  rw [endsLine, ha, Option.map_some]
  cases hmark : Marked.mark a with
  | carriageReturn => simp [Mark.EndsRecord]
  | lineFeed =>
    suffices k = 0 ∨ text[k - 1]?.map Marked.mark ≠ some .carriageReturn by
      simpa [Mark.EndsRecord] using this
    cases k with
    | zero => exact .inl rfl
    | succ k =>
      right
      intro hreturn
      rcases mode_of_return hreturn with hmode | hmode
      · exact hbetween hmode
      · exact hquoted hmode
  | comma | quote | other => simp [Mark.EndsRecord]

/-- A record ends with a line that is neither empty nor goes on in a quoted
    stretch. -/
theorem length_records_readTo_succ :
    (readTo text (k + 1)).records.length = (readTo text k).records.length +
      if endsLine text k ∧ (readTo text k).mode ≠ .between ∧ (readTo text k).mode ≠ .quoted
      then 1 else 0 := by
  cases ha : text[k]? with
  | none => simp [readTo_succ_of_none ha, endsLine, ha]
  | some a =>
    rw [readTo_succ ha, Reading.length_records_step]
    refine congrArg _ (if_congr (and_congr_left fun ⟨hbetween, hquoted⟩ => ?_) rfl rfl)
    exact endsRecord_iff_endsLine ha hbetween hquoted

theorem lineEndsIn_succ (mode : Mode) :
    lineEndsIn mode text (k + 1) = lineEndsIn mode text k +
      if endsLine text k ∧ (readTo text k).mode = mode then 1 else 0 := by
  simp [lineEndsIn, List.range_succ]

theorem lineAt_succ : lineAt text (k + 1) = lineAt text k + if endsLine text k then 1 else 0 := by
  simp [lineAt, List.range_succ, Nat.add_assoc]

/-- Each line end ends a record, an empty line, or a line in a quoted stretch. -/
theorem lineAt_eq (text : List α) (k : Nat) :
    lineAt text k =
      1 + (readTo text k).records.length + emptyLines text k + innerLines text k := by
  induction k with
  | zero => simp [lineAt, emptyLines, innerLines, lineEndsIn, readTo]
  | succ k ih =>
    rw [emptyLines, innerLines] at ih ⊢
    rw [lineAt_succ, lineEndsIn_succ, lineEndsIn_succ, ih, length_records_readTo_succ]
    cases hmode : (readTo text k).mode <;> by_cases hline : endsLine text k <;>
      simp [hline] <;> omega

theorem Starts.lineAt_eq (h : Starts text n k) :
    lineAt text k = 1 + n + emptyLines text k + innerLines text k := by
  rw [Csv.lineAt_eq, h.count]

end

/-! ## Byte sequences -/

/-- A byte sequence without the byte order mark before it. -/
def contents : List UInt8 → List UInt8
  | 0xEF :: 0xBB :: 0xBF :: bytes => bytes
  | bytes => bytes

/-- The place in a byte sequence of a place in its contents. -/
def placeOf (bytes : List UInt8) (k : Nat) : Nat :=
  bytes.length - (contents bytes).length + k

theorem fields_recordsOfBytes (bytes : List UInt8) :
    (recordsOfBytes bytes).map (·.fields) = (records (contents bytes)).map (·.fields) := by
  fun_cases contents bytes with
  | case1 bytes =>
    have hextends : ({ here := { offset := 3 } } : Reading UInt8).Extends {} [] :=
      ⟨rfl, rfl, rfl, rfl⟩
    exact (hextends.foldl bytes).finish
  | case2 bytes hmark => rw [recordsOfBytes.eq_2 bytes hmark]

theorem endsLine_marked (bytes : List UInt8) (k : Nat) :
    endsLine (0xEF :: 0xBB :: 0xBF :: bytes) (k + 3) = endsLine bytes k := by
  cases k with
  | zero => cases bytes <;> rfl
  | succ k => rfl

/-- A byte order mark ends no line. -/
theorem lineAt_placeOf (bytes : List UInt8) (k : Nat) :
    lineAt bytes (placeOf bytes k) = lineAt (contents bytes) k := by
  rw [placeOf]
  fun_cases contents bytes with
  | case1 bytes =>
    generalize hmarked : (0xEF :: 0xBB :: 0xBF :: bytes : List UInt8) = marked
    have hplace : marked.length - bytes.length + k = k + 3 := by
      simp only [← hmarked, List.length_cons]
      omega
    rw [hplace]
    induction k with
    | zero => rw [← hmarked]; rfl
    | succ k ih =>
      calc lineAt marked (k + 3 + 1)
          = lineAt marked (k + 3) + if endsLine marked (k + 3) then 1 else 0 := lineAt_succ
        _ = lineAt bytes k + if endsLine bytes k then 1 else 0 := by
            rw [ih (by omega), ← hmarked, endsLine_marked]
        _ = lineAt bytes (k + 1) := lineAt_succ.symm
  | case2 bytes hmark => rw [Nat.sub_self, Nat.zero_add]

end JetEnergy.Csv
