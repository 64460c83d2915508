import Mathlib.Data.List.Find
import Mathlib.Data.List.InsertIdx
import Mathlib.Data.List.Nodup
import Mathlib.Logic.Relation
import JetEnergy.Proofs.Batch.Ingesting
import JetEnergy.Proofs.Lists

/-!
  Tables with their columns in another order.

  * A `Sheet` is a header with records that are as wide. `Rearranged` relates it to
    one with its columns in another order, with other letter cases in its header,
    or with one more column that nothing is read from.
  * `holds_iff`: if a name belongs to one column only, what a record holds there is
    a matter of its pairs of a name and a field, not of their places.
  * `ingestRecords_congr`: the jets of two tables are the same if all their records
    hold the same (`SameCells`) in the columns that are read.
  * `columns_in_any_order`: so the jets of a sheet stay the same however often it is
    rearranged.
-/
namespace JetEnergy.Batch

/-! ## Sheets -/

/-- The names of the columns that are read. -/
def readNames : List String :=
  Columns.required ++ ["phi", "area", "rho", "gen_pt"]

/-- Two texts that differ in the case of ASCII letters only. -/
def SameLetters (a b : List Char) : Prop :=
  a.map Char.toLower = b.map Char.toLower

instance (a b : List Char) : Decidable (SameLetters a b) :=
  inferInstanceAs (Decidable (_ = _))

/-- A header, and records that are as wide if they are text. -/
structure Sheet where
  header : List (List Char)
  records : List (Except EncodingError (List (List Char)))
  wide : ∀ fields, .ok fields ∈ records → fields.length = header.length

/-- The jets of a sheet. -/
def Sheet.ingest (s : Sheet) : Except Failure Ingested :=
  ingestRecords s.header s.records

/-- One change to the columns of a sheet. -/
inductive Rearranged (s s' : Sheet) : Prop
  /-- another order, the same one in the header and in all records -/
  | reorder {order : List Nat} : order.Perm (List.range s.header.length) →
      s'.header = pick order s.header → s'.records = s.records.map (·.map (pick order)) →
      Rearranged s s'
  /-- other cases of the letters in the header -/
  | recase : List.Forall₂ SameLetters s.header s'.header → s'.records = s.records →
      Rearranged s s'
  /-- one more column at position `i`, with a name that is not read -/
  | widen {i : Nat} {name : List Char} {cells : List (List Char)} :
      i ≤ s.header.length → cells.length = s.records.length →
      (∀ n ∈ readNames, columnName name ≠ n.toList) → s'.header = s.header.insertIdx i name →
      s'.records =
        List.zipWith (fun cell record => record.map (·.insertIdx i cell)) cells s.records →
      Rearranged s s'

/-! ## Letter cases -/

theorem toLower_cases (c : Char) :
    c.toLower = c ∨ (65 ≤ c.toNat ∧ c.toNat ≤ 90) ∧ c.toLower.toNat = c.toNat + 32 := by
  unfold Char.toLower
  split
  · next h =>
    right
    have hc : 65 ≤ c.toNat ∧ c.toNat ≤ 90 := by
      simpa [UInt32.le_iff_toNat_le] using h
    refine ⟨hc, ?_⟩
    show (c.val + 32).toNat = c.val.toNat + 32
    rw [UInt32.toNat_add]
    have : c.val.toNat ≤ 90 := hc.2
    simp
    omega
  · exact Or.inl rfl

theorem isBlank_toLower (c : Char) : Text.isBlank c.toLower = Text.isBlank c := by
  have hletter : ∀ d : Char, 65 ≤ d.toNat → d.toNat ≤ 122 → Text.isBlank d = false := by
    intro d hlow hhigh
    simp only [Text.isBlank, Bool.or_eq_false_iff, Bool.and_eq_false_iff, decide_eq_false_iff_not,
      beq_eq_false_iff_ne]
    omega
  rcases toLower_cases c with h | ⟨hc, hlower⟩
  · rw [h]
  · rw [hletter c (by omega) (by omega), hletter c.toLower (by omega) (by omega)]

theorem toLower_eq_mark_iff (c : Char) : c.toLower = '\uFEFF' ↔ c = '\uFEFF' := by
  rcases toLower_cases c with h | ⟨hc, hlower⟩
  · rw [h]
  · constructor
    · intro hmark
      rw [hmark] at hlower
      have : ('\uFEFF' : Char).toNat = 65279 := rfl
      omega
    · rintro rfl
      exact absurd hc.2 (by decide)

theorem trim_map_toLower (text : List Char) :
    Text.trim (text.map Char.toLower) = (Text.trim text).map Char.toLower := by
  have hblank : Text.isBlank ∘ Char.toLower = Text.isBlank := funext isBlank_toLower
  simp only [Text.trim, Text.trimEnd, List.dropWhile_map, ← List.map_reverse, hblank]

/-- A column has the name that its header field has in lower case. -/
theorem columnName_eq (text : List Char) :
    columnName text = (Text.trim (text.map Char.toLower)).dropWhile (· = '\uFEFF') := by
  have hmark : (fun c => decide (c = '\uFEFF')) ∘ Char.toLower = fun c => decide (c = '\uFEFF') :=
    funext fun c => decide_eq_decide.2 (toLower_eq_mark_iff c)
  rw [columnName, trim_map_toLower, List.dropWhile_map, hmark]

theorem ofHeader_recase {header header' : List (List Char)}
    (h : List.Forall₂ SameLetters header header') :
    Columns.ofHeader header' = Columns.ofHeader header := by
  induction h with
  | nil => rfl
  | cons hname _ ih =>
    rw [SameLetters] at hname
    rw [Columns.ofHeader, List.map_cons, columnName_eq, ← hname, ← columnName_eq]
    exact congrArg _ ih

/-! ## Cells -/

/-- A name belongs to one column at most. -/
def Columns.Single (columns : Columns) (name : String) : Prop :=
  columns.count name.toList ≤ 1

/-- Two records hold the same in the columns that are read. -/
def SameCells (columns columns' : Columns) (record record' : List (List Char)) : Prop :=
  ∀ name ∈ readNames, ∀ cell,
    (name.toList, cell) ∈ columns.zip record ↔ (name.toList, cell) ∈ columns'.zip record'

section
variable {columns columns' : Columns} {record record' : List (List Char)} {name : String}

theorem Columns.Single.at (h : columns.Single name) {i : Nat}
    (hi : columns[i]? = some name.toList) : columns.At name i := by
  refine ⟨hi, fun j hij hj => ?_⟩
  -- one column of this name is among the first `i + 1`, another one behind them
  have hbefore : 1 ≤ (columns.take (i + 1)).count name.toList := by
    rw [List.one_le_count_iff]
    exact List.mem_of_getElem? (by rwa [List.getElem?_take_of_lt (Nat.lt_succ_self i)])
  have hbehind : 1 ≤ (columns.drop (i + 1)).count name.toList := by
    rw [List.one_le_count_iff]
    exact List.mem_of_getElem? (i := j - (i + 1)) (by
      rwa [List.getElem?_drop, Nat.add_sub_of_le hij])
  have hcount : columns.count name.toList = (columns.take (i + 1)).count name.toList +
      (columns.drop (i + 1)).count name.toList := by
    rw [← List.count_append, List.take_append_drop]
  rw [Columns.Single] at h
  omega

/-- What a record holds in the only column of a name. -/
theorem holds_iff (h : columns.Single name) {text : List Char} :
    columns.Holds record name text ↔
      ∃ cell, (name.toList, cell) ∈ columns.zip record ∧ Text.trim cell = text ∧ text ≠ [] := by
  simp only [List.mem_iff_getElem?, List.getElem?_zip_eq_some]
  constructor
  · rintro ⟨i, cell, hat, hcell, htrim, hne⟩
    exact ⟨cell, ⟨i, hat.1, hcell⟩, htrim, hne⟩
  · rintro ⟨cell, ⟨i, hname, hcell⟩, htrim, hne⟩
    exact ⟨i, cell, h.at hname, hcell, htrim, hne⟩

theorem field?_congr (h : columns.Single name) (h' : columns'.Single name)
    (hcells : ∀ cell,
      (name.toList, cell) ∈ columns.zip record ↔ (name.toList, cell) ∈ columns'.zip record') :
    columns.field? record name = columns'.field? record' name := by
  ext text
  simp only [Columns.field?_eq_some_iff, holds_iff h, holds_iff h', hcells]

end

/-! ## Rows -/

/-- What becomes of a record depends on its cells in the columns that are read. -/
theorem row_congr {columns columns' : Columns} {record record' : List (List Char)}
    (h : ∀ name ∈ readNames, columns.field? record name = columns'.field? record' name)
    (line : Nat) : columns.row line record = columns'.row line record' := by
  have hnumber : ∀ name ∈ readNames,
      columns.number? record name = columns'.number? record' name := fun name hname => by
    rw [Columns.number?, Columns.number?, h name hname]
  have hrequired : ∀ name ∈ readNames,
      columns.requiredNumber record name = columns'.requiredNumber record' name :=
    fun name hname => by rw [Columns.requiredNumber, Columns.requiredNumber, hnumber name hname]
  simp only [readNames, Columns.required, List.cons_append, List.nil_append,
    List.forall_mem_cons] at hnumber hrequired
  obtain ⟨-, -, hphi, harea, hrho, hgenPt, -⟩ := hnumber
  obtain ⟨hpt, heta, -⟩ := hrequired
  rw [Columns.row, Columns.row, hpt, heta, hphi, harea, hrho, hgenPt]

/-- Two records become the same, whatever their number is. -/
def SameReading (columns columns' : Columns)
    (record record' : Except EncodingError (List (List Char))) : Prop :=
  ∀ line, readRecord columns line record = readRecord columns' line record'

theorem sameReading_of_cells {columns columns' : Columns}
    (h : ∀ name ∈ readNames, columns.Single name) (h' : ∀ name ∈ readNames, columns'.Single name)
    (record : Except EncodingError (List (List Char))) {f : List (List Char) → List (List Char)}
    (hcells : ∀ fields, record = .ok fields → SameCells columns columns' fields (f fields)) :
    SameReading columns columns' record (record.map f) := by
  intro line
  cases record with
  | error e => rfl
  | ok fields =>
    have hrow : columns.row line fields = columns'.row line (f fields) :=
      row_congr (fun name hname => field?_congr (h name hname) (h' name hname)
        (hcells fields rfl name hname)) line
    rw [Except.map, readRecord, readRecord, hrow]

theorem position?_isNone_iff {columns : Columns} {name : String} :
    (columns.position? name).isNone = true ↔ name.toList ∉ columns := by
  rw [Columns.position?, Option.isNone_map, Option.isNone_iff_eq_none, List.idxOf?_eq_none_iff,
    List.mem_reverse]

/-- Tables whose records become the same have the same jets. -/
theorem ingestRecords_congr {header header' : List (List Char)}
    {records records' : List (Except EncodingError (List (List Char)))}
    (hnames : ∀ name ∈ readNames,
      (name.toList ∈ Columns.ofHeader header ↔ name.toList ∈ Columns.ofHeader header'))
    (hrecords : List.Forall₂ (SameReading (Columns.ofHeader header) (Columns.ofHeader header'))
      records records') :
    ingestRecords header records = ingestRecords header' records' := by
  have hmissing : (Columns.required.find? fun name =>
        ((Columns.ofHeader header).position? name).isNone) =
      Columns.required.find? fun name => ((Columns.ofHeader header').position? name).isNone := by
    refine List.find?_congr fun name hname => ?_
    rw [Bool.eq_iff_iff, position?_isNone_iff, position?_isNone_iff,
      hnames name (List.mem_append_left _ hname)]
  rw [ingestRecords, ingestRecords]
  dsimp only
  rw [hmissing, map_zipIdx_congr hrecords 2, hrecords.length_eq]

/-! ## Rearranged sheets -/

/-- No column that is read occurs twice. -/
def Sheet.Single (s : Sheet) : Prop :=
  ∀ name ∈ readNames, (Columns.ofHeader s.header).Single name

theorem ofHeader_reorder (order : List Nat) (header : List (List Char)) :
    Columns.ofHeader (pick order header) = pick order (Columns.ofHeader header) :=
  map_pick ..

theorem ofHeader_widen (i : Nat) (name : List Char) (header : List (List Char)) :
    Columns.ofHeader (header.insertIdx i name) =
      (Columns.ofHeader header).insertIdx i (columnName name) :=
  List.map_insertIdx ..

theorem length_ofHeader (header : List (List Char)) :
    (Columns.ofHeader header).length = header.length :=
  List.length_map ..

/-- The names that are read occur as often as before. -/
theorem count_ofHeader {s s' : Sheet} (h : Rearranged s s') {name : String}
    (hname : name ∈ readNames) :
    (Columns.ofHeader s'.header).count name.toList =
      (Columns.ofHeader s.header).count name.toList := by
  cases h with
  | reorder horder hheader _ =>
    rw [← length_ofHeader] at horder
    rw [hheader, ofHeader_reorder]
    exact (perm_pick horder).count_eq _
  | recase hnames _ => rw [ofHeader_recase hnames]
  | @widen i other cells hi _ hother hheader _ =>
    rw [← length_ofHeader] at hi
    rw [hheader, ofHeader_widen, (List.perm_insertIdx _ _ hi).count_eq,
      List.count_cons_of_ne (hother name hname)]

theorem sameReading_of_rearranged {s s' : Sheet} (h : Rearranged s s') (hs : s.Single)
    (hs' : s'.Single) :
    List.Forall₂ (SameReading (Columns.ofHeader s.header) (Columns.ofHeader s'.header))
      s.records s'.records := by
  have hwide : ∀ {fields}, .ok fields ∈ s.records →
      (Columns.ofHeader s.header).length = fields.length := fun hfields => by
    rw [length_ofHeader, s.wide _ hfields]
  cases h with
  | @reorder order horder hheader hrecords =>
    rw [hrecords]
    refine List.forall₂_map_right_iff.2 (List.forall₂_same.2 fun record hrecord =>
      sameReading_of_cells hs hs' record ?_)
    rintro fields rfl name - cell
    rw [← length_ofHeader] at horder
    have hpairs : order.Perm
        (List.range ((Columns.ofHeader s.header).zip fields).length) := by
      rwa [List.length_zip, ← hwide hrecord, Nat.min_self]
    rw [hheader, ofHeader_reorder, ← pick_zip (hwide hrecord), (perm_pick hpairs).mem_iff]
  | recase hnames hrecords =>
    rw [hrecords, ofHeader_recase hnames]
    exact List.forall₂_same.2 fun _ _ _ => rfl
  | @widen i other cells hi hcells hother hheader hrecords =>
    rw [hrecords]
    refine forall₂_zipWith (fun record hrecord cell => sameReading_of_cells hs hs' record ?_) hcells
    rintro fields rfl name hname cell'
    rw [← length_ofHeader] at hi
    have hpairs : i ≤ ((Columns.ofHeader s.header).zip fields).length := by
      rwa [List.length_zip, ← hwide hrecord, Nat.min_self]
    rw [hheader, ofHeader_widen, zip_insertIdx _ _ (hwide hrecord), List.mem_insertIdx hpairs,
      or_iff_right]
    exact fun hpair => hother name hname (Prod.mk.inj hpair).1.symm

theorem single_of_rearranged {s s' : Sheet} (h : Rearranged s s') (hs : s.Single) : s'.Single :=
  fun name hname => by
    rw [Columns.Single, count_ofHeader h hname]
    exact hs name hname

theorem ingest_of_rearranged {s s' : Sheet} (h : Rearranged s s') (hs : s.Single) :
    s'.ingest = s.ingest := by
  refine (ingestRecords_congr (fun name hname => ?_)
    (sameReading_of_rearranged h hs (single_of_rearranged h hs))).symm
  rw [← List.one_le_count_iff, ← List.one_le_count_iff, count_ofHeader h hname]

/-- **Neither the order of the columns nor the case of their names matters.**  Take
    a sheet whose columns have different names, put its columns in another order,
    change the case of letters in its header and add columns with names that are not
    read, as often as you like: it has the same jets, under the same numbers, and the
    same records are rejected for the same reasons, or it is refused for the same
    reason. -/
theorem columns_in_any_order {s s' : Sheet} (h : Relation.ReflTransGen Rearranged s s')
    (hnames : (Columns.ofHeader s.header).Nodup) : s'.ingest = s.ingest := by
  have hall : s'.Single ∧ s'.ingest = s.ingest := by
    induction h with
    | refl => exact ⟨fun name _ => List.nodup_iff_count_le_one.1 hnames _, rfl⟩
    | tail _ hstep ih =>
      exact ⟨single_of_rearranged hstep ih.1, (ingest_of_rearranged hstep ih.1).trans ih.2⟩
  exact hall.2

/-- Four columns in another order, with other letters and one more column; one of
    the two records is rejected. -/
theorem columns_in_any_order_of_four : ∃ s s' : Sheet,
    s.header = ["Rho".toList, "eta".toList, "PT".toList, "gen_pt".toList] ∧
    s'.header = ["pt".toList, "note".toList, "ETA".toList, "rHo".toList, "Gen_Pt".toList] ∧
    (Columns.ofHeader s.header).Nodup ∧ Relation.ReflTransGen Rearranged s s' ∧
    s'.ingest = s.ingest ∧
    ∃ jets, s'.ingest = .ok jets ∧ jets.rows.map (·.line) = [3] ∧
      jets.rejected = [⟨2, "Invalid `pt` value: 'abc'"⟩] := by
  let s : Sheet := ⟨["Rho".toList, "eta".toList, "PT".toList, "gen_pt".toList],
    [.ok ["20".toList, "1.1".toList, "abc".toList, []],
      .ok ["10".toList, "-0.4".toList, "30".toList, "28".toList]], by simp⟩
  let reordered : Sheet := ⟨["PT".toList, "eta".toList, "Rho".toList, "gen_pt".toList],
    [.ok ["abc".toList, "1.1".toList, "20".toList, []],
      .ok ["30".toList, "-0.4".toList, "10".toList, "28".toList]], by simp⟩
  let recased : Sheet := ⟨["pt".toList, "ETA".toList, "rHo".toList, "Gen_Pt".toList],
    [.ok ["abc".toList, "1.1".toList, "20".toList, []],
      .ok ["30".toList, "-0.4".toList, "10".toList, "28".toList]], by simp⟩
  let s' : Sheet := ⟨["pt".toList, "note".toList, "ETA".toList, "rHo".toList, "Gen_Pt".toList],
    [.ok ["abc".toList, ['a'], "1.1".toList, "20".toList, []],
      .ok ["30".toList, ['b'], "-0.4".toList, "10".toList, "28".toList]], by simp⟩
  have hreorder : Rearranged s reordered :=
    @Rearranged.reorder s reordered [2, 1, 0, 3] (by decide) rfl rfl
  have hrecase : Rearranged reordered recased :=
    .recase (.cons (by decide) (.cons (by decide) (.cons (by decide) (.cons (by decide) .nil)))) rfl
  have hwiden : Rearranged recased s' :=
    @Rearranged.widen recased s' 1 "note".toList [['a'], ['b']] (by decide) rfl (by decide) rfl rfl
  have hall := ((Relation.ReflTransGen.single hreorder).tail hrecase).tail hwiden
  have hnames : (Columns.ofHeader s.header).Nodup := by decide
  exact ⟨s, s', rfl, rfl, hnames, hall, columns_in_any_order hall hnames, _,
    by with_unfolding_all rfl, rfl, rfl⟩

end JetEnergy.Batch
