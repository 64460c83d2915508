import JetEnergy.Csv.Writer
import JetEnergy.Proofs.Csv.Lines
import JetEnergy.Proofs.Text.Bytes

/-!
  Tables are read as they were written.

  * `Reading.after` is the reader without places. Fields do not depend on these:
    `fields_records`.
  * `Reading.after_writeField`: a field is read as it is, quoted or not, once a symbol
    ends it; `Reading.after_writeRecord`. The one field that is lost is an empty one
    alone in its record, which is an empty line (`Visible` excludes it).
  * `fields_write`: a table of visible records is read as it is.
  * `fields_encode`: bytes are read as the characters they stand for. A character that
    means something to the reader is one byte, and no byte of any other character means
    anything to it (`mark_of_mem_encodeChar`), so both readers go the same way, from
    one character to the next: `Reading.after_encodeChar`.
  * `textsOfBytes_write`: both together.
-/
namespace JetEnergy.Csv

/-! ## The reader without places -/

section
variable {α : Type} [Marked α]

/-- A reading after some more symbols, with its places left as they were. -/
def Reading.after (r : Reading α) (text : List α) : Reading α :=
  text.foldl (fun r a => r.take a (Marked.mark a)) r

namespace Reading

theorem after_cons (r : Reading α) (a : α) (text : List α) :
    r.after (a :: text) = (r.take a (Marked.mark a)).after text := rfl

theorem after_append (r : Reading α) (a b : List α) : r.after (a ++ b) = (r.after a).after b :=
  List.foldl_append

theorem Extends.after {r s : Reading α} (h : r.Extends s []) (text : List α) :
    (text.foldl Reading.step r).Extends (s.after text) [] := by
  induction text generalizing r s with
  | nil => exact h
  | cons a text ih =>
    have hadvance : (r.advance (Marked.mark a)).Extends s [] :=
      ⟨h.mode, h.field, h.fields, h.records⟩
    exact ih (hadvance.take a _)

end Reading

/-- What the records of a text hold does not depend on places. -/
theorem fields_records (text : List α) :
    (records text).map (·.fields) = (({} : Reading α).after text).finish.map (·.fields) := by
  have hstart : ({} : Reading α).Extends {} [] := ⟨rfl, rfl, rfl, rfl⟩
  exact (hstart.after text).finish

end

/-! ## Fields that are written -/

/-- A mark that ends a field outside quoted stretches. -/
def Mark.EndsField (m : Mark) : Prop :=
  m = .comma ∨ m.EndsRecord

namespace Reading

section
variable {α : Type} {r : Reading α}

theorem take_quoted (hmode : r.mode = .quoted) (a : α) {m : Mark} (hm : m ≠ .quote) :
    r.take a m = r.keep a .quoted := by
  obtain ⟨mode, _, _, _, _, _⟩ := r
  cases hmode
  cases m with
  | quote => exact absurd rfl hm
  | _ => rfl

theorem take_inField (hmode : r.mode = .inField) (a : α) (m : Mark) :
    r.take a m = r.plain a m := by
  obtain ⟨mode, _, _, _, _, _⟩ := r
  cases hmode
  rfl

theorem take_afterQuote (hmode : r.mode = .afterQuote) (a : α) {m : Mark} (hm : m ≠ .quote) :
    r.take a m = r.plain a m := by
  obtain ⟨mode, _, _, _, _, _⟩ := r
  cases hmode
  cases m with
  | quote => exact absurd rfl hm
  | _ => rfl

/-- A field begins before a symbol, if that is no line end between records. -/
theorem take_opening {m : Mark} (h : r.mode = .atField ∨ r.mode = .between ∧ ¬ m.EndsRecord)
    (a : α) : r.take a m = r.opening a m := by
  obtain ⟨mode, _, _, _, _, _⟩ := r
  rcases h with hmode | ⟨hmode, hm⟩
  · cases hmode
    rfl
  · cases hmode
    cases m with
    | carriageReturn | lineFeed => simp [Mark.EndsRecord] at hm
    | _ => rfl

theorem opening_eq_plain (a : α) {m : Mark} (hm : m ≠ .quote) : r.opening a m = r.plain a m := by
  cases m with
  | quote => exact absurd rfl hm
  | _ => rfl

/-- Where a field ends, it does not matter how it was read. -/
theorem plain_of_endsField {m : Mark} (hm : m.EndsField) (mode : Mode) (a : α) :
    { r with mode }.plain a m = r.plain a m := by
  cases m with
  | quote | other => simp [Mark.EndsField, Mark.EndsRecord] at hm
  | _ => rfl

end

variable {r : Reading Char}

theorem after_doubleQuotes (hmode : r.mode = .quoted) (f : List Char) :
    r.after (doubleQuotes f) = { r with field := f.reverse ++ r.field } := by
  induction f generalizing r with
  | nil => rfl
  | cons c f ih =>
    have hkeep : r.after (if Marked.mark c = .quote then [c, c] else [c]) = r.keep c .quoted := by
      split
      · next hquote => simp [after, take, hmode, hquote, keep]
      · next hother => exact take_quoted hmode c hother
    rw [doubleQuotes, List.flatMap_cons, after_append, hkeep, ← doubleQuotes, ih rfl]
    simp [keep, hmode]

theorem after_plain (hmode : r.mode = .inField) {f : List Char}
    (hplain : ∀ c ∈ f, Marked.mark c = .other) :
    r.after f = { r with field := f.reverse ++ r.field } := by
  induction f generalizing r with
  | nil => rfl
  | cons c f ih =>
    have hkeep : r.take c (Marked.mark c) = r.keep c .inField := by
      rw [take_inField hmode, hplain c (List.mem_cons_self ..)]
      rfl
    rw [after_cons, hkeep, ih rfl fun d hd => hplain d (List.mem_cons_of_mem _ hd)]
    simp [keep, hmode]

theorem ne_quote_of_endsField {m : Mark} (hm : m.EndsField) : m ≠ .quote := by
  rintro rfl
  simp [Mark.EndsField, Mark.EndsRecord] at hm

section
variable {f : List Char} {a : Char}

theorem after_quotedField (hfield : r.field = []) (ha : (Marked.mark a).EndsField)
    (hopen : r.mode = .atField ∨ r.mode = .between) :
    r.after ('"' :: doubleQuotes f ++ ['"'] ++ [a]) =
      { r with field := f.reverse }.plain a (Marked.mark a) := by
  have hquote : Marked.mark '"' = .quote := rfl
  have hopening : r.take '"' .quote = { r with mode := .quoted } :=
    take_opening (hopen.imp_right fun hmode => ⟨hmode, by simp [Mark.EndsRecord]⟩) '"'
  have hread : { r with mode := .quoted }.after (doubleQuotes f) =
      { r with mode := .quoted, field := f.reverse } := by
    rw [after_doubleQuotes rfl, hfield, List.append_nil]
  have hclosing : { r with mode := .quoted, field := f.reverse }.take '"' .quote =
      { r with mode := .afterQuote, field := f.reverse } := rfl
  rw [List.append_assoc, List.cons_append, after_cons, hquote, hopening, after_append, hread,
    List.singleton_append, after_cons, hquote, hclosing, after_cons,
    take_afterQuote rfl a (ne_quote_of_endsField ha)]
  exact plain_of_endsField (r := { r with field := f.reverse }) ha .afterQuote a

theorem after_plainField (hfield : r.field = []) (ha : (Marked.mark a).EndsField) (hne : f ≠ [])
    (hplain : ∀ c ∈ f, Marked.mark c = .other) (hopen : r.mode = .atField ∨ r.mode = .between) :
    r.after (f ++ [a]) = { r with field := f.reverse }.plain a (Marked.mark a) := by
  cases f with
  | nil => exact absurd rfl hne
  | cons c f =>
    have hc : Marked.mark c = .other := hplain c (List.mem_cons_self ..)
    have hstart : r.take c .other = r.keep c .inField :=
      take_opening (hopen.imp_right fun hmode => ⟨hmode, by simp [Mark.EndsRecord]⟩) c
    have hread : (r.keep c .inField).after f =
        { r with mode := .inField, field := (c :: f).reverse } := by
      rw [after_plain rfl fun d hd => hplain d (List.mem_cons_of_mem _ hd)]
      simp [keep, hfield]
    rw [List.cons_append, after_cons, hc, hstart, after_append, hread, after_cons,
      take_inField rfl]
    exact plain_of_endsField (r := { r with field := (c :: f).reverse }) ha .inField a

theorem after_emptyField (ha : (Marked.mark a).EndsField)
    (hopen : r.mode = .atField ∨ r.mode = .between ∧ Marked.mark a = .comma) :
    r.after [a] = r.plain a (Marked.mark a) := by
  have hstart : r.mode = .atField ∨ r.mode = .between ∧ ¬ (Marked.mark a).EndsRecord :=
    hopen.imp_right fun h => ⟨h.1, by simp [h.2, Mark.EndsRecord]⟩
  rw [after_cons, take_opening hstart, opening_eq_plain a (ne_quote_of_endsField ha)]
  rfl

/-- A field that is written is read as it is, once a symbol ends it. Between
    records an empty field cannot be told from no field, unless a comma follows. -/
theorem after_writeField (hfield : r.field = []) (ha : (Marked.mark a).EndsField)
    (hopen : r.mode = .atField ∨ r.mode = .between ∧ (f ≠ [] ∨ Marked.mark a = .comma)) :
    r.after (writeField f ++ [a]) = { r with field := f.reverse }.plain a (Marked.mark a) := by
  have hbegins : r.mode = .atField ∨ r.mode = .between := hopen.imp_right And.left
  rw [writeField]
  split
  · exact after_quotedField hfield ha hbegins
  · next hneeds =>
    have hplain : ∀ c ∈ f, Marked.mark c = .other := by
      simpa [needsQuotes] using hneeds
    by_cases hf : f = []
    · subst hf
      have hempty : { r with field := ([] : List Char).reverse } = r := by
        rw [List.reverse_nil, ← hfield]
      rw [List.nil_append, hempty]
      exact after_emptyField ha (hopen.imp_right fun h =>
        ⟨h.1, h.2.resolve_left (absurd rfl)⟩)
    · exact after_plainField hfield ha hf hplain hbegins

end

/-- A reading that has come to the end of a record, whose last fields are `fs`. -/
def withRecord (r : Reading Char) (fs : List (List Char)) : Reading Char :=
  { r with
    mode := .between
    field := []
    fields := []
    records := ⟨r.start, r.fields.reverse ++ fs⟩ :: r.records
    start := r.here }

/-- The fields of a record that is written are read as they are. Between records a
    record with one empty field cannot be told from an empty line. -/
theorem after_writeRecord {fs : List (List Char)} (hfield : r.field = []) (hne : fs ≠ [])
    (hopen : r.mode = .atField ∨ r.mode = .between ∧ fs ≠ [[]]) :
    r.after (writeRecord fs) = r.withRecord fs := by
  have hcomma : Marked.mark ',' = .comma := rfl
  have hend : Marked.mark '\n' = .lineFeed := rfl
  -- Only the first field can begin between records: a comma stands before all others.
  induction fs generalizing r with
  | nil => exact absurd rfl hne
  | cons f fs ih =>
    cases fs with
    | nil =>
      have hlast : r.mode = .atField ∨ r.mode = .between ∧ (f ≠ [] ∨ Marked.mark '\n' = .comma) :=
        hopen.imp_right fun h => ⟨h.1, Or.inl fun hf => h.2 (by rw [hf])⟩
      rw [writeRecord, List.map_singleton, List.intercalate_singleton,
        after_writeField hfield (Or.inr (Or.inr hend)) hlast, hend]
      simp [plain, endRecord, withRecord]
    | cons g fs =>
      have hnext : r.mode = .atField ∨ r.mode = .between ∧ (f ≠ [] ∨ Marked.mark ',' = .comma) :=
        hopen.imp_right fun h => ⟨h.1, Or.inr hcomma⟩
      have hwrite : writeRecord (f :: g :: fs) =
          writeField f ++ [','] ++ writeRecord (g :: fs) := by
        rw [writeRecord, List.map_cons, List.intercalate_cons_of_ne_nil (by simp),
          List.append_assoc]
        rfl
      rw [hwrite, after_append, after_writeField hfield (Or.inl hcomma) hnext, hcomma,
        ih rfl (List.cons_ne_nil _ _) (Or.inl rfl)]
      simp [plain, endField, withRecord]

end Reading

/-! ## Tables -/

/-- A record that is no empty line when it is written. -/
def Visible (record : List (List Char)) : Prop :=
  record ≠ [] ∧ record ≠ [[]]

theorem visible_of_length {record : List (List Char)} (h : 1 < record.length) : Visible record :=
  ⟨fun hnil => by simp [hnil] at h, fun hone => by simp [hone] at h⟩

theorem Reading.after_write {r : Reading Char} {table : List (List (List Char))}
    (htable : ∀ record ∈ table, Visible record) (hmode : r.mode = .between)
    (hfield : r.field = []) (hfields : r.fields = []) :
    (r.after (write table)).mode = .between ∧
      (r.after (write table)).records.map (·.fields) =
        table.reverse ++ r.records.map (·.fields) := by
  induction table generalizing r with
  | nil => exact ⟨hmode, rfl⟩
  | cons record table ih =>
    obtain ⟨hne, hvisible⟩ := htable record (List.mem_cons_self ..)
    have hrest : ∀ record ∈ table, Visible record :=
      fun record hrecord => htable record (List.mem_cons_of_mem _ hrecord)
    have hwrite : write (record :: table) = writeRecord record ++ write table :=
      List.flatMap_cons
    rw [hwrite, after_append, after_writeRecord hfield hne (Or.inr ⟨hmode, hvisible⟩)]
    obtain ⟨hmode', hrecords⟩ := ih hrest (r := r.withRecord record) rfl rfl rfl
    exact ⟨hmode', by rw [hrecords]; simp [withRecord, hfields]⟩

/-- A table that is written is read as it is. -/
theorem fields_write {table : List (List (List Char))}
    (htable : ∀ record ∈ table, Visible record) :
    (records (write table)).map (·.fields) = table := by
  obtain ⟨hmode, hrecords⟩ :=
    Reading.after_write (r := {}) htable rfl rfl rfl
  rw [fields_records, Reading.finish, hmode, List.map_reverse, hrecords]
  simp

example : (records (write [["a,b".toList, [], "\"c\"\r\n".toList]])).map (·.fields) =
    [["a,b".toList, [], "\"c\"\r\n".toList]] := by
  decide

/-! ## Bytes -/

open Text.Utf8 (encode)

/-- All symbols that matter are in ASCII. -/
theorem markOf_of_le {n : Nat} (h : 128 ≤ n) : markOf n = .other := by
  rw [markOf, if_neg (by omega), if_neg (by omega), if_neg (by omega), if_neg (by omega)]

/-- The bytes of a character have its mark. -/
theorem mark_of_mem_encodeChar {c : Char} {b : UInt8} (h : b ∈ String.utf8EncodeChar c) :
    Marked.mark b = Marked.mark c := by
  show markOf b.toNat = markOf c.val.toNat
  revert h
  fun_cases String.utf8EncodeChar with
  | case1 v hone =>
    intro h
    rw [List.mem_singleton.1 h, UInt8.toNat_ofNat', Nat.mod_eq_of_lt (by omega)]
  | case2 v hone | case3 v hone | case4 v hone =>
    intro h
    have hb : 128 ≤ b.toNat := by
      simp only [List.mem_cons, List.not_mem_nil, or_false, ← UInt8.toNat_inj,
        UInt8.toNat_ofNat'] at h
      omega
    rw [markOf_of_le hb, markOf_of_le (Nat.lt_of_not_le hone)]

/-- A character that matters takes one byte. -/
theorem exists_encodeChar_of_mark {c : Char} (h : Marked.mark c ≠ .other) :
    ∃ b, String.utf8EncodeChar c = [b] := by
  have hascii : c.toNat < 128 := Nat.lt_of_not_le fun hle => h (markOf_of_le hle)
  have hencode := Text.Utf8.encode_ascii hascii []
  rw [encode, List.flatMap_singleton] at hencode
  exact ⟨_, hencode⟩

namespace Reading

/-- A reading of characters as one of their bytes. -/
def encoded (r : Reading Char) : Reading UInt8 where
  mode := r.mode
  field := (encode r.field.reverse).reverse
  fields := r.fields.map encode
  records := r.records.map fun record => ⟨record.start, record.fields.map encode⟩
  start := r.start
  here := r.here

variable {r : Reading Char}

theorem encoded_keep (c : Char) (mode : Mode) :
    (r.keep c mode).encoded =
      { r.encoded with field := (String.utf8EncodeChar c).reverse ++ r.encoded.field, mode } := by
  simp [encoded, keep, encode]

theorem encoded_endField : r.endField.encoded = r.encoded.endField := by
  simp [encoded, endField, encode]

theorem encoded_endRecord : r.endRecord.encoded = r.encoded.endRecord := by
  simp [encoded, endRecord, encode]

/-- A byte of a mark does with the bytes what a character of this mark, which it
    is, does with the characters. -/
theorem take_encoded {c : Char} {b : UInt8} (h : String.utf8EncodeChar c = [b]) (m : Mark) :
    r.encoded.take b m = (r.take c m).encoded := by
  have hkeep : ∀ mode, r.encoded.keep b mode = (r.keep c mode).encoded := fun mode => by
    rw [encoded_keep, h]
    rfl
  have hplain : r.encoded.plain b m = (r.plain c m).encoded := by
    cases m with
    | comma => exact encoded_endField.symm
    | carriageReturn | lineFeed => exact encoded_endRecord.symm
    | quote | other => exact hkeep .inField
  have hopening : r.encoded.opening b m = (r.opening c m).encoded := by
    cases m with
    | quote => rfl
    | _ => exact hplain
  obtain ⟨mode, _, _, _, _, _⟩ := r
  cases mode with
  | between => cases m with
    | carriageReturn | lineFeed => rfl
    | _ => exact hopening
  | atField => exact hopening
  | inField => exact hplain
  | quoted => cases m with
    | quote => rfl
    | _ => exact hkeep .quoted
  | afterQuote => cases m with
    | quote => exact hkeep .quoted
    | _ => exact hplain

/-- The mode after a symbol that has no other meaning. -/
def modeAfterOther : Mode → Mode
  | .quoted => .quoted
  | _ => .inField

theorem take_other {α : Type} (r : Reading α) (a : α) :
    r.take a .other = r.keep a (modeAfterOther r.mode) := by
  obtain ⟨mode, _, _, _, _, _⟩ := r
  cases mode <;> rfl

theorem after_others {α : Type} [Marked α] {r : Reading α} {text : List α} (hne : text ≠ [])
    (hother : ∀ a ∈ text, Marked.mark a = .other) :
    r.after text =
      { r with field := text.reverse ++ r.field, mode := modeAfterOther r.mode } := by
  induction text generalizing r with
  | nil => exact absurd rfl hne
  | cons a text ih =>
    rw [after_cons, hother a (List.mem_cons_self ..), take_other]
    cases text with
    | nil => simp [after, keep]
    | cons b text =>
      rw [ih (List.cons_ne_nil _ _) fun d hd => hother d (List.mem_cons_of_mem _ hd)]
      obtain ⟨mode, _, _, _, _, _⟩ := r
      cases mode <;> simp [keep, modeAfterOther]

/-- The bytes of a character do with the bytes what it does with the characters. -/
theorem after_encodeChar (r : Reading Char) (c : Char) :
    r.encoded.after (String.utf8EncodeChar c) = (r.take c (Marked.mark c)).encoded := by
  -- A character of several bytes means nothing to the reader, and so do its bytes.
  by_cases hother : Marked.mark c = .other
  · rw [after_others String.utf8EncodeChar_ne_nil fun b hb =>
      (mark_of_mem_encodeChar hb).trans hother, hother, take_other, encoded_keep]
    rfl
  · obtain ⟨b, hb⟩ := exists_encodeChar_of_mark hother
    have hmark : Marked.mark b = Marked.mark c :=
      mark_of_mem_encodeChar (hb ▸ List.mem_singleton_self b)
    rw [← take_encoded hb, hb, after_cons, hmark]
    rfl

theorem after_encode (r : Reading Char) (text : List Char) :
    r.encoded.after (encode text) = (r.after text).encoded := by
  induction text generalizing r with
  | nil => rfl
  | cons c text ih =>
    have hencode : encode (c :: text) = String.utf8EncodeChar c ++ encode text := List.flatMap_cons
    rw [hencode, after_append, after_encodeChar, ih, after_cons]

theorem finish_encoded (r : Reading Char) :
    r.encoded.finish.map (·.fields) = (r.finish.map (·.fields)).map (·.map encode) := by
  obtain ⟨mode, _, _, _, _, _⟩ := r
  cases mode <;> simp [finish, encoded, endRecord, encode]

end Reading

/-- Reading the bytes of a text is reading the text. -/
theorem fields_encode (text : List Char) :
    (records (encode text)).map (·.fields) =
      ((records text).map (·.fields)).map (·.map encode) := by
  have hstart : ({} : Reading Char).encoded = {} := rfl
  rw [fields_records, fields_records, ← hstart, Reading.after_encode, Reading.finish_encoded]

/-- Only a text that starts with a byte order mark has one before its bytes. -/
theorem contents_encode {text : List Char} (h : text.head? ≠ some '\uFEFF') :
    contents (encode text) = encode text := by
  refine contents.eq_2 _ fun bytes hbytes => ?_
  cases text with
  | nil => cases hbytes
  | cons c text =>
    obtain ⟨a, tail, hchar, hpiece⟩ := Text.Utf8.piece_encodeChar c (encode text)
    have hencode : encode (c :: text) = a :: (tail ++ encode text) := by
      rw [encode, List.flatMap_cons, hchar]
      rfl
    obtain ⟨rfl, htail⟩ := List.cons.inj (hencode.symm.trans hbytes)
    -- These three bytes are one piece, the mark itself.
    rw [htail] at hpiece
    have hmark : Text.Utf8.piece 0xEF ([0xBB, 0xBF] ++ bytes) = (.char '\uFEFF', 2) :=
      Text.Utf8.piece_three (w := 15) (x := 59) (y := 63) bytes (by decide) (by decide)
        (by decide) (by decide) (by decide) (by decide) (by decide) (by decide)
    have hc := congrArg Prod.fst (hpiece.symm.trans hmark)
    exact h (congrArg some (Text.Utf8.Piece.char.inj hc))

/-- The texts of the fields in a byte sequence, record by record and as they are; for
    a field that is not UTF-8, the offset of what is broken. -/
def textsOfBytes (bytes : List UInt8) : List (List (Except Nat (List Char))) :=
  (recordsOfBytes bytes).map fun record => record.fields.map Text.Utf8.decode

/-- A table is read back from the bytes of what is written, unless that starts with
    a byte order mark. -/
theorem textsOfBytes_write {table : List (List (List Char))}
    (htable : ∀ record ∈ table, Visible record) (hmark : (write table).head? ≠ some '\uFEFF') :
    textsOfBytes (String.ofList (write table)).toUTF8.toList = table.map (·.map .ok) := by
  have hdecode : Text.Utf8.decode ∘ encode = .ok := funext Text.Utf8.decode_encode
  have hfields : (recordsOfBytes (encode (write table))).map (·.fields) =
      table.map (·.map encode) := by
    rw [fields_recordsOfBytes, contents_encode hmark, fields_encode, fields_write htable]
  calc textsOfBytes (String.ofList (write table)).toUTF8.toList
      = ((recordsOfBytes (encode (write table))).map (·.fields)).map
          (·.map Text.Utf8.decode) := by
        rw [textsOfBytes, Text.Utf8.toList_toUTF8, List.map_map]
        rfl
    _ = table.map (·.map .ok) := by
        rw [hfields, List.map_map]
        exact List.map_congr_left fun record _ => by
          rw [Function.comp_apply, List.map_map, hdecode]

end JetEnergy.Csv
