import JetEnergy.Text.Utf8

/-!
  Texts as bytes, and back.

  * `encode_ascii` and `encode_other`: an ASCII character takes one byte, and any
    other starts with a byte that none of them has.
  * `piece_encodeChar`: the bytes of a character are read as one piece, this
    character, whatever follows them. The bytes that follow a lead byte go on with
    it (`following_all`), and the bounds of the first of them, which depend on the
    lead byte, shut out what could be written with fewer bytes and what is no
    character.
  * `decode_encode`: a text is read back from its bytes.
  * `toList_toUTF8`: these are the bytes of a string.
-/
namespace JetEnergy.Text.Utf8

/-! ## Bytes of a text -/

theorem encode_append (a b : List Char) : encode (a ++ b) = encode a ++ encode b :=
  List.flatMap_append

theorem length_encode (text : List Char) : (encode text).length = size text := by
  induction text with
  | nil => rfl
  | cons c text ih =>
    rw [size, ← ih, ← String.length_utf8EncodeChar, ← List.length_append]
    rfl

theorem encode_ascii {c : Char} (h : c.toNat < 128) (text : List Char) :
    encode (c :: text) = UInt8.ofNat c.toNat :: encode text := by
  have hchar : String.utf8EncodeChar c = [UInt8.ofNat c.toNat] := by
    unfold String.utf8EncodeChar
    exact if_pos (Nat.le_of_lt_succ h)
  rw [encode, List.flatMap_cons, hchar]
  rfl

/-- Any other character starts with a byte that no ASCII character has. -/
theorem encode_other {c : Char} (h : ¬ c.toNat < 128) (text : List Char) :
    ∃ b bytes, encode (c :: text) = b :: bytes ∧ 128 ≤ b.toNat := by
  have hchar : ∃ b bytes, String.utf8EncodeChar c = b :: bytes ∧ 128 ≤ b.toNat := by
    fun_cases String.utf8EncodeChar with
    | case1 v hle => exact absurd (Nat.lt_succ_of_le hle) h
    | case2 | case3 | case4 =>
      refine ⟨_, _, rfl, ?_⟩
      rw [UInt8.toNat_ofNat']
      omega
  obtain ⟨b, bytes, hchar, hb⟩ := hchar
  exact ⟨b, bytes ++ encode text, by rw [encode, List.flatMap_cons, hchar]; rfl, hb⟩

/-! ## Characters -/

theorem lead_two {a : UInt8} (hlow : 194 ≤ a.toNat) (hhigh : a.toNat ≤ 223) :
    lead a = some (1, 0x80, 0xBF) := by
  have h : (0xC2 ≤ a && a ≤ 0xDF) = true := by
    simpa [UInt8.le_iff_toNat_le] using ⟨hlow, hhigh⟩
  rw [lead, if_pos h]

theorem lead_three {a : UInt8} (hlow : 224 ≤ a.toNat) (hhigh : a.toNat ≤ 239) :
    lead a = some (2, if a.toNat = 224 then 0xA0 else 0x80,
      if a.toNat = 237 then 0x9F else 0xBF) := by
  simp only [lead, UInt8.le_iff_toNat_le, ← UInt8.toNat_inj, beq_iff_eq, UInt8.reduceToNat]
  grind

theorem lead_four {a : UInt8} (hlow : 240 ≤ a.toNat) (hhigh : a.toNat ≤ 244) :
    lead a = some (3, if a.toNat = 240 then 0x90 else 0x80,
      if a.toNat = 244 then 0x8F else 0xBF) := by
  simp only [lead, UInt8.le_iff_toNat_le, ← UInt8.toNat_inj, beq_iff_eq, UInt8.reduceToNat]
  grind

/-- Bytes between 80 and BF go on with a character. -/
theorem following_all {tail : List UInt8} (rest : List UInt8)
    (h : ∀ b ∈ tail, 0x80 ≤ b.toNat ∧ b.toNat ≤ 0xBF) :
    following tail.length 0x80 0xBF (tail ++ rest) = tail := by
  induction tail with
  | nil => simp [following]
  | cons b tail ih =>
    have hb : (0x80 ≤ b && b ≤ 0xBF) = true := by
      simpa [UInt8.le_iff_toNat_le] using h b (List.mem_cons_self ..)
    rw [List.length_cons, List.cons_append, following, if_pos hb,
      ih fun b hb => h b (List.mem_cons_of_mem _ hb)]

theorem piece_of_lead {a b low high : UInt8} {tail : List UInt8} (rest : List UInt8)
    (ha : 0x80 ≤ a.toNat) (hlead : lead a = some (tail.length + 1, low, high))
    (hlow : low.toNat ≤ b.toNat) (hhigh : b.toNat ≤ high.toNat)
    (htail : ∀ b ∈ tail, 0x80 ≤ b.toNat ∧ b.toNat ≤ 0xBF) :
    piece a (b :: tail ++ rest) =
      (.char (Char.ofNat (codePoint a (b :: tail))), tail.length + 1) := by
  have hascii : ¬ a < 0x80 := fun hlt => Nat.not_lt_of_le ha (UInt8.lt_iff_toNat_lt.1 hlt)
  have hb : (low ≤ b && b ≤ high) = true := by
    simpa [UInt8.le_iff_toNat_le] using ⟨hlow, hhigh⟩
  have hfollowing : following (tail.length + 1) low high (b :: tail ++ rest) = b :: tail := by
    rw [List.cons_append, following, if_pos hb, following_all rest htail]
  simp only [piece, if_neg hascii, hlead, hfollowing, List.length_cons, if_true]

section
variable {a b c d : UInt8} {w x y z : Nat} (rest : List UInt8)

theorem piece_one (ha : a.toNat < 0x80) : piece a rest = (.char (Char.ofNat a.toNat), 0) := by
  have hascii : a < 0x80 := UInt8.lt_iff_toNat_lt.2 ha
  rw [piece, if_pos hascii]

theorem piece_two (ha : a.toNat = 0xC0 + w) (hb : b.toNat = 0x80 + x) (hw : 2 ≤ w)
    (hw' : w < 32) (hx : x < 64) :
    piece a ([b] ++ rest) = (.char (Char.ofNat (64 * w + x)), 1) := by
  have hnumber : codePoint a [b] = 64 * w + x := by
    show 64 * (a.toNat % 32) + b.toNat % 64 = _
    omega
  have hlow : 0x80 ≤ b.toNat := by omega
  have hhigh : b.toNat ≤ 0xBF := by omega
  rw [← hnumber]
  exact piece_of_lead rest (by omega) (lead_two (by omega) (by omega)) hlow hhigh nofun

theorem piece_three (ha : a.toNat = 0xE0 + w) (hb : b.toNat = 0x80 + x) (hc : c.toNat = 0x80 + y)
    (hw : w < 16) (hx : x < 64) (hy : y < 64) (hleast : w = 0 → 32 ≤ x)
    (hsurrogate : w = 13 → x < 32) :
    piece a ([b, c] ++ rest) = (.char (Char.ofNat (64 * (64 * w + x) + y)), 2) := by
  have hnumber : codePoint a [b, c] = 64 * (64 * w + x) + y := by
    show 64 * (64 * (a.toNat % 16) + b.toNat % 64) + c.toNat % 64 = _
    omega
  have hlow : (if a.toNat = 224 then 0xA0 else 0x80 : UInt8).toNat ≤ b.toNat := by
    split
    · exact (by omega : 0xA0 ≤ b.toNat)
    · exact (by omega : 0x80 ≤ b.toNat)
  have hhigh : b.toNat ≤ (if a.toNat = 237 then 0x9F else 0xBF : UInt8).toNat := by
    split
    · exact (by omega : b.toNat ≤ 0x9F)
    · exact (by omega : b.toNat ≤ 0xBF)
  have htail : ∀ d ∈ [c], 0x80 ≤ d.toNat ∧ d.toNat ≤ 0xBF := by
    simp only [List.mem_singleton, forall_eq]
    omega
  rw [← hnumber]
  exact piece_of_lead rest (by omega) (lead_three (by omega) (by omega)) hlow hhigh htail

theorem piece_four (ha : a.toNat = 0xF0 + w) (hb : b.toNat = 0x80 + x) (hc : c.toNat = 0x80 + y)
    (hd : d.toNat = 0x80 + z) (hw : w < 5) (hx : x < 64) (hy : y < 64) (hz : z < 64)
    (hleast : w = 0 → 16 ≤ x) (hgreatest : w = 4 → x < 16) :
    piece a ([b, c, d] ++ rest) =
      (.char (Char.ofNat (64 * (64 * (64 * w + x) + y) + z)), 3) := by
  have hnumber : codePoint a [b, c, d] = 64 * (64 * (64 * w + x) + y) + z := by
    show 64 * (64 * (64 * (a.toNat % 8) + b.toNat % 64) + c.toNat % 64) + d.toNat % 64 = _
    omega
  have hlow : (if a.toNat = 240 then 0x90 else 0x80 : UInt8).toNat ≤ b.toNat := by
    split
    · exact (by omega : 0x90 ≤ b.toNat)
    · exact (by omega : 0x80 ≤ b.toNat)
  have hhigh : b.toNat ≤ (if a.toNat = 244 then 0x8F else 0xBF : UInt8).toNat := by
    split
    · exact (by omega : b.toNat ≤ 0x8F)
    · exact (by omega : b.toNat ≤ 0xBF)
  have htail : ∀ e ∈ [c, d], 0x80 ≤ e.toNat ∧ e.toNat ≤ 0xBF := by
    simp only [List.mem_cons, List.not_mem_nil, or_false, forall_eq_or_imp, forall_eq]
    omega
  rw [← hnumber]
  exact piece_of_lead rest (by omega) (lead_four (by omega) (by omega)) hlow hhigh htail

end

/-- The bytes of a character are the piece that stands for it. -/
theorem piece_encodeChar (c : Char) (rest : List UInt8) : ∃ a tail,
    String.utf8EncodeChar c = a :: tail ∧ piece a (tail ++ rest) = (.char c, tail.length) := by
  have hbyte : ∀ {n : Nat}, n < 256 → (UInt8.ofNat n).toNat = n := fun {n} hn => by
    rw [UInt8.toNat_ofNat', Nat.mod_eq_of_lt hn]
  have hchar : ∀ {n : Nat}, n = c.val.toNat → Char.ofNat n = c := fun {n} hn => by
    rw [hn]
    exact c.ofNat_toNat
  fun_cases String.utf8EncodeChar with
  | case1 v hone =>
    have ha : (UInt8.ofNat v).toNat = v := hbyte (by omega)
    refine ⟨_, _, rfl, ?_⟩
    rw [piece_one _ (by omega), hchar ha]
    rfl
  | case2 v hone htwo =>
    have hlead : (UInt8.ofNat (v / 64 % 0x20 + 0xC0)).toNat = 0xC0 + v / 64 := by
      rw [hbyte] <;> omega
    have hsecond : (UInt8.ofNat (v % 0x40 + 0x80)).toNat = 0x80 + v % 64 := by
      rw [hbyte] <;> omega
    refine ⟨_, _, rfl, ?_⟩
    rw [piece_two rest hlead hsecond (by omega) (by omega) (by omega),
      hchar (by omega : 64 * (v / 64) + v % 64 = v)]
    rfl
  | case3 v hone htwo hthree =>
    have hvalid : v < 0xD800 ∨ 0xDFFF < v ∧ v < 0x110000 := c.valid
    have hlead : (UInt8.ofNat (v / 4096 % 0x10 + 0xE0)).toNat = 0xE0 + v / 4096 := by
      rw [hbyte] <;> omega
    have hsecond : (UInt8.ofNat (v / 64 % 0x40 + 0x80)).toNat = 0x80 + v / 64 % 64 := by
      rw [hbyte] <;> omega
    have hthird : (UInt8.ofNat (v % 0x40 + 0x80)).toNat = 0x80 + v % 64 := by
      rw [hbyte] <;> omega
    refine ⟨_, _, rfl, ?_⟩
    rw [piece_three rest hlead hsecond hthird (by omega) (by omega) (by omega) (by omega)
      (by omega), hchar (by omega : 64 * (64 * (v / 4096) + v / 64 % 64) + v % 64 = v)]
    rfl
  | case4 v hone htwo hthree =>
    have hvalid : v < 0xD800 ∨ 0xDFFF < v ∧ v < 0x110000 := c.valid
    have hlead : (UInt8.ofNat (v / 262144 % 0x08 + 0xF0)).toNat = 0xF0 + v / 262144 := by
      rw [hbyte] <;> omega
    have hsecond : (UInt8.ofNat (v / 4096 % 0x40 + 0x80)).toNat = 0x80 + v / 4096 % 64 := by
      rw [hbyte] <;> omega
    have hthird : (UInt8.ofNat (v / 64 % 0x40 + 0x80)).toNat = 0x80 + v / 64 % 64 := by
      rw [hbyte] <;> omega
    have hfourth : (UInt8.ofNat (v % 0x40 + 0x80)).toNat = 0x80 + v % 64 := by
      rw [hbyte] <;> omega
    refine ⟨_, _, rfl, ?_⟩
    rw [piece_four rest hlead hsecond hthird hfourth (by omega) (by omega) (by omega) (by omega)
      (by omega) (by omega),
      hchar (by omega : 64 * (64 * (64 * (v / 262144) + v / 4096 % 64) + v / 64 % 64) + v % 64 = v)]
    rfl

/-! ## Texts -/

/-- The pieces of the bytes of a text are its characters. -/
theorem piecesAfter_encode (done : List Piece) (text : List Char) :
    piecesAfter done (encode text) = done.reverse ++ text.map .char := by
  induction text generalizing done with
  | nil => simp [encode, piecesAfter]
  | cons c text ih =>
    obtain ⟨a, tail, hbytes, hpiece⟩ := piece_encodeChar c (encode text)
    have hencode : encode (c :: text) = a :: (tail ++ encode text) := by
      rw [encode, List.flatMap_cons, hbytes]
      rfl
    rw [hencode, piecesAfter, hpiece, List.drop_left, ih]
    simp

theorem decodePieces_chars (done : List Char) (offset : Nat) (text : List Char) :
    decodePieces done offset (text.map .char) = .ok (done.reverse ++ text) := by
  induction text generalizing done offset with
  | nil => simp [decodePieces]
  | cons c text ih => simp [decodePieces, ih]

/-- A text is read back from its bytes. -/
theorem decode_encode (text : List Char) : decode (encode text) = .ok text := by
  rw [decode, pieces, piecesAfter_encode]
  exact decodePieces_chars [] 0 text

/-! ## Strings -/

theorem toList_loop_eq (bytes : ByteArray) (i : Nat) (done : List UInt8) :
    ByteArray.toList.loop bytes i done = done.reverse ++ bytes.data.toList.drop i := by
  fun_induction ByteArray.toList.loop bytes i done with
  | case1 i done h ih =>
    have hi : i < bytes.data.toList.length := h
    have hget : bytes.get! i = bytes.data.toList[i] := getElem!_pos bytes.data i h
    rw [ih, List.drop_eq_getElem_cons hi, List.reverse_cons, List.append_assoc, hget]
    rfl
  | case2 i done h =>
    rw [List.drop_eq_nil_of_le (Nat.not_lt.1 h), List.append_nil]

/-- The bytes of a string are those of its characters. -/
theorem toList_toUTF8 (text : List Char) : (String.ofList text).toUTF8.toList = encode text := by
  rw [String.toUTF8_eq_toByteArray, String.toByteArray_ofList, ByteArray.toList, toList_loop_eq,
    List.utf8Encode, List.toList_data_toByteArray]
  rfl

end JetEnergy.Text.Utf8
