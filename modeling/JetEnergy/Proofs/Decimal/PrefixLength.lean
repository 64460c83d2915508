import Mathlib.Data.List.TakeWhile
import JetEnergy.Decimal.Positions
import JetEnergy.Proofs.Decimal.Numerals
import JetEnergy.Proofs.Text.Bytes

/-!
  The scan for a number, over the bytes of a text.

  * `Passes`: a scan has gone over one-byte characters only, so what it has left
    is the bytes of a text again.
  * `prefixLength_fractional` and `prefixLength_whole`: the bytes counted are those
    of the characters that the readings of a field take.
-/
namespace JetEnergy.Decimal

open Text.Utf8

/-! ## Tests of bytes -/

/-- A kind of characters that take one byte. -/
def OneByte (kind : Char → Bool) : Prop :=
  ∀ {c : Char}, kind c = true → c.toNat < 128

theorem oneByte_isDigit : OneByte Char.isDigit := by
  intro c h
  have hc : 48 ≤ c.toNat ∧ c.toNat ≤ 57 := by
    simpa [Char.isDigit, UInt32.le_iff_toNat_le] using h
  omega

theorem oneByte_isSign : OneByte isSign := by
  intro c h
  rcases Bool.or_eq_true_iff.1 h with h | h <;> rw [beq_iff_eq.1 h] <;> decide

theorem oneByte_isPoint : OneByte isPoint := by
  intro c h
  rw [beq_iff_eq.1 h]
  decide

theorem oneByte_isMark : OneByte isMark := by
  intro c h
  rcases Bool.or_eq_true_iff.1 h with h | h <;> rw [beq_iff_eq.1 h] <;> decide

theorem isAscii_ofNat {c : Char} (h : c.toNat < 128) (kind : Char → Bool) :
    isAscii kind (UInt8.ofNat c.toNat) = kind c := by
  have hb : (UInt8.ofNat c.toNat).toNat = c.toNat :=
    (UInt8.toNat_ofNat' ..).trans (Nat.mod_eq_of_lt (by omega))
  have hless : UInt8.ofNat c.toNat < 0x80 := by
    rw [UInt8.lt_iff_toNat_lt, hb]
    exact h
  rw [isAscii, decide_eq_true hless, hb, Char.ofNat_toNat, Bool.true_and]

theorem isAscii_other {b : UInt8} (h : 128 ≤ b.toNat) (kind : Char → Bool) :
    isAscii kind b = false := by
  have hle : ¬ b < 0x80 := by
    rw [UInt8.lt_iff_toNat_lt]
    exact Nat.not_lt.2 h
  rw [isAscii, decide_eq_false hle, Bool.false_and]

section
variable {kind : Char → Bool} (hkind : OneByte kind)
include hkind

theorem OneByte.eq_false {c : Char} (h : ¬ c.toNat < 128) : kind c = false :=
  Bool.eq_false_iff.2 fun hc => h (hkind hc)

/-- A test of the first byte is one of the first character. -/
theorem OneByte.head?_encode (text : List Char) :
    (encode text).head?.any (isAscii kind) = text.head?.any kind := by
  cases text with
  | nil => rfl
  | cons c text =>
    by_cases hc : c.toNat < 128
    · rw [encode_ascii hc]
      exact isAscii_ofNat hc kind
    · obtain ⟨b, bytes, hencode, hb⟩ := encode_other hc text
      rw [hencode]
      exact (isAscii_other hb kind).trans (hkind.eq_false hc).symm

theorem OneByte.takeWhile_encode (text : List Char) :
    ((encode text).takeWhile (isAscii kind)).length = (text.takeWhile kind).length := by
  induction text with
  | nil => rfl
  | cons c text ih =>
    by_cases hc : c.toNat < 128
    · rw [encode_ascii hc, List.takeWhile_cons, List.takeWhile_cons, isAscii_ofNat hc]
      split
      · rw [List.length_cons, List.length_cons, ih]
      · rfl
    · obtain ⟨b, bytes, hencode, hb⟩ := encode_other hc text
      rw [hencode, List.takeWhile_cons_of_neg (by simp [isAscii_other hb]),
        List.takeWhile_cons_of_neg (by simp [hkind.eq_false hc])]
      rfl

end

/-! ## Scans of a text -/

theorem length_encode_ascii {w : List Char} (h : ∀ c ∈ w, c.toNat < 128) :
    (encode w).length = w.length := by
  induction w with
  | nil => rfl
  | cons c w ih =>
    rw [encode_ascii (h c (List.mem_cons_self ..)), List.length_cons, List.length_cons,
      ih fun c hc => h c (List.mem_cons_of_mem _ hc)]

/-- A scan has gone over `n` bytes of a text, each of them a character, and has
    `rest` left. -/
def Passes (n : Nat) (text rest : List Char) : Prop :=
  ∃ w, text = w ++ rest ∧ w.length = n ∧ ∀ c ∈ w, c.toNat < 128

theorem Passes.refl (text : List Char) : Passes 0 text text :=
  ⟨[], rfl, rfl, by simp⟩

theorem Passes.trans {m n : Nat} {a b c : List Char} (h : Passes m a b) (h' : Passes n b c) :
    Passes (m + n) a c := by
  obtain ⟨w, rfl, rfl, hw⟩ := h
  obtain ⟨w', rfl, rfl, hw'⟩ := h'
  exact ⟨w ++ w', (List.append_assoc ..).symm, List.length_append,
    fun c hc => (List.mem_append.1 hc).elim (hw c) (hw' c)⟩

/-- What a scan has left is the bytes of a text. -/
theorem Passes.drop_encode {n : Nat} {text rest : List Char} (h : Passes n text rest) :
    (encode text).drop n = encode rest := by
  obtain ⟨w, rfl, rfl, hw⟩ := h
  rw [encode_append, ← length_encode_ascii hw, List.drop_left]

theorem Passes.size {n : Nat} {w rest : List Char} (h : Passes n (w ++ rest) rest) :
    Text.Utf8.size w = n := by
  obtain ⟨w', heq, rfl, hw⟩ := h
  obtain rfl := List.append_cancel_right heq
  rw [← length_encode, length_encode_ascii hw]

theorem OneByte.passes_takeWhile {kind : Char → Bool} (hkind : OneByte kind) (text : List Char) :
    Passes (text.takeWhile kind).length text (text.dropWhile kind) :=
  ⟨_, List.takeWhile_append_dropWhile.symm, rfl, fun _ hc => hkind (List.mem_takeWhile_imp hc)⟩

/-- A scan of one character. -/
theorem OneByte.passes_head {kind : Char → Bool} (hkind : OneByte kind) {c : Char}
    (hc : kind c = true) (text : List Char) : Passes 1 (c :: text) text :=
  ⟨[c], rfl, rfl, fun _ h => List.mem_singleton.1 h ▸ hkind hc⟩

theorem digitsLength_encode (text : List Char) :
    digitsLength (encode text) = (text.takeWhile Char.isDigit).length :=
  oneByte_isDigit.takeWhile_encode text

theorem digitsLength_passes (text : List Char) :
    Passes (digitsLength (encode text)) text (text.dropWhile Char.isDigit) := by
  rw [digitsLength_encode]
  exact oneByte_isDigit.passes_takeWhile text

theorem signLength_passes (text : List Char) :
    Passes (signLength (encode text)) text (takeSign text).2 := by
  rw [signLength, oneByte_isSign.head?_encode]
  cases text with
  | nil => exact .refl _
  | cons c text =>
    by_cases hsign : isSign c = true
    · rw [if_pos (show (c :: text).head?.any isSign = true from hsign)]
      have hrest : (takeSign (c :: text)).2 = text := by
        rcases Bool.or_eq_true_iff.1 hsign with h | h <;> rw [beq_iff_eq.1 h] <;> rfl
      rw [hrest]
      exact oneByte_isSign.passes_head hsign text
    · rw [if_neg (show ¬ (c :: text).head?.any isSign = true from hsign)]
      have hnone : ¬ c = '+' ∧ ¬ c = '-' := by simpa [isSign] using hsign
      rw [takeSign_eq_self hnone.2 hnone.1]
      exact .refl _

theorem exponentLength_passes (text : List Char) :
    Passes (exponentLength (encode text)) text (takeExponent text).2 := by
  rw [exponentLength, oneByte_isMark.head?_encode]
  cases text with
  | nil => exact .refl _
  | cons c text =>
    by_cases hmark : c = 'e' ∨ c = 'E'
    · have hc : isMark c = true := by simpa [isMark] using hmark
      have hhead := oneByte_isMark.passes_head hc text
      have hsign := hhead.trans (signLength_passes text)
      have hdigits := hsign.trans (digitsLength_passes _)
      rw [if_pos (show (c :: text).head?.any isMark = true from hc), hhead.drop_encode]
      dsimp only
      rw [hsign.drop_encode]
      simp only [takeExponent, if_pos hmark, digitsLength_encode] at hdigits ⊢
      by_cases hnone : (takeSign text).2.takeWhile Char.isDigit = []
      · rw [hnone]
        exact .refl _
      · rw [if_pos (List.length_pos_iff.2 hnone), if_neg (by simpa using hnone)]
        exact hdigits
    · have hc : ¬ isMark c = true := by simpa [isMark] using hmark
      rw [if_neg (show ¬ (c :: text).head?.any isMark = true from hc), takeExponent_eq_self hmark]
      exact .refl _

/-! ## Numbers -/

/-- The scan for a whole number passes the sign and the digits. -/
theorem prefixLength_whole (text : List Char) :
    ((takeSign text).2.takeWhile Char.isDigit = [] ∧ prefixLength false (encode text) = 0) ∨
      ((takeSign text).2.takeWhile Char.isDigit ≠ [] ∧
        Passes (prefixLength false (encode text)) text
          ((takeSign text).2.dropWhile Char.isDigit)) := by
  have hsign := signLength_passes text
  have hdigits := hsign.trans (digitsLength_passes _)
  have hlength : prefixLength false (encode text) =
      if 0 < digitsLength (encode (takeSign text).2) then
        signLength (encode text) + digitsLength (encode (takeSign text).2) else 0 := by
    rw [prefixLength, hsign.drop_encode]
    rfl
  rw [hlength, digitsLength_encode] at *
  by_cases hnone : (takeSign text).2.takeWhile Char.isDigit = []
  · exact Or.inl ⟨hnone, by rw [hnone]; rfl⟩
  · rw [if_pos (List.length_pos_iff.2 hnone)]
    exact Or.inr ⟨hnone, hdigits⟩

/-- What a scan for a number does after the digits before a point. -/
theorem prefixLength_point {i : Nat} {text rest : List Char} (h : Passes i text rest) :
    let point := ((encode text).drop i).head?.any (isAscii isPoint)
    let places := if point then digitsLength ((encode text).drop (i + 1)) else 0
    places = (takeFraction rest).1.length ∧ ∀ whole, 0 < whole + places →
      Passes (if point && 0 < whole + places then i + 1 + places else i) text
        (takeFraction rest).2 := by
  rw [h.drop_encode, oneByte_isPoint.head?_encode, ← List.drop_drop, h.drop_encode]
  dsimp only
  cases rest with
  | nil => exact ⟨rfl, fun _ _ => h⟩
  | cons c rest =>
    by_cases hpoint : c = '.'
    · subst hpoint
      have hpoint : ('.' :: rest).head?.any isPoint = true := rfl
      have hhead := oneByte_isPoint.passes_head (c := '.') (by decide) rest
      have hplaces : digitsLength (((encode ('.' :: rest))).drop 1) =
          (takeFraction ('.' :: rest)).1.length := by
        rw [hhead.drop_encode]
        exact digitsLength_encode rest
      rw [if_pos hpoint, hplaces]
      refine ⟨rfl, fun whole hsome => ?_⟩
      rw [if_pos (Bool.and_eq_true_iff.2 ⟨hpoint, decide_eq_true hsome⟩)]
      exact (h.trans hhead).trans (oneByte_isDigit.passes_takeWhile rest)
    · have hnone : (c :: rest).head?.any isPoint = false := by simpa [isPoint] using hpoint
      rw [takeFraction_eq_self hpoint, hnone]
      exact ⟨rfl, fun _ _ => h⟩

/-- The scan for a number passes what is read as one. -/
theorem prefixLength_fractional (text : List Char) :
    (Numeral.leading? text = none ∧ prefixLength true (encode text) = 0) ∨
      ∃ n rest, Numeral.leading? text = some (n, rest) ∧
        Passes (prefixLength true (encode text)) text rest := by
  have hsign := signLength_passes text
  obtain ⟨hplaces, hpoint⟩ := prefixLength_point (hsign.trans (digitsLength_passes _))
  unfold prefixLength
  simp only [Bool.not_true, Bool.false_eq_true, if_false, hsign.drop_encode] at hplaces hpoint ⊢
  rw [hplaces] at hpoint ⊢
  have hwhole := digitsLength_encode (takeSign text).2
  simp only [Numeral.leading?, Numeral.unsigned?]
  by_cases hnone : digitsLength (encode (takeSign text).2) +
      (takeFraction ((takeSign text).2.dropWhile Char.isDigit)).1.length = 0
  · rw [if_pos hnone]
    rw [hwhole, Nat.add_eq_zero_iff, List.length_eq_zero_iff, List.length_eq_zero_iff] at hnone
    exact Or.inl ⟨by simp [hnone.1, hnone.2], rfl⟩
  · have hj := hpoint _ (Nat.pos_of_ne_zero hnone)
    have hsome : ¬ (((takeSign text).2.takeWhile Char.isDigit).isEmpty &&
        (takeFraction ((takeSign text).2.dropWhile Char.isDigit)).1.isEmpty) = true := by
      rw [hwhole] at hnone
      simpa [List.length_eq_zero_iff] using hnone
    rw [if_neg hnone, if_neg hsome, hj.drop_encode]
    exact Or.inr ⟨_, _, rfl, hj.trans (exponentLength_passes _)⟩

/-- An exponent without digits is left out, and so is a point without any. -/
example : prefixLength true (encode ['+', '.', '5', 'e', '-', '3', 'µ']) = 6 ∧
    prefixLength true (encode ['3', '.', 'e', '+']) = 2 ∧
    prefixLength true (encode ['-', '.', 'e', '5']) = 0 := by
  decide

/-- A text can be cut after `n` of its bytes. -/
def CharBoundary (text : List Char) (n : Nat) : Prop :=
  ∃ w, w <+: text ∧ Text.Utf8.size w = n

theorem CharBoundary.zero (text : List Char) : CharBoundary text 0 :=
  ⟨[], List.nil_prefix, rfl⟩

theorem Passes.charBoundary {n : Nat} {text rest : List Char} (h : Passes n text rest) :
    CharBoundary text n := by
  obtain ⟨w, rfl, -⟩ := id h
  exact ⟨w, List.prefix_append .., h.size⟩

theorem prefixLength_charBoundary (text : List Char) (fractional : Bool) :
    CharBoundary text (prefixLength fractional (encode text)) := by
  cases fractional with
  | true =>
    rcases prefixLength_fractional text with ⟨-, hzero⟩ | ⟨n, rest, -, hpasses⟩
    · rw [hzero]
      exact .zero text
    · exact hpasses.charBoundary
  | false =>
    rcases prefixLength_whole text with ⟨-, hzero⟩ | ⟨-, hpasses⟩
    · rw [hzero]
      exact .zero text
    · exact hpasses.charBoundary

end JetEnergy.Decimal
