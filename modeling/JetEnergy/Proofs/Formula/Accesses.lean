import JetEnergy.Formula.Positions
import JetEnergy.Proofs.Decimal.PrefixLength
import JetEnergy.Proofs.Formula.Tokenizing
import JetEnergy.Proofs.Lists

/-!
  Reading a formula byte by byte.

  * `At source i text`: byte `i` of `source` is where its end `text` starts.  A text
    can be cut in these places, and each scan stops in one.
  * `tokensAt_eq`: no access to the bytes of a formula fails, and the tokens read
    through them are those of the formula.
-/
namespace JetEnergy.Formula

open Decimal Text.Utf8

/-! ## Cuts -/

theorem exists_size_cons (c : Char) (w : List Char) :
    ∃ n, size (c :: w) = n + 1 ∧ c.utf8Size ≤ n + 1 ∧ n + 1 - c.utf8Size = size w := by
  have hpos := c.utf8Size_pos
  rw [size]
  exact ⟨c.utf8Size + size w - 1, by omega, by omega, by omega⟩

theorem dropBytes_append (w text : List Char) : dropBytes (w ++ text) (size w) = .ok text := by
  induction w with
  | nil => simp [size, dropBytes]
  | cons c w ih =>
    obtain ⟨n, hn, hle, hrest⟩ := exists_size_cons c w
    rw [hn, List.cons_append, dropBytes, if_pos hle, hrest, ih]

theorem takeBytes_append (w text : List Char) : takeBytes (w ++ text) (size w) = .ok w := by
  induction w with
  | nil => simp [size, takeBytes]
  | cons c w ih =>
    obtain ⟨n, hn, hle, hrest⟩ := exists_size_cons c w
    rw [hn, List.cons_append, takeBytes, if_pos hle, hrest, ih]
    rfl

/-- A character of two bytes is cut out as a whole or not at all. -/
example : cut ['[', 'µ', ']'] 1 3 = .ok ['µ'] ∧ cut ['[', 'µ', ']'] 1 2 = .error .split := by
  decide

/-! ## First bytes -/

/-- A character starts with a byte: an ASCII one is this byte, any other one starts
    with a byte that is not ASCII. -/
def FirstByte (c : Char) (b : UInt8) : Prop :=
  (c.toNat < 128 ∧ b = UInt8.ofNat c.toNat) ∨ (¬ c.toNat < 128 ∧ 128 ≤ b.toNat)

theorem exists_firstByte (c : Char) (text : List Char) :
    ∃ b, (encode (c :: text)).head? = some b ∧ FirstByte c b := by
  by_cases hc : c.toNat < 128
  · exact ⟨_, by rw [encode_ascii hc, List.head?_cons], Or.inl ⟨hc, rfl⟩⟩
  · obtain ⟨b, bytes, hencode, hb⟩ := encode_other hc text
    exact ⟨b, by rw [hencode, List.head?_cons], Or.inr ⟨hc, hb⟩⟩

theorem FirstByte.isAscii_eq {c : Char} {b : UInt8} (h : FirstByte c b) {kind : Char → Bool}
    (hkind : OneByte kind) : isAscii kind b = kind c := by
  rcases h with ⟨hc, rfl⟩ | ⟨hc, hb⟩
  · exact isAscii_ofNat hc kind
  · rw [isAscii_other hb, hkind.eq_false hc]

theorem toNat_ofNat_byte (b : UInt8) : (Char.ofNat b.toNat).toNat = b.toNat := by
  have hlt := b.toNat_lt
  have hvalid : b.toNat.isValidChar := Or.inl (by omega)
  rw [Char.ofNat, dif_pos hvalid]
  rfl

/-- A byte read as a character of its own is the character it starts, or neither of
    them is ASCII. -/
theorem FirstByte.ofNat_eq {c : Char} {b : UInt8} (h : FirstByte c b) :
    c.toNat < 128 ∧ Char.ofNat b.toNat = c ∨
      128 ≤ (Char.ofNat b.toNat).toNat ∧ 128 ≤ c.toNat := by
  rcases h with ⟨hc, rfl⟩ | ⟨hc, hb⟩
  · left
    rw [UInt8.toNat_ofNat', Nat.mod_eq_of_lt (by omega), Char.ofNat_toNat]
    exact ⟨hc, rfl⟩
  · exact Or.inr ⟨by rwa [toNat_ofNat_byte], Nat.not_lt.1 hc⟩

theorem mark?_eq_none {c : Char} (h : 128 ≤ c.toNat) (next : Option Char) :
    mark? c next = none := by
  unfold mark?
  split <;> first
    | rfl
    | exact absurd h (by decide)

/-- A character that is not ASCII ends a mark. -/
theorem mark?_other (c : Char) {d : Char} (h : 128 ≤ d.toNat) :
    mark? c (some d) = mark? c none := by
  have hstar : d ≠ '*' := by rintro rfl; exact absurd h (by decide)
  have hequals : d ≠ '=' := by rintro rfl; exact absurd h (by decide)
  have hand : d ≠ '&' := by rintro rfl; exact absurd h (by decide)
  have hbar : d ≠ '|' := by rintro rfl; exact absurd h (by decide)
  unfold mark?
  split <;> simp_all

/-! ## Kinds of characters -/

theorem oneByte_isAlphanum : OneByte Char.isAlphanum := by
  intro c h
  rcases Bool.or_eq_true_iff.1 h with hletter | hdigit
  · have hlast : c.val ≤ 'z'.val := by
      rcases Bool.or_eq_true_iff.1 hletter with hupper | hlower
      · exact UInt32.le_trans (of_decide_eq_true hupper).2 (by decide)
      · exact of_decide_eq_true (Bool.and_eq_true_iff.1 hlower).2
    exact Nat.lt_of_le_of_lt (UInt32.le_iff_toNat_le.1 hlast) (by decide)
  · exact oneByte_isDigit hdigit

theorem oneByte_isNameChar : OneByte isNameChar := by
  intro c h
  rcases Bool.or_eq_true_iff.1 h with h | h
  · exact oneByte_isAlphanum h
  · rw [of_decide_eq_true h]; decide

theorem oneByte_isNameStart : OneByte isNameStart := by
  intro c h
  refine oneByte_isNameChar (Bool.or_eq_true_iff.2 ((Bool.or_eq_true_iff.1 h).imp_left fun h => ?_))
  exact Bool.or_eq_true_iff.2 (Or.inl h)

theorem oneByte_isColon : OneByte isColon := by
  intro c h
  rw [of_decide_eq_true h]; decide

theorem oneByte_isBracket : OneByte isBracket := by
  intro c h
  rw [of_decide_eq_true h]; decide

theorem oneByte_isGap : OneByte isGap := by
  intro c h
  simp only [isGap, Bool.or_eq_true, decide_eq_true_eq] at h
  rcases h with (((rfl | rfl) | rfl) | rfl) | rfl <;> decide

/-! ## Places -/

/-- Byte `i` of a text is where its end `text` starts. -/
def At (source : List Char) (i : Nat) (text : List Char) : Prop :=
  ∃ before, source = before ++ text ∧ size before = i

namespace At

variable {source text rest w : List Char} {i j : Nat} {c : Char} {b : UInt8}

theorem zero (source : List Char) : At source 0 source :=
  ⟨[], rfl, rfl⟩

theorem append (h : At source i (w ++ rest)) : At source (i + size w) rest := by
  obtain ⟨before, rfl, rfl⟩ := h
  exact ⟨before ++ w, (List.append_assoc ..).symm, size_append ..⟩

/-- Past an ASCII character it is one byte further. -/
theorem tail (h : At source i (c :: rest)) (hc : c.toNat < 128) : At source (i + 1) rest := by
  have hone : size [c] = 1 := by rw [← length_encode, encode_ascii hc]; rfl
  exact hone ▸ h.append (w := [c])

theorem eq_add (h : At source i (w ++ rest)) (h' : At source j rest) : j = i + size w := by
  obtain ⟨before, rfl, rfl⟩ := h'
  obtain ⟨before', heq, hsize⟩ := h.append
  rw [← hsize, List.append_cancel_right heq]

theorem cut_eq (h : At source i (w ++ rest)) (h' : At source j rest) : cut source i j = .ok w := by
  obtain rfl := h.eq_add h'
  obtain ⟨before, rfl, rfl⟩ := h
  rw [cut, if_pos (Nat.le_add_right _ _), dropBytes_append, Nat.add_sub_cancel_left]
  exact takeBytes_append w rest

theorem dropBytes_eq (h : At source i text) : dropBytes source i = .ok text := by
  obtain ⟨before, rfl, rfl⟩ := h
  exact dropBytes_append before text

theorem charBoundary (h : At source i text) : CharBoundary source i := by
  obtain ⟨before, rfl, hsize⟩ := h
  exact ⟨before, List.prefix_append .., hsize⟩

theorem le_size (h : At source i text) : i ≤ size source := by
  obtain ⟨before, rfl, rfl⟩ := h
  rw [size_append]
  exact Nat.le_add_right ..

theorem lt_size (h : At source i (c :: rest)) : i < size source := by
  have hnext : i + size [c] ≤ size source := (h.append (w := [c])).le_size
  have hpos : 0 < size [c] := c.utf8Size_pos
  omega

theorem getElem? (h : At source i text) : (encode source)[i]? = (encode text).head? := by
  obtain ⟨before, rfl, rfl⟩ := h
  rw [encode_append, ← length_encode, ← List.head?_drop, List.drop_left]

theorem lt_length (h : At source i (c :: rest)) : i < (encode source).length := by
  obtain ⟨b, hb, -⟩ := exists_firstByte c rest
  exact (List.getElem?_eq_some_iff.1 (h.getElem?.trans hb)).1

theorem not_lt_length (h : At source i []) : ¬ i < (encode source).length :=
  Nat.not_lt.2 (List.getElem?_eq_none_iff.1 h.getElem?)

theorem exists_byte (h : At source i (c :: rest)) :
    ∃ b, byteAt (encode source) i = .ok b ∧ FirstByte c b := by
  obtain ⟨b, hb, hfirst⟩ := exists_firstByte c rest
  exact ⟨b, by rw [byteAt, h.getElem?, hb], hfirst⟩

/-- A test of two bytes is one of two characters. -/
theorem test_pair (h : At source i (c :: rest)) (hb : FirstByte c b) {kind kind' : Char → Bool}
    (hkind : OneByte kind) (hkind' : OneByte kind') :
    (isAscii kind b && (encode source)[i + 1]?.any (isAscii kind')) =
      (kind c && rest.head?.any kind') := by
  rw [hb.isAscii_eq hkind]
  cases hc : kind c with
  | false => rfl
  | true => rw [(h.tail (hkind hc)).getElem?, hkind'.head?_encode]

/-- A mark of bytes is one of characters. -/
theorem mark?_eq (h : At source i (c :: rest)) (hb : FirstByte c b) :
    mark? (Char.ofNat b.toNat)
        ((encode source)[i + 1]?.map fun next => Char.ofNat next.toNat) =
      mark? c rest.head? := by
  rcases hb.ofNat_eq with ⟨hc, hself⟩ | ⟨hbyte, hc⟩
  · rw [hself, (h.tail hc).getElem?]
    cases rest with
    | nil => rfl
    | cons d rest =>
      obtain ⟨next, hnext, hfirst⟩ := exists_firstByte d rest
      rw [hnext, Option.map_some, List.head?_cons]
      rcases hfirst.ofNat_eq with ⟨-, heq⟩ | ⟨hnext, hd⟩
      · rw [heq]
      · rw [mark?_other c hnext, mark?_other c hd]
  · rw [mark?_eq_none hbyte, mark?_eq_none hc]

end At

/-! ## Scans of a text -/

section
variable {source text rest : List Char} {i : Nat}

theorem scanOver_eq {kind : Char → Bool} (hkind : OneByte kind) (h : At source i text) :
    ∃ j, scanOver kind (encode source) i = .ok j ∧ At source j (text.dropWhile kind) := by
  induction text generalizing i with
  | nil => exact ⟨i, by rw [scanOver, dif_neg h.not_lt_length]; rfl, h⟩
  | cons c text ih =>
    obtain ⟨b, hb, hfirst⟩ := h.exists_byte
    have hstep : scanOver kind (encode source) i =
        if kind c then scanOver kind (encode source) (i + 1) else .ok i := by
      rw [scanOver, dif_pos h.lt_length, hb, ← hfirst.isAscii_eq hkind]
      rfl
    rw [hstep, List.dropWhile_cons]
    cases hc : kind c with
    | true => exact ih (h.tail (hkind hc))
    | false => exact ⟨i, rfl, h⟩

theorem testAt_eq {kind : Char → Bool} (hkind : OneByte kind) (h : At source i text) :
    testAt kind (encode source) i = .ok (text.head?.any kind) := by
  cases text with
  | nil => rw [testAt, if_neg h.not_lt_length]; rfl
  | cons c text =>
    obtain ⟨b, hb, hfirst⟩ := h.exists_byte
    rw [testAt, if_pos h.lt_length, hb, List.head?_cons, Option.any_some,
      ← hfirst.isAscii_eq hkind]
    rfl

theorem scanFraction_eq (h : At source i text) :
    ∃ j, scanFraction (encode source) i = .ok j ∧ At source j (takeFraction text).2 := by
  have hstep : scanFraction (encode source) i =
      if text.head?.any isPoint then scanOver Char.isDigit (encode source) (i + 1) else .ok i := by
    rw [scanFraction, testAt_eq oneByte_isPoint h]
    rfl
  rw [hstep]
  cases text with
  | nil => exact ⟨i, rfl, h⟩
  | cons c text =>
    by_cases hpoint : c = '.'
    · subst hpoint
      exact scanOver_eq oneByte_isDigit (h.tail (by decide))
    · rw [takeFraction_eq_self hpoint, List.head?_cons, Option.any_some,
        if_neg (by simpa [isPoint] using hpoint)]
      exact ⟨i, rfl, h⟩

/-- The place after a sign. -/
theorem At.sign (h : At source i text) :
    At source (if text.head?.any isSign then i + 1 else i) (takeSign text).2 := by
  cases text with
  | nil => exact h
  | cons c text =>
    by_cases hsign : c = '-' ∨ c = '+'
    · rw [if_pos (by rcases hsign with rfl | rfl <;> rfl)]
      rcases hsign with rfl | rfl
      · exact h.tail (by decide)
      · exact h.tail (by decide)
    · obtain ⟨hminus, hplus⟩ := not_or.1 hsign
      rw [takeSign_eq_self hminus hplus, if_neg (by simp [isSign, hminus, hplus])]
      exact h

theorem scanExponent_eq (h : At source i text) :
    ∃ j, scanExponent (encode source) i = .ok j ∧ At source j (takeExponent text).2 := by
  cases text with
  | nil =>
    refine ⟨i, ?_, h⟩
    rw [scanExponent, testAt_eq oneByte_isMark h]
    rfl
  | cons c text =>
    by_cases hmark : c = 'e' ∨ c = 'E'
    · have hafter := h.tail (by rcases hmark with rfl | rfl <;> decide)
      have hsign := hafter.sign
      generalize hj : (if text.head?.any isSign then i + 1 + 1 else i + 1) = j at hsign
      have hstep : scanExponent (encode source) i =
          if (takeSign text).2.head?.any Char.isDigit then
            scanOver Char.isDigit (encode source) j else .ok i := by
        rw [scanExponent, testAt_eq oneByte_isMark h, List.head?_cons, Option.any_some,
          show isMark c = true by simpa [isMark] using hmark]
        simp only [bind, Except.bind, if_true, testAt_eq oneByte_isSign hafter, hj,
          testAt_eq oneByte_isDigit hsign]
        rfl
      rw [hstep, takeExponent, if_pos hmark]
      cases hdigit : (takeSign text).2.head?.any Char.isDigit with
      | true =>
        have hsome : ¬ ((takeSign text).2.takeWhile Char.isDigit).isEmpty = true := by
          simp [isEmpty_takeWhile, hdigit]
        rw [if_pos rfl]
        simp only [if_neg hsome]
        exact scanOver_eq oneByte_isDigit hsign
      | false =>
        have hnone : ((takeSign text).2.takeWhile Char.isDigit).isEmpty = true := by
          simp [isEmpty_takeWhile, hdigit]
        rw [if_neg (by decide)]
        simp only [if_pos hnone]
        exact ⟨i, rfl, h⟩
    · rw [takeExponent_eq_self hmark]
      refine ⟨i, ?_, h⟩
      rw [scanExponent, testAt_eq oneByte_isMark h, List.head?_cons, Option.any_some,
        show isMark c = false by simpa [isMark] using hmark]
      rfl

theorem scanNumber_eq {n : Numeral} (h : At source i text)
    (hread : Numeral.unsigned? text = some (n, rest)) :
    ∃ j, scanNumber (encode source) i = .ok j ∧ At source j rest := by
  obtain ⟨i₁, h₁, hwhole⟩ := scanOver_eq oneByte_isDigit h
  obtain ⟨i₂, h₂, hfraction⟩ := scanFraction_eq hwhole
  obtain ⟨i₃, h₃, hexponent⟩ := scanExponent_eq hfraction
  refine ⟨i₃, ?_, ?_⟩
  · rw [scanNumber, h₁]
    simp only [bind, Except.bind, h₂, h₃]
  · simp only [Numeral.unsigned?] at hread
    split at hread
    · cases hread
    · cases hread
      exact hexponent

theorem scanName_cons {c : Char} (h : At source i (c :: rest)) :
    scanName (encode source) i =
      if isNameChar c then scanName (encode source) (i + 1)
      else if isColon c && rest.head?.any isColon then scanName (encode source) (i + 2)
      else .ok i := by
  obtain ⟨b, hb, hfirst⟩ := h.exists_byte
  rw [scanName, dif_pos h.lt_length, hb, ← hfirst.isAscii_eq oneByte_isNameChar,
    ← h.test_pair hfirst oneByte_isColon oneByte_isColon]
  rfl

theorem scanName_eq (h : At source i text) :
    ∃ j, scanName (encode source) i = .ok j ∧
      At source j (text.drop (takeName text).length) := by
  fun_induction takeName text generalizing i with
  | case1 rest ih =>
    rw [scanName_cons h]
    exact ih ((h.tail (by decide)).tail (by decide))
  | case2 c rest hcolons hc ih =>
    rw [scanName_cons h, if_pos (show isNameChar c = true from hc)]
    exact ih (h.tail (oneByte_isNameChar hc))
  | case3 c rest hcolons hc =>
    have hpair : ¬ (isColon c && rest.head?.any isColon) = true := by
      intro hpair
      obtain ⟨hcolon, hnext⟩ := Bool.and_eq_true_iff.1 hpair
      obtain ⟨d, hd, hnext⟩ := (Option.any_eq_true ..).1 hnext
      obtain ⟨rest, rfl⟩ := List.head?_eq_some_iff.1 hd
      exact hcolons rest (of_decide_eq_true hcolon) (by rw [of_decide_eq_true hnext])
    rw [scanName_cons h, if_neg (show ¬ isNameChar c = true from hc), if_neg hpair]
    exact ⟨i, rfl, h⟩
  | case4 => exact ⟨i, by rw [scanName, dif_neg h.not_lt_length]; rfl, h⟩

end

/-! ## Lexemes -/

section
variable {source rest : List Char} {i : Nat} {c : Char} {b : UInt8}

/-- A number starts with a digit, or with a point before a digit. -/
theorem isSome_unsigned? (c : Char) (rest : List Char) :
    (Numeral.unsigned? (c :: rest)).isSome =
      (c.isDigit || isPoint c && rest.head?.any Char.isDigit) := by
  cases hdigit : c.isDigit with
  | true =>
    obtain ⟨found, hfound⟩ := exists_unsigned? hdigit rest
    rw [hfound]
    rfl
  | false =>
    by_cases hpoint : c = '.'
    · subst hpoint
      have hsome := isEmpty_takeWhile Char.isDigit rest
      cases hhead : rest.head?.any Char.isDigit <;>
        simp_all [Numeral.unsigned?, takeFraction, isPoint]
    · rw [unsigned?_eq_none hdigit hpoint, show isPoint c = false by simpa [isPoint] using hpoint]
      rfl

theorem closing?_append {inner : List Char} (h : ']' ∉ inner) (after : List Char) :
    closing? (inner ++ ']' :: after) = some (size inner) := by
  rw [closing?, if_pos (by simp), takeWhile_bracket h]

/-- The symbol that is read at a place, and the position where it ends. -/
def ended (i : Nat) (c : Char) (rest : List Char) (found : Symbol × Nat) : Symbol × Nat :=
  (found.1, i + size (c :: rest.take found.2))

theorem ended_eq {j : Nat} {w after : List Char} (h : At source i (c :: (w ++ after)))
    (h' : At source j after) (s : Symbol) : ended i c (w ++ after) (s, w.length) = (s, j) := by
  have hplace : At source i ((c :: w) ++ after) := h
  rw [ended, List.take_left, hplace.eq_add h']

theorem numberAt_eq {found : Numeral × List Char} (h : At source i (c :: rest))
    (hread : Numeral.unsigned? (c :: rest) = some found) :
    numberAt source i = .ok ((lexeme c rest).map (ended i c rest)) := by
  obtain ⟨n, after⟩ := found
  obtain ⟨w, hsplit, hw⟩ := unsigned?_sound hread
  obtain ⟨d, w, rfl, -⟩ := hw.head
  rw [List.cons_append] at hsplit
  obtain ⟨rfl, rfl⟩ := List.cons.inj hsplit
  obtain ⟨j, hscan, hj⟩ := scanNumber_eq h hread
  have hcut : cut source i j = .ok (c :: w) := At.cut_eq (w := c :: w) h hj
  have hlength : (w ++ after).length - after.length = w.length := by simp
  rw [lexeme_number hread, hlength, Except.map, ended_eq h hj]
  simp only [numberAt, bind, Except.bind, hscan, hcut, float?_of_numberText hw]
  rfl

theorem nameAt_eq (h : At source i (c :: rest)) (hname : isNameStart c = true) :
    nameAt source i = .ok ((lexeme c rest).map (ended i c rest)) := by
  have hchar : (c.isAlphanum || c = '_') = true := by
    rcases Bool.or_eq_true_iff.1 hname with halpha | hunder
    · simp [Char.isAlphanum, halpha]
    · simp [hunder]
  obtain ⟨j, hscan, hj⟩ := scanName_eq h
  obtain ⟨w, after, rfl, hw⟩ : ∃ w after, rest = w ++ after ∧ takeName rest = w :=
    ⟨_, _, (takeName_split rest).1, rfl⟩
  rw [takeName_cons hchar, hw, List.length_cons, List.drop_succ_cons, List.drop_left] at hj
  have hcut : cut source i j = .ok (c :: w) := At.cut_eq (w := c :: w) h hj
  rw [lexeme_name hname, hw, Except.map, ended_eq h hj]
  simp only [nameAt, bind, Except.bind, hscan, hcut]
  rfl

theorem size_eq_length {w : List Char} (h : ∀ c ∈ w, c.toNat < 128) : size w = w.length := by
  rw [← length_encode, length_encode_ascii h]

theorem markAt_eq (h : At source i (c :: rest)) (hb : FirstByte c b)
    (hnumber : Numeral.unsigned? (c :: rest) = none) (hname : isNameStart c = false)
    (hbracket : c ≠ '[') :
    markAt source i b = .ok ((lexeme c rest).map (ended i c rest)) := by
  rw [markAt, h.mark?_eq hb, h.dropBytes_eq, lexeme_mark hnumber hname hbracket]
  cases hmark : mark? c rest.head? with
  | none => rfl
  | some found =>
    obtain ⟨s, extra⟩ := found
    obtain ⟨w, after, rfl, rfl, hmem⟩ : ∃ w after, rest = w ++ after ∧ extra = w.length ∧
        (c :: w, s) ∈ marks := by
      rcases mark?_sound hmark with ⟨rfl, hmem⟩ | ⟨rfl, d, hd, hmem⟩
      · exact ⟨[], rest, rfl, rfl, hmem⟩
      · obtain ⟨after, rfl⟩ := List.head?_eq_some_iff.1 hd
        exact ⟨[d], after, rfl, rfl, hmem⟩
    have hascii : ∀ p ∈ marks, ∀ c ∈ p.1, c.toNat < 128 := by simp [marks]
    have hend : ended i c (w ++ after) (s, w.length) = (s, i + 1 + w.length) := by
      rw [ended, List.take_left, size_eq_length (hascii _ hmem), List.length_cons]
      rw [Nat.add_comm w.length, Nat.add_assoc]
    simp only [Except.map, hend]
    rfl

theorem referenceAt_eq (h : At source i ('[' :: rest)) :
    referenceAt source i = .ok ((lexeme '[' rest).map (ended i '[' rest)) := by
  rw [referenceAt, h.dropBytes_eq]
  by_cases hclose : ']' ∈ rest
  · obtain ⟨inner, after, rfl, hinner⟩ := List.eq_append_cons_of_mem hclose
    have hopen : ']' ∉ '[' :: inner := by simpa using hinner
    have hbefore : At source (i + 1) (inner ++ ']' :: after) := h.tail (by decide)
    have hend : At source (i + size ('[' :: inner)) (']' :: after) := h.append (w := '[' :: inner)
    have hclosing : closing? ('[' :: (inner ++ ']' :: after)) = some (size ('[' :: inner)) :=
      closing?_append hopen after
    rw [lexeme_reference hinner]
    simp only [bind, Except.bind, hclosing, hbefore.cut_eq hend]
    cases index? (Text.trim inner) with
    | none => rfl
    | some index =>
      have hsize : size ('[' :: (inner ++ ']' :: after).take (inner.length + 1)) =
          size ('[' :: inner) + 1 := by
        rw [List.take_length_add_append, ← List.cons_append, size_append]
        rfl
      simp only [Except.map, ended, hsize]
      rfl
  · rw [lexeme_unclosed hclose]
    simp only [bind, Except.bind, closing?, if_neg (show ']' ∉ '[' :: rest by simpa using hclose)]
    rfl

/-- Reading a lexeme by positions is reading it. -/
theorem lexemeAt_eq (h : At source i (c :: rest)) (hb : FirstByte c b) :
    lexemeAt source i b = .ok ((lexeme c rest).map (ended i c rest)) := by
  have hnumber := isSome_unsigned? c rest
  rw [← hb.isAscii_eq oneByte_isDigit, ← h.test_pair hb oneByte_isPoint oneByte_isDigit] at hnumber
  rw [lexemeAt, ← hnumber, hb.isAscii_eq oneByte_isNameStart, hb.isAscii_eq oneByte_isBracket]
  cases hread : Numeral.unsigned? (c :: rest) with
  | some found => exact numberAt_eq h hread
  | none =>
    cases hname : isNameStart c with
    | true => exact nameAt_eq h hname
    | false =>
      cases hbracket : isBracket c with
      | true =>
        obtain rfl : c = '[' := of_decide_eq_true hbracket
        exact referenceAt_eq h
      | false => exact markAt_eq h hb hread hname (of_decide_eq_false hbracket)

end

/-! ## Formulas -/

section
variable {source rest : List Char} {i : Nat} {c : Char}

theorem tokensAt_gap (h : At source i (c :: rest)) (hgap : isGap c = true) :
    tokensAt source i = tokensAt source (i + c.utf8Size) := by
  obtain ⟨b, hb, hfirst⟩ := h.exists_byte
  have hsize : c.utf8Size = 1 :=
    size_eq_length (w := [c]) fun d hd => List.mem_singleton.1 hd ▸ oneByte_isGap hgap
  rw [tokensAt, dif_pos h.lt_length, hb, hsize]
  simp only [bind, Except.bind, hfirst.isAscii_eq oneByte_isGap, hgap, if_true]

theorem tokensAt_lexeme (h : At source i (c :: rest)) (hgap : ¬ isGap c = true) :
    tokensAt source i = match lexeme c rest with
      | .error cause => .ok (.error ⟨i, cause⟩)
      | .ok (s, extra) => (tokensAt source (i + size (c :: rest.take extra))).map
          (Except.map (⟨s, i⟩ :: ·)) := by
  obtain ⟨b, hb, hfirst⟩ := h.exists_byte
  rw [tokensAt, dif_pos h.lt_length, hb]
  simp only [bind, Except.bind, hfirst.isAscii_eq oneByte_isGap, if_neg hgap, lexemeAt_eq h hfirst]
  cases lexeme c rest with
  | error cause => rfl
  | ok found =>
    obtain ⟨s, extra⟩ := found
    have hlt : i < i + size (c :: rest.take extra) :=
      Nat.lt_add_of_pos_right (Nat.lt_of_lt_of_le c.utf8Size_pos (Nat.le_add_right _ _))
    simp only [Except.map, ended, dif_pos hlt]
    cases tokensAt source (i + size (c :: rest.take extra)) <;> rfl

end

/-- Reading tokens by positions is reading them. -/
theorem tokensAt_eq {source text : List Char} {i : Nat} (h : At source i text) :
    tokensAt source i = .ok (tokensFrom i text) := by
  fun_induction tokensFrom i text with
  | case1 i => rw [tokensAt, dif_neg h.not_lt_length]; rfl
  | case2 i c rest hgap ih =>
    rw [tokensAt_gap h hgap]
    exact ih (h.append (w := [c]))
  | case3 i c rest hgap cause hread => rw [tokensAt_lexeme h hgap, hread]
  | case4 i c rest hgap s extra hread ih =>
    have hplace : At source i ((c :: rest.take extra) ++ rest.drop extra) := by
      rwa [List.cons_append, List.take_append_drop]
    rw [tokensAt_lexeme h hgap, hread]
    dsimp only
    rw [ih hplace.append]
    rfl

theorem compileAt_eq (source : List Char) (arity : Nat) :
    compileAt source arity = .ok ((compile source arity).map (·.tree)) := by
  rw [compileAt, compile, tokensAt_eq (At.zero source), treeOf, tokens]
  split
  · simp only [bind, Except.bind]
    cases tokensFrom 0 source with
    | error e => rfl
    | ok ts => dsimp only; cases parse (.standard arity) (size source) ts <;> rfl
  · rfl

end JetEnergy.Formula
