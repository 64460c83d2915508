import JetEnergy.Proofs.Decimal.Numbers
import JetEnergy.Proofs.Lists

/-!
  The texts of numbers.

  * `SignText`, `ExponentText` and `NumberText` say which texts are a sign, an
    exponent and a number without a sign, and what each of them stands for.
  * `unsigned?_sound` and `unsigned?_append`: the reading of a number takes a
    number from the start of a text, and takes all of every number that the
    text starts with.
  * `float?_of_signText`, `float?_of_numberText`: a text that is a number, with a sign or
    without one, is one to the strict reading.
  * `index?_eq_some_iff`: which texts are indices.
-/
namespace JetEnergy.Decimal

/-! ## The parts of a number -/

theorem takeFraction_suffix (text : List Char) : (takeFraction text).2 <:+ text := by
  unfold takeFraction; split
  · next rest => exact (List.dropWhile_suffix _).trans (List.suffix_cons _ _)
  · exact List.suffix_rfl

theorem takeFraction_eq_self {c : Char} (h : c ≠ '.') (rest : List Char) :
    takeFraction (c :: rest) = ([], c :: rest) := by
  unfold takeFraction; split
  · next heq => cases heq; exact absurd rfl h
  · rfl

theorem takeSign_suffix (text : List Char) : (takeSign text).2 <:+ text := by
  unfold takeSign; split
  · exact List.suffix_cons _ _
  · exact List.suffix_cons _ _
  · exact List.suffix_rfl

theorem takeSign_eq_self {c : Char} (hminus : c ≠ '-') (hplus : c ≠ '+') (rest : List Char) :
    takeSign (c :: rest) = (false, c :: rest) := by
  unfold takeSign; split
  · next heq => cases heq; exact absurd rfl hminus
  · next heq => cases heq; exact absurd rfl hplus
  · rfl

theorem takeExponent_suffix (text : List Char) : (takeExponent text).2 <:+ text := by
  unfold takeExponent; split
  · exact List.suffix_rfl
  · next c rest =>
    split
    · dsimp only; split
      · exact List.suffix_rfl
      · exact ((List.dropWhile_suffix _).trans (takeSign_suffix rest)).trans (List.suffix_cons _ _)
    · exact List.suffix_rfl

theorem takeExponent_eq_self {c : Char} (h : ¬ (c = 'e' ∨ c = 'E')) (rest : List Char) :
    takeExponent (c :: rest) = (0, c :: rest) := by
  rw [takeExponent, if_neg h]

/-- A fraction that takes nothing has no digits. -/
theorem takeFraction_stays {text : List Char} (h : (takeFraction text).2 = text) :
    (takeFraction text).1 = [] := by
  revert h; unfold takeFraction; split
  · next rest =>
    intro h
    have hshort := (List.dropWhile_suffix Char.isDigit (l := rest)).length_le
    rw [show rest.dropWhile Char.isDigit = '.' :: rest from h, List.length_cons] at hshort
    omega
  · exact fun _ => rfl

/-- An exponent that takes nothing is 0. -/
theorem takeExponent_stays {text : List Char} (h : (takeExponent text).2 = text) :
    (takeExponent text).1 = 0 := by
  cases text with
  | nil => rfl
  | cons c rest =>
    by_cases he : c = 'e' ∨ c = 'E'
    · revert h
      simp only [takeExponent, if_pos he]
      split
      · exact fun _ => rfl
      · -- a complete exponent takes at least its mark
        intro h
        have hshort := ((List.dropWhile_suffix Char.isDigit).trans (takeSign_suffix rest)).length_le
        rw [show (takeSign rest).2.dropWhile Char.isDigit = c :: rest from h,
          List.length_cons] at hshort
        omega
    · rw [takeExponent_eq_self he]

/-! ## Digits -/

/-- Digits only. -/
def AllDigits (text : List Char) : Prop :=
  ∀ d ∈ text, d.isDigit = true

instance (text : List Char) : Decidable (AllDigits text) :=
  decidable_of_iff (text.all Char.isDigit = true) List.all_eq_true

theorem allDigits_takeWhile (text : List Char) : AllDigits (text.takeWhile Char.isDigit) :=
  fun _ hd => List.mem_takeWhile_imp hd

theorem AllDigits.takeWhile_append {digits : List Char} (h : AllDigits digits) (text : List Char) :
    (digits ++ text).takeWhile Char.isDigit = digits ++ text.takeWhile Char.isDigit :=
  List.takeWhile_append_of_pos h

theorem AllDigits.dropWhile_append {digits : List Char} (h : AllDigits digits) (text : List Char) :
    (digits ++ text).dropWhile Char.isDigit = text.dropWhile Char.isDigit :=
  List.dropWhile_append_of_pos h

theorem not_isDigit_of_isAlpha {c : Char} (h : c.isAlpha = true) : c.isDigit = false := by
  have hleast : 'A'.val ≤ c.val := by
    rcases Bool.or_eq_true_iff.1 h with h | h
    · exact (of_decide_eq_true h).1
    · have ha : 'a'.val ≤ c.val := of_decide_eq_true (Bool.and_eq_true_iff.1 h).1
      exact UInt32.le_trans (by decide) ha
  have hgreatest : ¬ c.val ≤ '9'.val := fun h9 =>
    absurd (UInt32.le_trans hleast h9) (by decide)
  exact Bool.and_eq_false_iff.2 (Or.inr (decide_eq_false hgreatest))

theorem not_isAlpha_of_isDigit {c : Char} (h : c.isDigit = true) : c.isAlpha = false := by
  cases ha : c.isAlpha with
  | false => rfl
  | true => rw [not_isDigit_of_isAlpha ha] at h; cases h

/-- A fraction is left out, or it is a point and digits. -/
theorem takeFraction_sound (text : List Char) :
    ((takeFraction text).1 = [] ∧ (takeFraction text).2 = text) ∨
      (text = '.' :: ((takeFraction text).1 ++ (takeFraction text).2) ∧
        AllDigits (takeFraction text).1) := by
  unfold takeFraction; split
  · exact Or.inr ⟨by rw [List.takeWhile_append_dropWhile], allDigits_takeWhile _⟩
  · exact Or.inl ⟨rfl, rfl⟩

/-! ## Signs -/

/-- The texts of a sign, left out or not (`true` for minus). -/
inductive SignText : List Char → Bool → Prop
  | none : SignText [] false
  | plus : SignText ['+'] false
  | minus : SignText ['-'] true

theorem takeSign_sound (text : List Char) :
    ∃ sign, text = sign ++ (takeSign text).2 ∧ SignText sign (takeSign text).1 := by
  unfold takeSign; split
  · exact ⟨['-'], rfl, .minus⟩
  · exact ⟨['+'], rfl, .plus⟩
  · exact ⟨[], rfl, .none⟩

theorem takeSign_append {sign : List Char} {negative : Bool} (h : SignText sign negative)
    {d : Char} (hd : d.isDigit = true) (rest : List Char) :
    takeSign (sign ++ d :: rest) = (negative, d :: rest) := by
  cases h with
  | none =>
    refine takeSign_eq_self ?_ ?_ rest
    · rintro rfl; exact absurd hd (by decide)
    · rintro rfl; exact absurd hd (by decide)
  | plus => rfl
  | minus => rfl

/-! ## Exponents -/

/-- The texts of an exponent, left out or complete. -/
inductive ExponentText : List Char → Int → Prop
  | none : ExponentText [] 0
  | marked {mark : Char} {sign digits : List Char} {negative : Bool} :
      mark = 'e' ∨ mark = 'E' → SignText sign negative → digits ≠ [] → AllDigits digits →
      ExponentText (mark :: (sign ++ digits))
        (if negative then -(natOfDigits digits : Int) else natOfDigits digits)

theorem takeExponent_sound (text : List Char) :
    ∃ w, text = w ++ (takeExponent text).2 ∧ ExponentText w (takeExponent text).1 := by
  cases text with
  | nil => exact ⟨[], rfl, .none⟩
  | cons c rest =>
    by_cases he : c = 'e' ∨ c = 'E'
    · obtain ⟨sign, hrest, hsign⟩ := takeSign_sound rest
      simp only [takeExponent, if_pos he]
      split
      · exact ⟨[], rfl, .none⟩
      · next hdigits =>
        refine ⟨c :: (sign ++ (takeSign rest).2.takeWhile Char.isDigit), ?_, ?_⟩
        · rw [List.cons_append, List.append_assoc, List.takeWhile_append_dropWhile, ← hrest]
        · exact .marked he hsign (by simpa using hdigits) (allDigits_takeWhile _)
    · rw [takeExponent_eq_self he]
      exact ⟨[], rfl, .none⟩

/-- An exponent is taken as a whole, and nothing else is read in its place. -/
theorem takeExponent_append {w : List Char} {k : Int} (h : ExponentText w k)
    (after : List Char) : (takeExponent (w ++ after)).2 <:+ after ∧
      ((takeExponent (w ++ after)).2 = after → (takeExponent (w ++ after)).1 = k) := by
  cases h with
  | none => exact ⟨takeExponent_suffix after, takeExponent_stays⟩
  | @marked mark sign digits negative he hsign hne hall =>
    obtain ⟨d, ds, rfl⟩ := List.exists_cons_of_ne_nil hne
    have htake : takeExponent (mark :: (sign ++ d :: ds) ++ after) =
        (if negative then -(natOfDigits (d :: ds ++ after.takeWhile Char.isDigit) : Int)
          else natOfDigits (d :: ds ++ after.takeWhile Char.isDigit),
        after.dropWhile Char.isDigit) := by
      have hsigned : takeSign (sign ++ d :: (ds ++ after)) = (negative, d :: ds ++ after) :=
        takeSign_append hsign (hall d (List.mem_cons_self ..)) _
      simp only [List.cons_append, List.append_assoc, takeExponent, if_pos he, hsigned]
      rw [← List.cons_append, hall.takeWhile_append, hall.dropWhile_append]
      simp
    rw [htake]
    refine ⟨List.dropWhile_suffix _, fun hstays => ?_⟩
    rw [takeWhile_eq_nil_of_dropWhile hstays, List.append_nil]

/-- No exponent is complete that has a letter after its own. -/
theorem takeExponent_letter {d : Char} (hd : d.isAlpha = true) (c : Char) (rest : List Char) :
    takeExponent (c :: d :: rest) = (0, c :: d :: rest) := by
  have hsign : takeSign (d :: rest) = (false, d :: rest) := by
    refine takeSign_eq_self ?_ ?_ rest
    · rintro rfl; exact absurd hd (by decide)
    · rintro rfl; exact absurd hd (by decide)
  have hdigits : (d :: rest).takeWhile Char.isDigit = [] :=
    List.takeWhile_cons_of_neg (by simp [not_isDigit_of_isAlpha hd])
  simp [takeExponent, hsign, hdigits]

/-- What follows the digits of a number that has an exponent starts with no
    digit and no point. -/
theorem ExponentText.eq_nil_or_marked {w : List Char} {k : Int} (h : ExponentText w k) :
    (w = [] ∧ k = 0) ∨ ∃ mark rest, w = mark :: rest ∧ mark.isDigit = false ∧ mark ≠ '.' := by
  cases h with
  | none => exact Or.inl ⟨rfl, rfl⟩
  | marked he =>
    refine Or.inr ⟨_, _, rfl, ?_⟩
    rcases he with rfl | rfl <;> decide

theorem ExponentText.mem {w : List Char} {k : Int} (h : ExponentText w k) {c : Char} (hc : c ∈ w) :
    c.isDigit = true ∨ c ∈ ['e', 'E', '+', '-'] := by
  cases h with
  | none => cases hc
  | marked he hsign _ hall =>
    rcases List.mem_cons.1 hc with rfl | hc
    · right; rcases he with rfl | rfl <;> decide
    rcases List.mem_append.1 hc with hc | hc
    · right
      cases hsign with
      | none => cases hc
      | plus | minus => rw [List.mem_singleton.1 hc]; decide
    · exact Or.inl (hall c hc)

/-! ## Numbers -/

/-- The texts of a number without a sign, and the numerals they are. -/
inductive NumberText : List Char → Numeral → Prop
  | whole {digits exponent : List Char} {k : Int} :
      digits ≠ [] → AllDigits digits → ExponentText exponent k →
      NumberText (digits ++ exponent) ⟨false, natOfDigits digits, 0, k⟩
  | point {digits fraction exponent : List Char} {k : Int} :
      digits ++ fraction ≠ [] → AllDigits digits → AllDigits fraction → ExponentText exponent k →
      NumberText (digits ++ '.' :: (fraction ++ exponent))
        ⟨false, natOfDigits (digits ++ fraction), fraction.length, k⟩

/-- A number starts with a digit or a point. -/
theorem NumberText.head {w : List Char} {n : Numeral} (h : NumberText w n) :
    ∃ c rest, w = c :: rest ∧ (c.isDigit = true ∨ c = '.') := by
  cases h with
  | whole hne hall =>
    obtain ⟨d, ds, rfl⟩ := List.exists_cons_of_ne_nil hne
    exact ⟨d, _, rfl, Or.inl (hall d (List.mem_cons_self ..))⟩
  | @point digits fraction exponent k _ hall =>
    cases digits with
    | nil => exact ⟨'.', _, rfl, Or.inr rfl⟩
    | cons d ds => exact ⟨d, _, rfl, Or.inl (hall d (List.mem_cons_self ..))⟩

/-- The characters of a number. -/
theorem NumberText.mem {w : List Char} {n : Numeral} (h : NumberText w n) {c : Char} (hc : c ∈ w) :
    c.isDigit = true ∨ c ∈ ['.', 'e', 'E', '+', '-'] := by
  cases h with
  | whole hne hall hexponent =>
    rcases List.mem_append.1 hc with hc | hc
    · exact Or.inl (hall c hc)
    · exact (hexponent.mem hc).imp_right (List.mem_cons_of_mem _)
  | point hne hall hfraction hexponent =>
    rcases List.mem_append.1 hc with hc | hc
    · exact Or.inl (hall c hc)
    rcases List.mem_cons.1 hc with rfl | hc
    · exact Or.inr (List.mem_cons_self ..)
    rcases List.mem_append.1 hc with hc | hc
    · exact Or.inl (hfraction c hc)
    · exact (hexponent.mem hc).imp_right (List.mem_cons_of_mem _)

theorem NumberText.negative {w : List Char} {n : Numeral} (h : NumberText w n) :
    n.negative = false := by
  cases h <;> rfl

/-- A text without a digit or a point at its start starts with no number. -/
theorem unsigned?_eq_none {c : Char} (hdigit : c.isDigit = false) (hpoint : c ≠ '.')
    (rest : List Char) : Numeral.unsigned? (c :: rest) = none := by
  simp [Numeral.unsigned?, hdigit, takeFraction_eq_self hpoint]

theorem exists_unsigned? {d : Char} (h : d.isDigit = true) (rest : List Char) :
    ∃ found, Numeral.unsigned? (d :: rest) = some found := by
  simp [Numeral.unsigned?, h]

/-- What is read as a number is a number at the start of the text. -/
theorem unsigned?_sound {text after : List Char} {n : Numeral}
    (h : Numeral.unsigned? text = some (n, after)) :
    ∃ w, text = w ++ after ∧ NumberText w n := by
  have htext := List.takeWhile_append_dropWhile (p := Char.isDigit) (l := text)
  have hall := allDigits_takeWhile text
  obtain ⟨exponent, hrest, hexponent⟩ :=
    takeExponent_sound (takeFraction (text.dropWhile Char.isDigit)).2
  simp only [Numeral.unsigned?] at h
  split at h
  · cases h
  · next hsome =>
    obtain ⟨rfl, rfl⟩ := Prod.mk.inj (Option.some.inj h)
    rcases takeFraction_sound (text.dropWhile Char.isDigit) with
      ⟨hnone, hsame⟩ | ⟨hpoint, hfraction⟩
    · -- there is no point, so the digits are those of a whole number
      refine ⟨text.takeWhile Char.isDigit ++ exponent, ?_, ?_⟩
      · rw [List.append_assoc, ← hrest, hsame, htext]
      · simp only [hnone, List.append_nil, List.length_nil]
        exact .whole (by simpa [hnone] using hsome) hall hexponent
    · refine ⟨_, ?_, .point (by simpa using hsome) hall hfraction hexponent⟩
      rw [List.append_assoc, List.cons_append, List.append_assoc, ← hrest, ← hpoint, htext]

/-- A number takes at least the first character. -/
theorem unsigned?_suffix {c : Char} {rest after : List Char} {n : Numeral}
    (h : Numeral.unsigned? (c :: rest) = some (n, after)) : after <:+ rest := by
  obtain ⟨w, hsplit, hw⟩ := unsigned?_sound h
  obtain ⟨c', w', rfl, -⟩ := hw.head
  obtain ⟨-, rfl⟩ := List.cons.inj hsplit
  exact List.suffix_append _ _

/-- What is read where an exponent stands after the digits of a fraction. -/
theorem takeExponent_dropWhile_append {w : List Char} {k : Int} (h : ExponentText w k)
    (after : List Char) : (takeExponent ((w ++ after).dropWhile Char.isDigit)).2 <:+ after ∧
      ((takeExponent ((w ++ after).dropWhile Char.isDigit)).2 = after →
        (w ++ after).takeWhile Char.isDigit = [] ∧
          (takeExponent ((w ++ after).dropWhile Char.isDigit)).1 = k) := by
  rcases h.eq_nil_or_marked with ⟨rfl, rfl⟩ | ⟨mark, rest, rfl, hdigit, -⟩
  · rw [List.nil_append]
    have hdigits := List.dropWhile_suffix Char.isDigit (l := after)
    have hexponent := takeExponent_suffix (after.dropWhile Char.isDigit)
    refine ⟨hexponent.trans hdigits, fun hstays => ?_⟩
    rw [hstays] at hexponent
    have hsame := hdigits.eq_of_length_le hexponent.length_le
    rw [hsame] at hstays ⊢
    exact ⟨takeWhile_eq_nil_of_dropWhile hsame, takeExponent_stays hstays⟩
  · have htake : (mark :: rest ++ after).takeWhile Char.isDigit = [] :=
      List.takeWhile_cons_of_neg (by simp [hdigit])
    have hdrop : (mark :: rest ++ after).dropWhile Char.isDigit = mark :: rest ++ after :=
      List.dropWhile_cons_of_neg (by simp [hdigit])
    rw [htake, hdrop]
    obtain ⟨hsuffix, hsame⟩ := takeExponent_append h after
    exact ⟨hsuffix, fun hstays => ⟨rfl, hsame hstays⟩⟩

/-- What is read where an exponent stands after the digits of a whole number. -/
theorem takeExponent_takeFraction_append {w : List Char} {k : Int} (h : ExponentText w k)
    (after : List Char) :
    (takeExponent (takeFraction ((w ++ after).dropWhile Char.isDigit)).2).2 <:+ after ∧
      ((takeExponent (takeFraction ((w ++ after).dropWhile Char.isDigit)).2).2 = after →
        (w ++ after).takeWhile Char.isDigit = [] ∧
          (takeFraction ((w ++ after).dropWhile Char.isDigit)).1 = [] ∧
          (takeExponent (takeFraction ((w ++ after).dropWhile Char.isDigit)).2).1 = k) := by
  rcases h.eq_nil_or_marked with ⟨rfl, rfl⟩ | ⟨mark, rest, rfl, hdigit, hpoint⟩
  · rw [List.nil_append]
    have hdigits := List.dropWhile_suffix Char.isDigit (l := after)
    have hfraction := takeFraction_suffix (after.dropWhile Char.isDigit)
    have hexponent := takeExponent_suffix (takeFraction (after.dropWhile Char.isDigit)).2
    refine ⟨(hexponent.trans hfraction).trans hdigits, fun hstays => ?_⟩
    rw [hstays] at hexponent
    have hsame := hdigits.eq_of_length_le (hexponent.trans hfraction).length_le
    rw [hsame] at hfraction hexponent hstays ⊢
    have hsame' := hfraction.eq_of_length_le hexponent.length_le
    rw [hsame'] at hstays ⊢
    exact ⟨takeWhile_eq_nil_of_dropWhile hsame, takeFraction_stays hsame',
      takeExponent_stays hstays⟩
  · have hdrop : (mark :: rest ++ after).dropWhile Char.isDigit = mark :: rest ++ after :=
      List.dropWhile_cons_of_neg (by simp [hdigit])
    have hfraction : takeFraction (mark :: rest ++ after) = ([], mark :: rest ++ after) :=
      takeFraction_eq_self hpoint _
    have hexponent := takeExponent_dropWhile_append h after
    rw [hdrop] at hexponent
    rw [hdrop, hfraction]
    exact ⟨hexponent.1, fun hstays => ⟨(hexponent.2 hstays).1, rfl, (hexponent.2 hstays).2⟩⟩

/-- A number is taken as a whole, and no other number is read in its place. -/
theorem unsigned?_append {w : List Char} {n : Numeral} (h : NumberText w n) (after : List Char) :
    ∃ n' after', Numeral.unsigned? (w ++ after) = some (n', after') ∧ after' <:+ after ∧
      (after' = after → n' = n) := by
  cases h with
  | @whole digits exponent k hne hall hexponent =>
    obtain ⟨hsuffix, hstays⟩ := takeExponent_takeFraction_append hexponent after
    rw [List.append_assoc]
    simp only [Numeral.unsigned?, hall.takeWhile_append, hall.dropWhile_append]
    rw [if_neg (by simp [hne])]
    refine ⟨_, _, rfl, hsuffix, fun hafter => ?_⟩
    obtain ⟨hdigits, hfraction, hk⟩ := hstays hafter
    rw [hdigits, hfraction, hk, List.append_nil, List.append_nil, List.length_nil]
  | @point digits fraction exponent k hne hall hfraction hexponent =>
    obtain ⟨hsuffix, hstays⟩ := takeExponent_dropWhile_append hexponent after
    have hpoint : ¬ ('.' : Char).isDigit = true := by decide
    rw [List.append_assoc, List.cons_append, List.append_assoc]
    simp only [Numeral.unsigned?, hall.takeWhile_append, hall.dropWhile_append,
      List.takeWhile_cons_of_neg hpoint, List.dropWhile_cons_of_neg hpoint, takeFraction,
      hfraction.takeWhile_append, hfraction.dropWhile_append, List.append_nil]
    rw [if_neg (by simpa [List.append_eq_nil_iff] using fun h₁ h₂ => absurd h₂ (by simp_all))]
    refine ⟨_, _, rfl, hsuffix, fun hafter => ?_⟩
    obtain ⟨hdigits, hk⟩ := hstays hafter
    rw [hdigits, hk, List.append_nil]

/-- A number that is the whole text is read as a whole. -/
theorem unsigned?_of_numberText {w : List Char} {n : Numeral} (h : NumberText w n) :
    Numeral.unsigned? w = some (n, []) := by
  obtain ⟨n', after', hread, hsuffix, heq⟩ := unsigned?_append h []
  obtain rfl := List.suffix_nil.1 hsuffix
  rwa [List.append_nil, heq rfl] at hread

/-- Small letters are what a character becomes only if it is a letter. -/
theorem toLower_ne {c x : Char} (hc : c.isAlpha = false) (hx : x.isAlpha = true) :
    c.toLower ≠ x := by
  have hupper : c.isUpper = false := (Bool.or_eq_false_iff.1 hc).1
  have hsame : c.toLower = c := dif_neg (of_decide_eq_false hupper)
  rw [hsame]
  rintro rfl
  rw [hc] at hx; cases hx

theorem NumberText.takeSign_append {w : List Char} {n : Numeral} (h : NumberText w n)
    {sign : List Char} {negative : Bool} (hsign : SignText sign negative) (after : List Char) :
    takeSign (sign ++ w ++ after) = (negative, w ++ after) := by
  cases hsign with
  | plus | minus => rfl
  | none =>
    obtain ⟨c, rest, rfl, hc⟩ := h.head
    refine takeSign_eq_self ?_ ?_ _
    · rintro rfl; revert hc; decide
    · rintro rfl; revert hc; decide

/-- A number with a sign, or without one, is a number to the strict reading, and the same
    one. -/
theorem float?_of_signText {sign w : List Char} {negative : Bool} {n : Numeral}
    (hsign : SignText sign negative) (h : NumberText w n) :
    float? (sign ++ w) = some { n with negative }.toFloat := by
  have htake : takeSign (sign ++ w) = (negative, w) := by
    simpa using h.takeSign_append hsign []
  obtain ⟨c, rest, hcons, hc⟩ := h.head
  have halpha : c.isAlpha = false := by
    rcases hc with hc | rfl
    · exact not_isAlpha_of_isDigit hc
    · decide
  have hword : ∀ {x : Char} {word : List Char}, x.isAlpha = true →
      String.ofList (w.map Char.toLower) ≠ String.ofList (x :: word) := by
    intro x word hx heq
    rw [hcons] at heq
    exact toLower_ne halpha hx (List.cons.inj (String.ofList_injective heq)).1
  have hinf : ¬ (String.ofList (w.map Char.toLower) = "inf" ∨
      String.ofList (w.map Char.toLower) = "infinity") :=
    not_or.2 ⟨hword (by decide), hword (by decide)⟩
  have hnan : String.ofList (w.map Char.toLower) ≠ "nan" := hword (by decide)
  simp only [float?, htake, Numeral.leading?, unsigned?_of_numberText h, if_neg hinf, if_neg hnan,
    Option.map_some]

/-- A number is a number to the strict reading, and the same one. -/
theorem float?_of_numberText {w : List Char} {n : Numeral} (h : NumberText w n) :
    float? w = some n.toFloat := by
  have hread := float?_of_signText .none h
  rwa [List.nil_append, ← h.negative] at hread

/-! ## Indices -/

/-- The texts of an index: digits, a plus sign before them or not. -/
inductive IndexText : List Char → Nat → Prop
  | intro {sign digits : List Char} : sign = [] ∨ sign = ['+'] → digits ≠ [] → AllDigits digits →
      natOfDigits digits < indexBound → IndexText (sign ++ digits) (natOfDigits digits)

theorem AllDigits.index?_eq {digits : List Char} (hall : AllDigits digits) (hne : digits ≠ []) :
    index? digits =
      if natOfDigits digits < indexBound then some (natOfDigits digits) else none := by
  unfold index?
  split
  · exact absurd (hall '+' (List.mem_cons_self ..)) (by decide)
  · simp [hne, List.all_eq_true.2 hall]

theorem index?_eq_some_iff {text : List Char} {i : Nat} :
    index? text = some i ↔ IndexText text i := by
  have hread : ∀ {digits : List Char},
      (if (!digits.isEmpty && digits.all Char.isDigit && natOfDigits digits < indexBound) = true
        then some (natOfDigits digits) else none) = some i ↔
        (digits ≠ [] ∧ AllDigits digits ∧ natOfDigits digits < indexBound) ∧
          natOfDigits digits = i := by
    simp [AllDigits, and_assoc]
  constructor
  · intro h
    unfold index? at h
    split at h
    · obtain ⟨⟨hne, hall, hbound⟩, rfl⟩ := hread.1 h
      exact .intro (Or.inr rfl) hne hall hbound
    · obtain ⟨⟨hne, hall, hbound⟩, rfl⟩ := hread.1 h
      exact .intro (Or.inl rfl) hne hall hbound
  · rintro ⟨rfl | rfl, hne, hall, hbound⟩
    · rw [List.nil_append, hall.index?_eq hne, if_pos hbound]
    · exact hread.2 ⟨⟨hne, hall, hbound⟩, rfl⟩

/-- Nothing else than digits and a plus sign is in the text of an index. -/
theorem index?_eq_none {text : List Char} {c : Char} (hmem : c ∈ text) (hdigit : c.isDigit = false)
    (hplus : c ≠ '+') : index? text = none := by
  cases hread : index? text with
  | none => rfl
  | some i =>
    obtain ⟨hsign, -, hall, -⟩ := index?_eq_some_iff.1 hread
    rcases List.mem_append.1 hmem with hmem | hmem
    · rcases hsign with rfl | rfl
      · cases hmem
      · exact absurd (List.mem_singleton.1 hmem) hplus
    · rw [hall c hmem] at hdigit; cases hdigit

end JetEnergy.Decimal
