import JetEnergy.Proofs.Decimal.Scientific
import JetEnergy.Proofs.Decimal.PrefixLength

/-!
  The numbers that a field starts with.

  * `NumeralText` and `IntegerText` are the texts of numbers and whole numbers, with their
    signs.  `Longest`: the longest text of a kind that a field starts with.
  * `leading?_longest` and `leading?_eq_none`: a numeral is read from the longest text of one.
  * `float?_of_numeralText`: the strict reading takes what the lenient one has found.
  * `lenient_readings`: what is read from a field is the number of the longest text, correctly
    rounded or held between the bounds, and 0 without one; the bytes of that text are counted.
-/
namespace JetEnergy.Decimal

open Float.Model
open Text.Utf8 (encode)

/-! ## Texts with a sign -/

/-- The texts of a number, a sign before it or not. -/
inductive NumeralText : List Char → Numeral → Prop
  | intro {sign w : List Char} {negative : Bool} {n : Numeral} :
      SignText sign negative → NumberText w n → NumeralText (sign ++ w) { n with negative }

/-- The texts of a whole number, a sign before it or not. -/
inductive IntegerText : List Char → ℤ → Prop
  | intro {sign digits : List Char} {negative : Bool} :
      SignText sign negative → digits ≠ [] → AllDigits digits →
      IntegerText (sign ++ digits)
        (if negative then -(natOfDigits digits : ℤ) else natOfDigits digits)

/-- The longest text of a kind that a field starts with. -/
structure Longest (kind : List Char → Prop) (field w : List Char) : Prop where
  start : w <+: field
  holds : kind w
  longest {v : List Char} : v <+: field → kind v → v <+: w

/-- Nothing longer is of the kind if what is left of the field is left of every other text of
    the kind as well. -/
theorem longest_of_suffix {kind : List Char → Prop} {w after : List Char} (hw : kind w)
    (h : ∀ {v rest : List Char}, v ++ rest = w ++ after → kind v → after <:+ rest) :
    Longest kind (w ++ after) w := by
  refine ⟨List.prefix_append .., hw, ?_⟩
  rintro v ⟨rest, hrest⟩ hv
  have hleft := (h hrest hv).length_le
  have hlength := congrArg List.length hrest
  rw [List.length_append, List.length_append] at hlength
  exact List.prefix_of_prefix_length_le ⟨rest, hrest⟩ (List.prefix_append ..) (by omega)

/-! ## Numerals -/

section
variable {field w after : List Char} {n : Numeral}

/-- What is read is a numeral at the start of the field. -/
theorem leading?_sound (h : Numeral.leading? field = some (n, after)) :
    ∃ w, field = w ++ after ∧ NumeralText w n := by
  obtain ⟨sign, hfield, hsign⟩ := takeSign_sound field
  obtain ⟨⟨n', after'⟩, hread, heq⟩ := Option.map_eq_some_iff.1 h
  obtain ⟨w, hrest, hw⟩ := unsigned?_sound hread
  obtain ⟨rfl, rfl⟩ := Prod.mk.inj heq
  refine ⟨sign ++ w, ?_, .intro hsign hw⟩
  rw [List.append_assoc, ← hrest]
  exact hfield

/-- A numeral is read as a whole, and no other in its place. -/
theorem leading?_append (h : NumeralText w n) (after : List Char) :
    ∃ n' after', Numeral.leading? (w ++ after) = some (n', after') ∧ after' <:+ after ∧
      (after' = after → n' = n) := by
  cases h with
  | @intro sign w negative n hsign hw =>
    obtain ⟨n', after', hread, hsuffix, hsame⟩ := unsigned?_append hw after
    refine ⟨{ n' with negative }, after', ?_, hsuffix, fun h => ?_⟩
    · rw [Numeral.leading?, hw.takeSign_append hsign]
      exact congrArg (Option.map _) hread
    · rw [hsame h]

theorem leading?_of_numeralText (h : NumeralText w n) : Numeral.leading? w = some (n, []) := by
  obtain ⟨n', after', hread, hsuffix, hsame⟩ := leading?_append h []
  obtain rfl := List.suffix_nil.1 hsuffix
  rwa [List.append_nil, hsame rfl] at hread

/-- A text is the text of one numeral only. -/
theorem NumeralText.unique {n' : Numeral} (h : NumeralText w n) (h' : NumeralText w n') :
    n = n' := by
  have hsame := (leading?_of_numeralText h).symm.trans (leading?_of_numeralText h')
  exact (Prod.mk.inj (Option.some.inj hsame)).1

theorem leading?_longest (h : Numeral.leading? field = some (n, after)) :
    ∃ w, field = w ++ after ∧ NumeralText w n ∧ Longest (∃ n, NumeralText · n) field w := by
  obtain ⟨w, rfl, hw⟩ := leading?_sound h
  refine ⟨w, rfl, hw, longest_of_suffix ⟨n, hw⟩ ?_⟩
  rintro v rest hv ⟨n', hn'⟩
  obtain ⟨n'', after', hread, hsuffix, -⟩ := leading?_append hn' rest
  rw [hv, h] at hread
  obtain ⟨-, rfl⟩ := Prod.mk.inj (Option.some.inj hread)
  exact hsuffix

theorem leading?_eq_none (h : Numeral.leading? field = none) {v : List Char} (hv : v <+: field) :
    ¬ NumeralText v n := by
  obtain ⟨rest, rfl⟩ := hv
  intro hn
  obtain ⟨n', after', hread, -⟩ := leading?_append hn rest
  rw [h] at hread
  cases hread

/-- The strict reading takes what the lenient one finds. -/
theorem float?_of_numeralText (h : NumeralText w n) : float? w = some n.toFloat := by
  cases h with
  | intro hsign hw => exact float?_of_signText hsign hw

end

/-! ## Whole numbers -/

section
variable {field : List Char}

/-- All of a whole number is passed. -/
theorem IntegerText.dropWhile_suffix {v : List Char} {z : ℤ} (h : IntegerText v z)
    (rest : List Char) :
    (takeSign (v ++ rest)).2.takeWhile Char.isDigit ≠ [] ∧
      (takeSign (v ++ rest)).2.dropWhile Char.isDigit <:+ rest := by
  cases h with
  | @intro sign digits negative hsign hne hall =>
    obtain ⟨d, ds, rfl⟩ := List.exists_cons_of_ne_nil hne
    have htake := takeSign_append hsign (hall d (List.mem_cons_self ..)) (ds ++ rest)
    rw [List.append_assoc, List.cons_append, htake, ← List.cons_append, hall.takeWhile_append,
      hall.dropWhile_append]
    exact ⟨by simp, List.dropWhile_suffix _⟩

/-- The longest text of a whole number is what is read, held between the bounds. -/
theorem integer_longest (h : (takeSign field).2.takeWhile Char.isDigit ≠ []) :
    ∃ w z, field = w ++ (takeSign field).2.dropWhile Char.isDigit ∧ IntegerText w z ∧
      Longest (∃ z, IntegerText · z) field w ∧
      leadingInt field = max leastInt (min z greatestInt) := by
  obtain ⟨sign, hfield, hsign⟩ := takeSign_sound field
  have hw := IntegerText.intro hsign h (allDigits_takeWhile _)
  have hsplit : field = sign ++ (takeSign field).2.takeWhile Char.isDigit ++
      (takeSign field).2.dropWhile Char.isDigit := by
    rw [List.append_assoc, List.takeWhile_append_dropWhile]
    exact hfield
  refine ⟨_, _, hsplit, hw, ?_, ?_⟩
  · have hlongest : Longest (∃ z, IntegerText · z)
        (sign ++ (takeSign field).2.takeWhile Char.isDigit ++
          (takeSign field).2.dropWhile Char.isDigit)
        (sign ++ (takeSign field).2.takeWhile Char.isDigit) := by
      refine longest_of_suffix ⟨_, hw⟩ ?_
      rintro v rest hv ⟨z, hz⟩
      have hpassed := (hz.dropWhile_suffix rest).2
      rwa [hv, ← hsplit] at hpassed
    rwa [← hsplit] at hlongest
  · have hleast : leastInt ≤ 0 := by decide
    have hgreatest : 0 ≤ greatestInt := by decide
    simp only [leadingInt]
    split <;> omega

theorem leadingInt_eq_zero (h : (takeSign field).2.takeWhile Char.isDigit = []) :
    leadingInt field = 0 := by
  simp only [leadingInt, h]
  split <;> rfl

theorem not_integerText (h : (takeSign field).2.takeWhile Char.isDigit = []) {v : List Char} {z : ℤ}
    (hv : v <+: field) : ¬ IntegerText v z := by
  obtain ⟨rest, rfl⟩ := hv
  exact fun hz => (hz.dropWhile_suffix rest).1 h

end

/-! ## Lenient readings -/

/-- **What is read from a field.**  Of the longest text of a number that the field starts with,
    whose bytes the scan has counted, the strict reading makes a double, and that is what is
    read: the number, correctly rounded and with its sign.  The longest text of a whole number
    gives that number, held between the bounds.  Without such a text 0 is read. -/
theorem lenient_readings (field : List Char) :
    ((∃ w n, Longest (∃ n, NumeralText · n) field w ∧ NumeralText w n ∧
        prefixLength true (encode field) = Text.Utf8.size w ∧
        float? w = some (leadingFloat field) ∧ Rounds n.sign n.size (leadingFloat field)) ∨
      ((∀ v n, v <+: field → ¬ NumeralText v n) ∧ prefixLength true (encode field) = 0 ∧
        leadingFloat field = 0)) ∧
    (leadingFloat field).isNaN = false ∧
    ((∃ w z, Longest (∃ z, IntegerText · z) field w ∧ IntegerText w z ∧
        prefixLength false (encode field) = Text.Utf8.size w ∧
        leadingInt field = max leastInt (min z greatestInt)) ∨
      ((∀ v z, v <+: field → ¬ IntegerText v z) ∧ prefixLength false (encode field) = 0 ∧
        leadingInt field = 0)) ∧
    ∀ fractional, CharBoundary field (prefixLength fractional (encode field)) := by
  refine ⟨?_, isNaN_leadingFloat field, ?_, prefixLength_charBoundary field⟩
  · rcases prefixLength_fractional field with ⟨hnone, hzero⟩ | ⟨n, after, hread, hpasses⟩
    · exact Or.inr ⟨fun v n hv => leading?_eq_none hnone hv, hzero, by rw [leadingFloat, hnone]⟩
    · have hvalue : leadingFloat field = n.toFloat := by rw [leadingFloat, hread]
      obtain ⟨w, rfl, hw, hlongest⟩ := leading?_longest hread
      rw [hvalue]
      exact Or.inl ⟨w, n, hlongest, hw, hpasses.size.symm, float?_of_numeralText hw,
        n.rounds_toFloat⟩
  · rcases prefixLength_whole field with ⟨hnone, hzero⟩ | ⟨hsome, hpasses⟩
    · exact Or.inr ⟨fun v z hv => not_integerText hnone hv, hzero, leadingInt_eq_zero hnone⟩
    · obtain ⟨w, z, hfield, hw, hlongest, hvalue⟩ := integer_longest hsome
      refine Or.inl ⟨w, z, hlongest, hw, ?_, hvalue⟩
      generalize (takeSign field).2.dropWhile Char.isDigit = after at hfield hpasses
      subst hfield
      exact hpasses.size.symm

end JetEnergy.Decimal
