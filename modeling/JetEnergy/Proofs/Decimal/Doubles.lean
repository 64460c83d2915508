import JetEnergy.Proofs.Decimal.Numbers

/-!
  Doubles that are numbers.

  * `isNaN_pack`: rounding to 64 bits makes a number of every number.
  * `isNaN_leadingFloat`: what is read from a field is a number, whatever the
    field holds.
  * `rank` puts all numbers in one order.  `compare_eq_ranks`: doubles compare by
    it, so `lt_or_le`, `le_trans`, `lt_of_le_of_lt` and `lt_of_lt_of_le` hold of
    numbers.  `compare_neg_neg`: the order of sizes turns round with the signs.
    `not_lt_of_isNaN`, `not_le_of_isNaN`: without a number nothing compares.
-/
namespace JetEnergy.Decimal

open Float.Model

/-! ## Arithmetic -/

section
variable {c : Prop} [Decidable c]

theorem isNaN_ite {a b : UnpackedFloat} (ha : a.isNaN = false) (hb : b.isNaN = false) :
    (if c then a else b).isNaN = false := by
  by_cases h : c
  · rwa [if_pos h]
  · rwa [if_neg h]

theorem isNaN_dite {a : c → UnpackedFloat} {b : ¬ c → UnpackedFloat}
    (ha : ∀ h, (a h).isNaN = false) (hb : ∀ h, (b h).isNaN = false) :
    (if h : c then a h else b h).isNaN = false := by
  by_cases h : c
  · rw [dif_pos h, ha]
  · rw [dif_neg h, hb]

end

theorem isNaN_roundWithAccuracy (spec : Format) (s : UnpackedFloat.Sign) (m : Nat) (e : Int)
    (a : UnpackedFloat.Accuracy) :
    (UnpackedFloat.roundWithAccuracy spec s m e a).isNaN = false :=
  isNaN_dite (fun _ => rfl) fun _ => rfl

section
variable {a : UnpackedFloat} (ha : a.isNaN = false) (spec : Format)
include ha

/-- Infinity times zero is not a number, but a product with a finite number is
    one. -/
theorem isNaN_mul (s : UnpackedFloat.Sign) (m : Nat) (e : Int) (hm : 0 < m) :
    (UnpackedFloat.mul spec a (.finite s m e hm)).isNaN = false := by
  cases a with
  | notANumber => cases ha
  | finite => exact isNaN_roundWithAccuracy ..
  | _ => rfl

theorem isNaN_div (s : UnpackedFloat.Sign) (m : Nat) (e : Int) (hm : 0 < m) :
    (UnpackedFloat.div spec a (.finite s m e hm)).isNaN = false := by
  cases a with
  | notANumber => cases ha
  | finite => exact isNaN_roundWithAccuracy ..
  | _ => rfl

theorem isNaN_neg : a.neg.isNaN = false := by
  cases a with
  | notANumber => cases ha
  | _ => rfl

end

theorem isNaN_ofScientific (spec : Format) (m : Nat) (e : Int) :
    (UnpackedFloat.ofScientific spec m e).isNaN = false := by
  refine isNaN_dite (fun _ => rfl) fun _ => isNaN_ite rfl (isNaN_ite rfl (isNaN_ite ?_ ?_))
  · exact isNaN_mul rfl ..
  · exact isNaN_div rfl ..

theorem isNaN_ofNat (spec : Format) (n : Nat) : (UnpackedFloat.ofNat spec n).isNaN = false := by
  unfold UnpackedFloat.ofNat UnpackedFloat.ofInt UnpackedFloat.normalize
  split
  · exact isNaN_roundWithAccuracy ..
  · rfl
  · exact isNaN_roundWithAccuracy ..

/-! ## Rounding to 64 bits -/

/-- Only the greatest exponent stands for what is no number. -/
theorem isNaN_unpack_packComponents (s : UnpackedFloat.Sign) {e : BitVec 11} (he : e ≠ -1#11)
    (m : BitVec 52) : (UnpackedFloat.unpack .binary64
      (UnpackedFloat.packComponents .binary64 s e m)).isNaN = false := by
  unfold UnpackedFloat.unpack
  dsimp only
  rw [if_neg (UnpackedFloat.unpackExponent_packComponents .. ▸ he)]
  exact isNaN_ite (isNaN_dite (fun _ => rfl) fun _ => rfl) rfl

theorem isNaN_pack {u : UnpackedFloat} (hu : u.isNaN = false) : (pack u).isNaN = false := by
  show (UnpackedFloat.unpack .binary64 (UnpackedFloat.pack .binary64 u)).isNaN = false
  cases u with
  | notANumber => cases hu
  | infinity s | zero s => cases s <;> rfl
  | finite s m e hm =>
    unfold UnpackedFloat.pack
    dsimp only
    split
    · cases s <;> rfl
    next hfits =>
    -- what is not rounded to infinity has an exponent below the greatest one
    split
    · refine isNaN_unpack_packComponents s (fun heq => hfits ?_) _
      have hgreatest := congrArg BitVec.toNat heq
      rw [BitVec.toNat_ofNat, show (-1#11).toNat = 2047 by decide] at hgreatest
      omega
    · exact isNaN_unpack_packComponents s (by decide) _

/-! ## Reading -/

theorem exists_finite {b : UnpackedFloat} (hpos : (UnpackedFloat.zero .positive).lt b)
    (hfinite : b.lt (.infinity .positive)) : ∃ s m e hm, b = .finite s m e hm := by
  cases b with
  | finite s m e hm => exact ⟨s, m, e, hm, rfl⟩
  | infinity s => cases s <;> contradiction
  | _ => contradiction

theorem power_of_ten_finite : ∀ i : Fin Float.exactlyRepresentablePowersOfTen.size,
    (UnpackedFloat.zero .positive).lt Float.exactlyRepresentablePowersOfTen[i].toModel.unpack ∧
      Float.exactlyRepresentablePowersOfTen[i].toModel.unpack.lt (.infinity .positive) := by
  decide +kernel

theorem isNaN_float_ofScientific (m : Nat) (below : Bool) (e : Nat) :
    (Float.ofScientific m below e).isNaN = false := by
  unfold Float.ofScientific
  split
  · next h =>
    have he : e < Float.exactlyRepresentablePowersOfTen.size := Nat.lt_succ_of_le h.2
    obtain ⟨s', m', e', hm', hpower⟩ := exists_finite (power_of_ten_finite ⟨e, he⟩).1
      (power_of_ten_finite ⟨e, he⟩).2
    have hsize : (pack (UnpackedFloat.ofNat .binary64 m.toUInt64.toNat)).isNaN = false :=
      isNaN_pack (isNaN_ofNat ..)
    dsimp only
    split
    · refine isNaN_pack (?_ : (UnpackedFloat.div _ _
        Float.exactlyRepresentablePowersOfTen[e].toModel.unpack).isNaN = false)
      rw [show Float.exactlyRepresentablePowersOfTen[e].toModel.unpack = _ from hpower]
      exact isNaN_div hsize ..
    · refine isNaN_pack (?_ : (UnpackedFloat.mul _ _
        Float.exactlyRepresentablePowersOfTen[e].toModel.unpack).isNaN = false)
      rw [show Float.exactlyRepresentablePowersOfTen[e].toModel.unpack = _ from hpower]
      exact isNaN_mul hsize ..
  · exact isNaN_pack (isNaN_ofScientific ..)

theorem isNaN_signed {x : Float} (h : x.isNaN = false) (negative : Bool) :
    (if negative then -x else x).isNaN = false := by
  cases negative with
  | false => exact h
  | true => exact isNaN_pack (isNaN_neg h)

theorem Numeral.isNaN_toFloat (n : Numeral) : n.toFloat.isNaN = false := by
  unfold toFloat
  cases n.exponent - n.places with
  | ofNat e => exact isNaN_signed (isNaN_float_ofScientific ..) _
  | negSucc e => exact isNaN_signed (isNaN_float_ofScientific ..) _

/-- What is read from a field is a number. -/
theorem isNaN_leadingFloat (field : List Char) : (leadingFloat field).isNaN = false := by
  unfold leadingFloat
  split
  · exact Numeral.isNaN_toFloat _
  · rfl

/-! ## Order -/

/-- Where a number stands among the doubles: by its sign and kind first, then by
    its exponent and mantissa. -/
def rank : UnpackedFloat → Int × Int × Int
  | .infinity .negative => (-2, 0, 0)
  | .finite .negative m e _ => (-1, -e, -m)
  | .zero _ | .notANumber => (0, 0, 0)
  | .finite .positive m e _ => (1, e, m)
  | .infinity .positive => (2, 0, 0)

/-- The order of ranks. -/
def compareRanks : Int × Int × Int → Int × Int × Int → Ordering :=
  compareLex (compareOn (·.1)) (compareLex (compareOn (·.2.1)) (compareOn (·.2.2)))

instance : Std.TransCmp compareRanks :=
  inferInstanceAs (Std.TransCmp (compareLex _ (compareLex _ _)))

theorem compare_neg (a b : Int) : compare (-a) (-b) = compare b a := by
  simp only [Int.compare_eq_ite_lt, Int.neg_lt_neg_iff]

theorem compare_cast (m n : Nat) : compare (m : Int) n = compare m n := by
  simp only [Int.compare_eq_ite_lt, Nat.compare_eq_ite_lt, Int.ofNat_lt]

/-- Numbers compare by their ranks. -/
theorem compare_eq_ranks {a b : UnpackedFloat} (ha : a.isNaN = false) (hb : b.isNaN = false) :
    a.compare b = some (compareRanks (rank a) (rank b)) := by
  cases a with
  | notANumber => cases ha
  | infinity s =>
    cases b with
    | notANumber => cases hb
    | zero => cases s <;> rfl
    | infinity t | finite t => cases s <;> cases t <;> rfl
  | zero =>
    cases b with
    | notANumber => cases hb
    | zero => rfl
    | infinity t | finite t => cases t <;> rfl
  | finite s m e hm =>
    cases b with
    | notANumber => cases hb
    | zero => cases s <;> rfl
    | infinity t => cases s <;> cases t <;> rfl
    | finite t m' e' hm' =>
      cases s <;> cases t
      · -- below zero the order of sizes is turned round, in the ranks by their signs
        have hranks : compareRanks (rank (.finite .negative m e hm))
            (rank (.finite .negative m' e' hm')) =
            (compare (-e) (-e')).then (compare (-(m : Int)) (-m')) := rfl
        rw [hranks, compare_neg, compare_neg, compare_cast]
        exact congrArg some (then_swap e e' m m').symm
      · rfl
      · rfl
      · exact congrArg (fun o => some ((compare e e').then o)) (compare_cast m m').symm

/-- Two doubles compare the other way round if both change their signs. -/
theorem compare_neg_neg (a b : UnpackedFloat) : a.neg.compare b.neg = b.compare a := by
  cases a with
  | notANumber => cases b <;> rfl
  | infinity s | zero s =>
    cases b with
    | infinity t | zero t | finite t => cases s <;> cases t <;> rfl
    | notANumber => cases s <;> rfl
  | finite s m e hm =>
    cases b with
    | infinity t | zero t => cases s <;> cases t <;> rfl
    | notANumber => cases s <;> rfl
    | finite t m' e' hm' =>
      cases s <;> cases t
      · exact congrArg some (then_swap e' e m' m)
      · rfl
      · rfl
      · exact congrArg some (then_swap e e' m m').symm

theorem compare_of_isNaN {a : UnpackedFloat} (h : a.isNaN = true) (b : UnpackedFloat) :
    a.compare b = none := by
  cases a with
  | notANumber => cases b <;> rfl
  | _ => cases h

theorem isNaN_of_compare {a b : UnpackedFloat} {o : Ordering} (h : a.compare b = some o) :
    a.isNaN = false ∧ b.isNaN = false := by
  cases a with
  | notANumber => cases b <;> cases h
  | _ =>
    cases b with
    | notANumber => cases h
    | _ => exact ⟨rfl, rfl⟩

section
variable {a b c : Float}

theorem lt_iff : a < b ↔ a.toModel.unpack.compare b.toModel.unpack = some .lt := by
  have hlt : a < b ↔ (a.toModel.unpack.compare b.toModel.unpack == some .lt) = true :=
    decide_eq_true_iff
  rw [hlt, beq_iff_eq]

theorem le_iff :
    a ≤ b ↔ ∃ o, a.toModel.unpack.compare b.toModel.unpack = some o ∧ o.isLE = true := by
  have hle : a ≤ b ↔ (a.toModel.unpack.compare b.toModel.unpack).any Ordering.isLE = true :=
    decide_eq_true_iff
  rw [hle, Option.any_eq_true]

theorem beq_iff : (a == b) = true ↔ a.toModel.unpack.compare b.toModel.unpack = some .eq := by
  have hbeq : (a == b) = (a.toModel.unpack.compare b.toModel.unpack == some .eq) := rfl
  rw [hbeq, beq_iff_eq]

theorem le_of_lt (h : a < b) : a ≤ b :=
  le_iff.2 ⟨.lt, lt_iff.1 h, rfl⟩

theorem isNaN_of_le (h : a ≤ b) : a.isNaN = false ∧ b.isNaN = false := by
  obtain ⟨o, ho, -⟩ := le_iff.1 h
  exact isNaN_of_compare ho

theorem lt_of_le_of_lt (hab : a ≤ b) (hbc : b < c) : a < c := by
  obtain ⟨o, ho, hle⟩ := le_iff.1 hab
  have hlt := lt_iff.1 hbc
  obtain ⟨ha, hb⟩ := isNaN_of_compare ho
  obtain ⟨-, hc⟩ := isNaN_of_compare hlt
  rw [compare_eq_ranks ha hb] at ho
  rw [compare_eq_ranks hb hc] at hlt
  cases ho
  rw [lt_iff, compare_eq_ranks ha hc, Std.TransCmp.lt_of_isLE_of_lt hle (Option.some.inj hlt)]

theorem lt_of_lt_of_le (hab : a < b) (hbc : b ≤ c) : a < c := by
  have hlt := lt_iff.1 hab
  obtain ⟨o, ho, hle⟩ := le_iff.1 hbc
  obtain ⟨ha, hb⟩ := isNaN_of_compare hlt
  obtain ⟨-, hc⟩ := isNaN_of_compare ho
  rw [compare_eq_ranks ha hb] at hlt
  rw [compare_eq_ranks hb hc] at ho
  cases ho
  rw [lt_iff, compare_eq_ranks ha hc, Std.TransCmp.lt_of_lt_of_isLE (Option.some.inj hlt) hle]

theorem le_trans (hab : a ≤ b) (hbc : b ≤ c) : a ≤ c := by
  obtain ⟨o, ho, hle⟩ := le_iff.1 hab
  obtain ⟨o', ho', hle'⟩ := le_iff.1 hbc
  obtain ⟨ha, hb⟩ := isNaN_of_compare ho
  obtain ⟨-, hc⟩ := isNaN_of_compare ho'
  rw [compare_eq_ranks ha hb] at ho
  rw [compare_eq_ranks hb hc] at ho'
  cases ho
  cases ho'
  exact le_iff.2 ⟨_, compare_eq_ranks ha hc, Std.TransCmp.isLE_trans hle hle'⟩

/-- Of two numbers one is smaller, or they are the same. -/
theorem lt_or_le (ha : a.isNaN = false) (hb : b.isNaN = false) : a < b ∨ b ≤ a := by
  rw [lt_iff, le_iff, compare_swap a.toModel.unpack, compare_eq_ranks ha hb]
  cases compareRanks (rank a.toModel.unpack) (rank b.toModel.unpack) with
  | lt => exact Or.inl rfl
  | eq | gt => exact Or.inr ⟨_, rfl, rfl⟩

theorem lt_irrefl (a : Float) : ¬ a < a :=
  fun h => not_lt_of_le (le_of_lt h) h

theorem beq_self (h : a.isNaN = false) : (a == a) = true := by
  rw [beq_iff, compare_eq_ranks h h,
    show compareRanks (rank a.toModel.unpack) (rank a.toModel.unpack) = .eq from
      Std.ReflCmp.compare_self]

/-- Equal doubles are in order either way. Zero is equal to its negative. -/
theorem le_of_beq (h : (a == b) = true) : a ≤ b ∧ b ≤ a := by
  have heq := beq_iff.1 h
  exact ⟨le_iff.2 ⟨_, heq, rfl⟩, le_iff.2 ⟨_, by rw [compare_swap, heq]; rfl, rfl⟩⟩

theorem le_refl (h : a.isNaN = false) : a ≤ a :=
  (le_of_beq (beq_self h)).1

theorem lt_of_le_of_not_beq (hle : a ≤ b) (hne : ¬ (a == b) = true) : a < b := by
  obtain ⟨o, ho, hisLE⟩ := le_iff.1 hle
  cases o with
  | lt => exact lt_iff.2 ho
  | eq => exact absurd (beq_iff.2 ho) hne
  | gt => cases hisLE

end

section
variable {a : Float} (h : a.isNaN = true) (b : Float)
include h

theorem not_lt_of_isNaN : ¬ a < b := by
  intro hlt
  rw [lt_iff, compare_of_isNaN h] at hlt
  cases hlt

theorem not_le_of_isNaN : ¬ b ≤ a := by
  intro hle
  rw [le_iff, compare_swap, compare_of_isNaN h] at hle
  obtain ⟨o, ho, -⟩ := hle
  cases ho

end

end JetEnergy.Decimal
