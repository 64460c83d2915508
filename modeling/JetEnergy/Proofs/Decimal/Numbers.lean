import Mathlib.Data.List.TakeWhile
import JetEnergy.Decimal.Numeral
import JetEnergy.Text.Blank

/-!
  Whole numbers in text, and the order of doubles.

  * `leadingInt_toDigits`: a natural number that is written down is read back,
    as long as a field can hold it.
  * `not_lt_of_le`: doubles in order are not out of order, whatever they are.
-/
namespace JetEnergy.Decimal

/-! ## Digits -/

theorem isDigit_of_mem_digits {n : Nat} {c : Char} (h : c ∈ Nat.toDigits 10 n) :
    c.isDigit = true :=
  Nat.isDigit_of_mem_toDigits (by decide) (by decide) h

theorem not_mem_digits (n : Nat) {c : Char} (h : c.isDigit = false) : c ∉ Nat.toDigits 10 n := by
  intro hmem
  rw [isDigit_of_mem_digits hmem] at h; cases h

theorem not_isBlank_of_isDigit {c : Char} (h : c.isDigit = true) : Text.isBlank c = false := by
  have hc : 48 ≤ c.toNat ∧ c.toNat ≤ 57 := by
    simpa [Char.isDigit, UInt32.le_iff_toNat_le] using h
  simp only [Text.isBlank, Bool.or_eq_false_iff, Bool.and_eq_false_iff, decide_eq_false_iff_not,
    beq_eq_false_iff_ne, ne_eq]
  omega

theorem natOfDigits_toDigits (n : Nat) : natOfDigits (Nat.toDigits 10 n) = n :=
  Nat.ofDigitChars_ten_toDigits

theorem takeSign_toDigits (n : Nat) :
    takeSign (Nat.toDigits 10 n) = (false, Nat.toDigits 10 n) := by
  unfold takeSign
  split
  · next heq => exact absurd (heq ▸ List.mem_cons_self ..) (not_mem_digits n (c := '-') (by decide))
  · next heq => exact absurd (heq ▸ List.mem_cons_self ..) (not_mem_digits n (c := '+') (by decide))
  · rfl

/-- A number below the bound of whole numbers is read as it is written. -/
theorem leadingInt_toDigits {n : Nat} (h : n < intBound) : leadingInt (Nat.toDigits 10 n) = n := by
  have hall : (Nat.toDigits 10 n).takeWhile Char.isDigit = Nat.toDigits 10 n :=
    List.takeWhile_eq_self_iff.2 fun c hc => isDigit_of_mem_digits hc
  simp only [leadingInt, takeSign_toDigits, hall, natOfDigits_toDigits, greatestInt]
  simp only [Bool.false_eq_true, if_false]
  omega

/-! ## Order -/

section
open Float.Model

theorem then_swap (e e' : Int) (m m' : Nat) :
    (compare e' e).then (compare m' m) = ((compare e e').then (compare m m')).swap := by
  rw [Ordering.swap_then, Int.compare_swap, Nat.compare_swap]

/-- Two doubles compare the other way round if they change places. -/
theorem compare_swap (a b : UnpackedFloat) : b.compare a = (a.compare b).map Ordering.swap := by
  cases a with
  | notANumber => cases b <;> rfl
  | infinity s =>
    cases s <;> cases b with
    | infinity t => cases t <;> rfl
    | _ => rfl
  | zero s =>
    cases b with
    | infinity t | finite t => cases t <;> rfl
    | _ => rfl
  | finite s m e hm =>
    cases b with
    | infinity t => cases s <;> cases t <;> rfl
    | zero | notANumber => cases s <;> rfl
    | finite t m' e' hm' =>
      cases s <;> cases t
      · exact congrArg (fun o => some o.swap) (then_swap e e' m m')
      · rfl
      · rfl
      · exact congrArg some (then_swap e e' m m')

/-- Doubles in order are not out of order, whatever they are. -/
theorem not_lt_of_le {a b : Float} (h : a ≤ b) : ¬ b < a := by
  intro hlt
  have hle : (a.toModel.unpack.compare b.toModel.unpack).any Ordering.isLE = true :=
    of_decide_eq_true h
  have hgt : (b.toModel.unpack.compare a.toModel.unpack == some .lt) = true :=
    of_decide_eq_true hlt
  rw [compare_swap] at hgt
  cases hc : a.toModel.unpack.compare b.toModel.unpack with
  | none => rw [hc] at hle; cases hle
  | some o =>
    rw [hc] at hle hgt
    cases o <;> simp at hle hgt

end

end JetEnergy.Decimal
