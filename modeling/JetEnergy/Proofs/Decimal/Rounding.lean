import Mathlib
import JetEnergy.Proofs.Decimal.Products

/-!
  Rounding to the nearest double.

  * `number?` is the rational number that a double is.  `CorrectlyRounded` says
    which double a rational number is rounded to: the nearest one, of two equally
    near ones the even one, and an infinity from `overflowBound` on.
  * `RoundedAt` is the same on a grid: a number of the size that asks for the
    exponent `t`, and the nearest multiple of `2 ^ t`.  `RoundedAt.nearest`: no
    double is nearer than that multiple, on the grid or off it.
  * `StandsFor`: a mantissa with its two residual bits knows on which side of
    the next half a number is, and shifting keeps that up.
  * `rounds_roundWithAccuracy`: the rounding of the arithmetic is the rounding that
    `CorrectlyRounded` asks for.  `Rounds.neg`: so it is below zero.
-/
namespace JetEnergy.Decimal

open Float.Model

/-! ## Doubles as rational numbers -/

/-- A size with a sign. -/
def signed : UnpackedFloat.Sign → ℚ → ℚ
  | .positive, q => q
  | .negative, q => -q

/-- The rational number that a double is. -/
def number? : UnpackedFloat → Option ℚ
  | .finite s m e _ => some (signed s (m * 2 ^ e))
  | .zero _ => some 0
  | .infinity _ | .notANumber => none

/-- The sign of a double. -/
def sign? : UnpackedFloat → Option UnpackedFloat.Sign
  | .finite s _ _ _ | .zero s | .infinity s => some s
  | .notANumber => none

/-- Whether the last bit of a double is 0. -/
def EvenMantissa : UnpackedFloat → Prop
  | .finite _ m _ _ => Even m
  | _ => True

/-- The first power of two that no double reaches. -/
def powerBound : ℚ := 2 ^ 53 * 2 ^ (971 : ℤ)

/-- The middle between the greatest double, `(2 ^ 53 - 1) * 2 ^ 971`, and
    `powerBound`. -/
def overflowBound : ℚ := (2 ^ 53 - 1 / 2) * 2 ^ (971 : ℤ)

/-- The double `x` is `v`, which no double is nearer to `q` than; where another
    one is as near, the last bit of `x` is 0. -/
structure NearestDouble (q : ℚ) (x : Float) (v : ℚ) : Prop where
  number : number? x.toModel.unpack = some v
  near {y : Float} {r : ℚ} : number? y.toModel.unpack = some r → |q - v| ≤ |q - r|
  even {y : Float} {r : ℚ} : number? y.toModel.unpack = some r → |q - v| = |q - r| →
    r = v ∨ EvenMantissa x.toModel.unpack

/-- The double `x` is the number `q`, correctly rounded. -/
inductive CorrectlyRounded (q : ℚ) (x : Float) : Prop
  | nearest {v : ℚ} : |q| < overflowBound → NearestDouble q x v → CorrectlyRounded q x
  | overflow {s : UnpackedFloat.Sign} : overflowBound ≤ signed s q →
      x.toModel.unpack = .infinity s → CorrectlyRounded q x

/-- A whole number of 53 bits, times a power of two that is not too small. -/
def Representable (r : ℚ) : Prop :=
  ∃ k e : ℤ, |k| < 2 ^ 53 ∧ -1074 ≤ e ∧ r = k * 2 ^ e

theorem Settled.bounds {s : UnpackedFloat.Sign} {m : ℕ} {e : ℤ} {hm : 0 < m}
    (h : Settled (.finite s m e hm)) :
    m < 2 ^ 53 ∧ -1074 ≤ e ∧ (e = -1074 ∨ 2 ^ 52 ≤ m) := by
  rw [Settled, targetExponent_eq] at h
  have hlog : m.log2 < 53 := by omega
  refine ⟨(Nat.log2_lt hm.ne').1 hlog, by omega, ?_⟩
  by_cases he : e = -1074
  · exact Or.inl he
  · exact Or.inr ((Nat.le_log2 hm.ne').1 (by omega))

theorem representable_of_number? {u : UnpackedFloat} {r : ℚ} (h : Settled u)
    (hr : number? u = some r) : Representable r := by
  cases u with
  | finite s m e hm =>
    obtain ⟨hlt, hle, -⟩ := h.bounds
    cases s with
    | positive =>
      exact ⟨m, e, by rw [Nat.abs_cast]; exact_mod_cast hlt, hle, (Option.some.inj hr).symm⟩
    | negative =>
      refine ⟨-m, e, by rw [abs_neg, Nat.abs_cast]; exact_mod_cast hlt, hle, ?_⟩
      rw [← Option.some.inj hr, signed]
      push_cast
      ring
  | zero => exact ⟨0, 0, by norm_num, by norm_num, by simpa using (Option.some.inj hr).symm⟩
  | infinity | notANumber => cases hr

/-! ## Rounding to whole numbers -/

/-- The whole number `M` is at most half away from `x`, and even if it is half
    away. -/
structure RoundedNat (x : ℚ) (M : ℕ) : Prop where
  near : |x - M| ≤ 1 / 2
  even : |x - M| = 1 / 2 → Even M

/-- No whole number is nearer. -/
theorem RoundedNat.nearest {x : ℚ} {M : ℕ} (h : RoundedNat x M) (k : ℤ) :
    |x - M| ≤ |x - k| ∧ (|x - M| = |x - k| → k = M ∨ Even M) := by
  by_cases hk : k = M
  · simp [hk]
  · have hapart : (1 : ℚ) ≤ |(M : ℚ) - k| := by
      have : (1 : ℤ) ≤ |(M : ℤ) - k| := Int.one_le_abs (sub_ne_zero.2 (Ne.symm hk))
      exact_mod_cast this
    have htriangle : |(M : ℚ) - k| ≤ |x - M| + |x - k| := by
      rw [abs_sub_comm x M]
      exact abs_sub_le _ _ _
    have hnear := h.near
    refine ⟨by linarith, fun heq => Or.inr (h.even ?_)⟩
    linarith

theorem RoundedNat.le_of_le {x : ℚ} {M n : ℕ} (h : RoundedNat x M) (hn : n ≤ x) : n ≤ M := by
  have hnear := (abs_le.1 h.near).2
  by_contra! hlt
  have : (M : ℚ) + 1 ≤ n := by exact_mod_cast hlt
  linarith

theorem RoundedNat.le_of_lt {x : ℚ} {M n : ℕ} (h : RoundedNat x M) (hn : x < n) : M ≤ n := by
  have hnear := (abs_le.1 h.near).1
  by_contra! hlt
  have : (n : ℚ) + 1 ≤ M := by exact_mod_cast hlt
  linarith

/-! ## Rounding on a grid -/

/-- The number `q` asks for the exponent `t`, and `M * 2 ^ t` is the nearest
    multiple of `2 ^ t`. -/
structure RoundedAt (q : ℚ) (M : ℕ) (t : ℤ) : Prop where
  least : -1074 ≤ t
  lt : q / 2 ^ t < 2 ^ 53
  le : t = -1074 ∨ 2 ^ 52 ≤ q / 2 ^ t
  rounded : RoundedNat (q / 2 ^ t) M

/-- Distances in units of the grid. -/
theorem abs_sub_grid (q r : ℚ) (t : ℤ) : |q - r * 2 ^ t| = |q / 2 ^ t - r| * 2 ^ t := by
  have hpos : (0 : ℚ) < 2 ^ t := by positivity
  rw [← abs_of_pos hpos, ← abs_mul, sub_mul, abs_of_pos hpos, div_mul_cancel₀ _ hpos.ne']

theorem double_zpow_le {e t : ℤ} (h : e < t) : (2 : ℚ) ^ e * 2 ≤ 2 ^ t := by
  rw [← zpow_add_one₀ two_ne_zero]
  exact zpow_le_zpow_right₀ one_le_two h

section
variable {q : ℚ} {M : ℕ} {t : ℤ} (h : RoundedAt q M t)
include h

theorem RoundedAt.mantissa_le : M ≤ 2 ^ 53 :=
  h.rounded.le_of_lt (by exact_mod_cast h.lt)

theorem RoundedAt.le_mantissa : t = -1074 ∨ 2 ^ 52 ≤ M :=
  h.le.imp_right fun hle => h.rounded.le_of_le (by exact_mod_cast hle)

/-- No other number on the grid is nearer. -/
theorem RoundedAt.nearest_multiple (k : ℤ) : |q - M * 2 ^ t| ≤ |q - k * 2 ^ t| ∧
    (|q - M * 2 ^ t| = |q - k * 2 ^ t| → (k : ℚ) * 2 ^ t = M * 2 ^ t ∨ Even M) := by
  have hpos : (0 : ℚ) < 2 ^ t := by positivity
  obtain ⟨hnear, heven⟩ := h.rounded.nearest k
  rw [abs_sub_grid, abs_sub_grid]
  refine ⟨mul_le_mul_of_nonneg_right hnear hpos.le, fun heq => ?_⟩
  refine (heven (mul_right_cancel₀ hpos.ne' heq)).imp_left fun hM => ?_
  rw [hM, Int.cast_natCast]

/-- What is below all numbers that ask for the exponent `t` is not as near. -/
theorem RoundedAt.nearer {r : ℚ} (ht : t ≠ -1074) (hr : r < 2 ^ 52 * 2 ^ t) :
    |q - M * 2 ^ t| < |q - r| := by
  have hpos : (0 : ℚ) < 2 ^ t := by positivity
  have hsize : 2 ^ 52 * 2 ^ t ≤ q := (le_div_iff₀ hpos).1 (h.le.resolve_left ht)
  obtain ⟨hnear, -⟩ := h.nearest_multiple (2 ^ 52)
  rw [Int.cast_pow, Int.cast_ofNat, abs_of_nonneg (sub_nonneg.2 hsize)] at hnear
  calc |q - M * 2 ^ t| ≤ q - 2 ^ 52 * 2 ^ t := hnear
    _ < q - r := sub_lt_sub_left hr q
    _ ≤ |q - r| := le_abs_self _

/-- No double is nearer, on the grid or off it. -/
theorem RoundedAt.nearest {r : ℚ} (hr : Representable r) :
    |q - M * 2 ^ t| ≤ |q - r| ∧ (|q - M * 2 ^ t| = |q - r| → r = M * 2 ^ t ∨ Even M) := by
  obtain ⟨k, e, hk, hle, rfl⟩ := hr
  rcases le_or_gt t e with hte | het
  · -- a double of this size or a greater one is on the grid
    obtain ⟨n, rfl⟩ := Int.le.dest hte
    have hgrid : (k : ℚ) * 2 ^ (t + n) = (k * 2 ^ n : ℤ) * 2 ^ t := by
      rw [zpow_add₀ two_ne_zero, zpow_natCast]
      push_cast
      ring
    rw [hgrid]
    exact h.nearest_multiple (k * 2 ^ n)
  · -- a smaller one is below the least number that asks for the exponent `t`
    have hsmall : (k : ℚ) * 2 ^ e < 2 ^ 52 * 2 ^ t := by
      have hk' : (k : ℚ) < 2 ^ 53 := by exact_mod_cast (le_abs_self k).trans_lt hk
      calc (k : ℚ) * 2 ^ e < 2 ^ 53 * 2 ^ e := mul_lt_mul_of_pos_right hk' (by positivity)
        _ = 2 ^ 52 * (2 ^ e * 2) := by ring
        _ ≤ 2 ^ 52 * 2 ^ t := by gcongr; exact double_zpow_le het
    have hnearer := h.nearer (by omega) hsmall
    exact ⟨hnearer.le, fun heq => absurd heq hnearer.ne⟩

/-- What is rounded to a number that no double reaches is what lies beyond the
    middle before the first of these. -/
theorem RoundedAt.overflowBound_le_iff : overflowBound ≤ q ↔ powerBound ≤ M * 2 ^ t := by
  have hpos : (0 : ℚ) < 2 ^ t := by positivity
  have hbound : (0 : ℚ) < 2 ^ (971 : ℤ) := by positivity
  have hlt := (div_lt_iff₀ hpos).1 h.lt
  have hM := mul_le_mul_of_nonneg_right
    (by exact_mod_cast h.mantissa_le : (M : ℚ) ≤ 2 ^ 53) hpos.le
  rw [overflowBound, powerBound]
  rcases lt_trichotomy t 971 with ht | rfl | ht
  · -- all numbers of this size are far below
    have hpow := double_zpow_le ht
    generalize (2 : ℚ) ^ t = unit, (2 : ℚ) ^ (971 : ℤ) = top at *
    exact iff_of_false (by linarith) (by linarith)
  · have hnear := abs_le.1 h.rounded.near
    rw [← le_div_iff₀ hbound, mul_le_mul_iff_left₀ hbound]
    refine ⟨fun hle => ?_, fun hle => by linarith⟩
    -- at the middle itself the mantissa would have to be odd
    by_contra! hless
    have hnext : M + 1 = 2 ^ 53 := by
      have hleM : ((2 ^ 53 : ℕ) : ℚ) ≤ (M + 1 : ℕ) := by push_cast; linarith
      exact le_antisymm (by exact_mod_cast hless) (by exact_mod_cast hleM)
    have hcast : (M : ℚ) + 1 = 2 ^ 53 := by exact_mod_cast hnext
    have heven := h.rounded.even (le_antisymm h.rounded.near (le_abs.2 (by left; linarith)))
    rw [Nat.even_iff] at heven
    omega
  · -- all numbers of this size are beyond
    have hpow := double_zpow_le ht
    have hleq := (le_div_iff₀ hpos).1 (h.le.resolve_left (by omega))
    have hleM := mul_le_mul_of_nonneg_right
      (by exact_mod_cast h.le_mantissa.resolve_left (by omega) : (2 ^ 52 : ℚ) ≤ M) hpos.le
    generalize (2 : ℚ) ^ t = unit, (2 : ℚ) ^ (971 : ℤ) = top at *
    exact iff_of_true (by linarith) (by linarith)

end

/-! ## Residual bits -/

open UnpackedFloat (ExtendedMantissa Accuracy)

/-- What a mantissa and its residual bits tell of the number `x`: its whole part, whether
    it lies beyond the next half, and whether anything else is left. -/
def StandsFor (em : ExtendedMantissa) (x : ℚ) : Prop :=
  ∃ rest : ℚ, x = em.mantissa + em.roundBit.toNat / 2 + rest ∧ 0 ≤ rest ∧ rest < 1 / 2 ∧
    (em.stickyBit = true ↔ 0 < rest)

section
variable {em : ExtendedMantissa} {x : ℚ} (h : StandsFor em x)
include h

theorem StandsFor.mantissa_le : em.mantissa ≤ x := by
  obtain ⟨rest, rfl, hrest, -, -⟩ := h
  have : (0 : ℚ) ≤ em.roundBit.toNat / 2 := by positivity
  linarith

theorem StandsFor.lt_mantissa : x < em.mantissa + 1 := by
  obtain ⟨rest, rfl, -, hrest, -⟩ := h
  have hbit : (em.roundBit.toNat : ℚ) ≤ 1 := by exact_mod_cast em.roundBit.toNat_le
  linarith

theorem StandsFor.shiftRightOne : StandsFor em.shiftRightOne (x / 2) := by
  obtain ⟨rest, rfl, hrest, hhalf, hsticky⟩ := h
  have hbit : (em.roundBit.toNat : ℚ) ≤ 1 := by exact_mod_cast em.roundBit.toNat_le
  have hbit' : (0 : ℚ) ≤ em.roundBit.toNat := Nat.cast_nonneg _
  have hmantissa : (em.mantissa : ℚ) = 2 * (em.mantissa / 2 : ℕ) + (em.mantissa % 2 : ℕ) := by
    exact_mod_cast (Nat.div_add_mod em.mantissa 2).symm
  have hround : em.shiftRightOne.roundBit.toNat = em.mantissa % 2 := by
    rcases Nat.mod_two_eq_zero_or_one em.mantissa with h2 | h2 <;>
      simp [ExtendedMantissa.shiftRightOne, h2]
  -- the bit that was the next one becomes part of what else is left
  refine ⟨em.roundBit.toNat / 4 + rest / 2, ?_, by positivity, by linarith, ?_⟩
  · rw [hround, hmantissa, ExtendedMantissa.shiftRightOne]
    ring
  · cases hb : em.roundBit with
    | true => simpa [ExtendedMantissa.shiftRightOne, hb] using by positivity
    | false => simp [ExtendedMantissa.shiftRightOne, hb, hsticky]

theorem StandsFor.shiftRight (n : ℕ) : StandsFor (em >>> n) (x / 2 ^ n) := by
  induction n with
  | zero => rwa [pow_zero, div_one]
  | succ n ih =>
    rw [pow_succ, ← div_div]
    exact ih.shiftRightOne

/-- The rounding of a mantissa, as its residual bits have it, is the rounding of
    the number it stands for. -/
theorem StandsFor.rounded : RoundedNat x em.roundedMantissa := by
  obtain ⟨m, round, sticky⟩ := em
  obtain ⟨rest, rfl, hrest, hhalf, hsticky⟩ := h
  cases round with
  | false =>
    have hdown : (ExtendedMantissa.mk m false sticky).roundedMantissa = m := by cases sticky <;> rfl
    have habs : |(m : ℚ) + (false.toNat : ℕ) / 2 + rest - m| = rest := by
      rw [Bool.toNat_false, Nat.cast_zero, zero_div, add_zero, add_sub_cancel_left,
        abs_of_nonneg hrest]
    rw [hdown]
    exact ⟨habs.trans_le hhalf.le, fun heq => absurd (habs.symm.trans heq) hhalf.ne⟩
  | true =>
    cases sticky with
    | false =>
      -- half way, and so to the even one of both sides
      have hnone : rest = 0 := le_antisymm (not_lt.1 fun hpos => by cases hsticky.2 hpos) hrest
      have hmiddle : (ExtendedMantissa.mk m true false).roundedMantissa = m + m % 2 := rfl
      rw [hmiddle, hnone, Bool.toNat_true, Nat.cast_one]
      have hboth : |(m : ℚ) + 1 / 2 + 0 - (m + m % 2 : ℕ)| = 1 / 2 := by
        rcases Nat.mod_two_eq_zero_or_one m with h2 | h2 <;> rw [h2] <;> push_cast
        · rw [show (m : ℚ) + 1 / 2 + 0 - (m + 0) = 1 / 2 by ring, abs_of_pos (by norm_num)]
        · rw [show (m : ℚ) + 1 / 2 + 0 - (m + 1) = -(1 / 2) by ring, abs_neg,
            abs_of_pos (by norm_num)]
      exact ⟨hboth.le, fun _ => Nat.even_iff.2 (by omega)⟩
    | true =>
      have hup : (ExtendedMantissa.mk m true true).roundedMantissa = m + 1 := rfl
      have hpos : 0 < rest := hsticky.1 rfl
      have habs : |(m : ℚ) + 1 / 2 + rest - (m + 1 : ℕ)| = 1 / 2 - rest := by
        rw [Nat.cast_add_one, show (m : ℚ) + 1 / 2 + rest - (m + 1) = -(1 / 2 - rest) by ring,
          abs_neg, abs_of_pos (by linarith)]
      rw [hup, Bool.toNat_true, Nat.cast_one]
      exact ⟨by linarith, fun heq => absurd (habs.symm.trans heq) (by linarith)⟩

end

theorem standsFor_exact (m : ℕ) : StandsFor (.ofMantissaAndAccuracy m .exact) m :=
  ⟨0, by simp [ExtendedMantissa.ofMantissaAndAccuracy], le_rfl, by norm_num,
    by simp [ExtendedMantissa.ofMantissaAndAccuracy]⟩

/-- A quotient stands for its whole part and what the remainder says of the rest. -/
theorem standsFor_quotient (n : ℕ) {d : ℕ} (hd : 0 < d) :
    StandsFor (.ofMantissaAndAccuracy (n / d) (UnpackedFloat.accuracyOfFraction (n % d) d))
      (n / d) := by
  have hdpos : (0 : ℚ) < d := by exact_mod_cast hd
  have hlt : ((n % d : ℕ) : ℚ) / d < 1 := by
    rw [div_lt_one hdpos]
    exact_mod_cast Nat.mod_lt n hd
  have hn : (n : ℚ) / d = (n / d : ℕ) + (n % d : ℕ) / d := by
    have : (n : ℚ) = d * (n / d : ℕ) + (n % d : ℕ) := by exact_mod_cast (Nat.div_add_mod n d).symm
    rw [this, add_div, mul_div_cancel_left₀ _ hdpos.ne']
  rw [hn]
  unfold UnpackedFloat.accuracyOfFraction
  split
  · next hnone =>
    rw [hnone, Nat.cast_zero, zero_div, add_zero]
    exact standsFor_exact _
  · next hsome =>
    have hpos : (0 : ℚ) < (n % d : ℕ) / d := by
      have : 0 < n % d := Nat.pos_of_ne_zero hsome
      positivity
    cases hcompare : compare (2 * (n % d)) d with
    | lt =>
      have hhalf : (2 * (n % d : ℕ) : ℚ) < d := by exact_mod_cast Nat.compare_eq_lt.1 hcompare
      rw [← div_lt_one hdpos, mul_div_assoc] at hhalf
      exact ⟨_, by simp [ExtendedMantissa.ofMantissaAndAccuracy], hpos.le, by linarith,
        iff_of_true rfl hpos⟩
    | eq =>
      have hhalf : (2 * (n % d : ℕ) : ℚ) = d := by exact_mod_cast Nat.compare_eq_eq.1 hcompare
      rw [← div_eq_one_iff_eq hdpos.ne', mul_div_assoc] at hhalf
      refine ⟨0, ?_, le_rfl, by norm_num, iff_of_false Bool.false_ne_true (by norm_num)⟩
      rw [show ((n % d : ℕ) : ℚ) / d = 1 / 2 by linarith]
      simp [ExtendedMantissa.ofMantissaAndAccuracy]
    | gt =>
      have hhalf : (d : ℚ) < 2 * (n % d : ℕ) := by exact_mod_cast Nat.compare_eq_gt.1 hcompare
      rw [← one_lt_div hdpos, mul_div_assoc] at hhalf
      refine ⟨(n % d : ℕ) / d - 1 / 2, ?_, by linarith, by linarith,
        iff_of_true rfl (by linarith)⟩
      simp only [ExtendedMantissa.ofMantissaAndAccuracy, Bool.toNat_true, Nat.cast_one]
      ring

/-! ## Rounding to a mantissa of 53 bits -/

/-- The unpacked double `u` is the mantissa `M` at the exponent `t`, one bit shorter if it
    has 54. -/
structure StandsAt (u : UnpackedFloat) (s : UnpackedFloat.Sign) (M : ℕ) (t : ℤ) : Prop where
  settled : Settled u
  sign : sign? u = some s
  number : number? u = some (signed s (M * 2 ^ t))
  even : Even M → EvenMantissa u

theorem shiftToTargetExponent_eq {m : ℕ} {e : ℤ}
    (h : e ≤ Format.binary64.targetExponent (totalExponent m e)) (a : Accuracy) :
    UnpackedFloat.shiftToTargetExponent .binary64 m e a =
      (ExtendedMantissa.ofMantissaAndAccuracy m a >>>
        (Format.binary64.targetExponent (totalExponent m e) - e).toNat,
      Format.binary64.targetExponent (totalExponent m e)) := by
  rw [UnpackedFloat.shiftToTargetExponent, UnpackedFloat.shiftToExponent,
    Int.toNat_of_nonneg (sub_nonneg.2 h), add_sub_cancel]

theorem roundWithAccuracy_standsAt {m M : ℕ} {e t : ℤ} {a : Accuracy} {em : ExtendedMantissa}
    (s : UnpackedFloat.Sign)
    (hshift : UnpackedFloat.shiftToTargetExponent .binary64 m e a = (em, t))
    (hround : em.roundedMantissa = M) (hM : M ≤ 2 ^ 53) (hleast : -1074 ≤ t)
    (hsize : t = -1074 ∨ 2 ^ 52 ≤ M) :
    StandsAt (UnpackedFloat.roundWithAccuracy .binary64 s m e a) s M t := by
  rw [UnpackedFloat.roundWithAccuracy, hshift]
  dsimp only
  rw [hround]
  rcases Nat.eq_zero_or_pos M with rfl | hpos
  · -- nothing is left of the number
    obtain rfl : t = -1074 := hsize.resolve_right (by decide)
    refine ⟨trivial, rfl, congrArg some ?_, fun _ => trivial⟩
    cases s <;> simp [signed]
  rcases hM.lt_or_eq with hlt | rfl
  · have hsettled : Format.binary64.targetExponent (totalExponent M t) = t := by
      rw [targetExponent_eq]
      have := (Nat.log2_lt hpos.ne').2 hlt
      have := fun h : 2 ^ 52 ≤ M => (Nat.le_log2 hpos.ne').2 h
      omega
    have hsame := shiftToTargetExponent_zeros hpos hsettled 0
    rw [pow_zero, mul_one, Nat.cast_zero, sub_zero] at hsame
    rw [hsame, dif_neg hpos.ne']
    exact ⟨hsettled, rfl, rfl, id⟩
  · -- the rounding has carried into one bit more
    have hsettled : Format.binary64.targetExponent (totalExponent (2 ^ 52) (t + 1)) = t + 1 := by
      rw [targetExponent_eq, Nat.log2_two_pow]
      omega
    have hcarry := shiftToTargetExponent_zeros (Nat.two_pow_pos 52) hsettled 1
    rw [← pow_add, Nat.cast_one, add_sub_cancel_right] at hcarry
    rw [hcarry, dif_neg (Nat.two_pow_pos 52).ne']
    refine ⟨hsettled, rfl, congrArg (some <| signed s ·) ?_,
      fun _ => (by decide : Even (2 ^ 52 : ℕ))⟩
    rw [zpow_add_one₀ two_ne_zero]
    push_cast
    ring

theorem ofMantissaAndAccuracy_mantissa (m : ℕ) (a : Accuracy) :
    (ExtendedMantissa.ofMantissaAndAccuracy m a).mantissa = m := by
  cases a with
  | exact => rfl
  | inexact o => cases o <;> rfl

/-- The exponent that a mantissa asks for, and what is left at that exponent. -/
theorem StandsFor.roundedAt {m : ℕ} {e : ℤ} {a : Accuracy} {x : ℚ}
    (h : StandsFor (.ofMantissaAndAccuracy m a) x)
    (he : e ≤ Format.binary64.targetExponent (totalExponent m e)) :
    RoundedAt (x * 2 ^ e)
      (ExtendedMantissa.ofMantissaAndAccuracy m a >>>
        (Format.binary64.targetExponent (totalExponent m e) - e).toNat).roundedMantissa
      (Format.binary64.targetExponent (totalExponent m e)) := by
  have hfloor := h.mantissa_le
  have hnext := h.lt_mantissa
  rw [ofMantissaAndAccuracy_mantissa] at hfloor hnext
  have ht := targetExponent_eq m e
  generalize Format.binary64.targetExponent (totalExponent m e) = t at he ht ⊢
  obtain ⟨n, rfl⟩ := Int.le.dest he
  have hscale : x * 2 ^ e / 2 ^ (e + n) = x / 2 ^ n := by
    rw [zpow_add₀ two_ne_zero, mul_comm x, mul_div_mul_left _ _ (by positivity), zpow_natCast]
  rw [add_sub_cancel_left, Int.toNat_natCast]
  refine ⟨by omega, ?_, ?_, hscale ▸ (h.shiftRight n).rounded⟩ <;> rw [hscale]
  · rw [div_lt_iff₀ (by positivity), ← pow_add]
    calc x < m + 1 := hnext
      _ ≤ 2 ^ (m.log2 + 1) := by exact_mod_cast Nat.lt_log2_self
      _ ≤ 2 ^ (53 + n) := pow_le_pow_right₀ one_le_two (by omega)
  · by_cases hleast : e + n = -1074
    · exact Or.inl hleast
    · have hlog : m.log2 = 52 + n := by omega
      have hm : m ≠ 0 := by
        rintro rfl
        rw [Nat.log2_zero] at hlog
        omega
      rw [le_div_iff₀ (by positivity), ← pow_add, ← hlog]
      exact Or.inr (hfloor.trans' (by exact_mod_cast Nat.log2_self_le hm))

/-! ## Packing -/

theorem unpackSign_packComponents {spec : Format} (s : UnpackedFloat.Sign)
    (e : BitVec spec.exponentBits) (m : BitVec spec.mantissaBitsWithoutImplicit) :
    UnpackedFloat.unpackSign (UnpackedFloat.packComponents spec s e m) = s.toBitVec := by
  ext i hi
  obtain rfl : i = 0 := by omega
  simp [UnpackedFloat.unpackSign, UnpackedFloat.packComponents, BitVec.getLsbD_eq_getElem,
    BitVec.getLsbD_append, BitVec.getElem_append]

theorem ofBitVec_toBitVec (s : UnpackedFloat.Sign) :
    UnpackedFloat.Sign.ofBitVec s.toBitVec = s := by
  cases s <;> rfl

/-- A mantissa whose first bit is left out. -/
theorem unpack_normal (s : UnpackedFloat.Sign) {e : BitVec 11} (hgreatest : e ≠ -1#11)
    (hleast : e ≠ 0#11) (m : BitVec 52) (hm : 0 < (1#1 ++ m).toNat) :
    UnpackedFloat.unpack .binary64 (UnpackedFloat.packComponents .binary64 s e m) =
      .finite s (1#1 ++ m).toNat (e.toNat - (1023 + 52)) hm := by
  have he := @UnpackedFloat.unpackExponent_packComponents .binary64 s e m
  unfold UnpackedFloat.unpack
  dsimp only
  rw [if_neg (he.trans_ne hgreatest), if_neg (he.trans_ne hleast)]
  congr 1
  · rw [unpackSign_packComponents, ofBitVec_toBitVec]
  · rw [UnpackedFloat.unpackMantissa_packComponents]
  · rw [he]
    rfl

/-- A mantissa of fewer bits, at the least exponent. -/
theorem unpack_subnormal (s : UnpackedFloat.Sign) {m : BitVec 52} (hm : 0 < m.toNat) :
    UnpackedFloat.unpack .binary64 (UnpackedFloat.packComponents .binary64 s 0#11 m) =
      .finite s m.toNat (-1074) hm := by
  have he := @UnpackedFloat.unpackExponent_packComponents .binary64 s 0#11 m
  have hmantissa := @UnpackedFloat.unpackMantissa_packComponents .binary64 s 0#11 m
  have hgreatest : (0#11) ≠ -1#11 := by decide
  have hnonzero : m ≠ 0#52 := by
    rintro rfl
    exact absurd hm (by decide)
  unfold UnpackedFloat.unpack
  dsimp only
  rw [if_neg (he.trans_ne hgreatest), if_pos he, dif_neg (hmantissa.trans_ne hnonzero)]
  congr 1
  · rw [unpackSign_packComponents, ofBitVec_toBitVec]
  · rw [hmantissa]
  · rw [he]
    rfl

theorem finite_congr {s : UnpackedFloat.Sign} {m m' : ℕ} {e e' : ℤ} {hm : 0 < m} {hm' : 0 < m'}
    (hmantissa : m = m') (hexponent : e = e') :
    UnpackedFloat.finite s m e hm = .finite s m' e' hm' := by
  subst hmantissa hexponent
  rfl

section
variable {s : UnpackedFloat.Sign} {m : ℕ} {e : ℤ} {hm : 0 < m}

theorem unpack_pack_finite (h : Settled (.finite s m e hm)) (he : e ≤ 971) :
    (pack (.finite s m e hm)).unpack = .finite s m e hm := by
  obtain ⟨hlt, hle, hsize⟩ := h.bounds
  show UnpackedFloat.unpack .binary64 (UnpackedFloat.pack .binary64 (.finite s m e hm)) = _
  have hbias : Format.binary64.exponentBias = 1023 := rfl
  have hbits : Format.binary64.mantissaBits = 53 := rfl
  have hlog := (Nat.log2_lt hm.ne').2 hlt
  unfold UnpackedFloat.pack
  dsimp only
  obtain ⟨biased, hbiased⟩ : ∃ n : ℕ, (e + (1023 : ℕ) + (52 : ℕ)).toNat = n := ⟨_, rfl⟩
  rw [hbias, hbits, hbiased, if_neg (by omega)]
  split
  · next hnormal =>
    have hm52 : 2 ^ 52 ≤ m := (Nat.le_log2 hm.ne').1 (by omega)
    have hexponent : (BitVec.ofNat 11 biased).toNat = biased :=
      (BitVec.toNat_ofNat ..).trans (Nat.mod_eq_of_lt (by omega))
    have hmantissa : (1#1 ++ BitVec.ofNat 52 m).toNat = m := by
      rw [toNat_append_mantissa, BitVec.toNat_ofNat]
      omega
    have hother : ∀ {v : BitVec 11}, biased ≠ v.toNat → BitVec.ofNat 11 biased ≠ v :=
      fun hne heq => hne (hexponent.symm.trans (congrArg BitVec.toNat heq))
    have hgreatest : BitVec.ofNat 11 biased ≠ -1#11 :=
      hother (by rw [show (-1#11).toNat = 2047 by decide]; omega)
    have hleast : BitVec.ofNat 11 biased ≠ 0#11 :=
      hother (by rw [show (0#11).toNat = 0 by decide]; omega)
    rw [unpack_normal s hgreatest hleast _ (by rw [hmantissa]; exact hm)]
    exact finite_congr hmantissa (by rw [hexponent]; omega)
  · next hsubnormal =>
    have hm52 : m < 2 ^ 52 := (Nat.log2_lt hm.ne').1 (by omega)
    obtain rfl : e = -1074 := hsize.resolve_right (by omega)
    have hmantissa : (BitVec.ofNat 52 m).toNat = m :=
      (BitVec.toNat_ofNat ..).trans (Nat.mod_eq_of_lt hm52)
    rw [unpack_subnormal s (by rw [hmantissa]; exact hm)]
    exact finite_congr hmantissa rfl

theorem unpack_pack_large (h : 971 < e) : (pack (.finite s m e hm)).unpack = .infinity s := by
  show UnpackedFloat.unpack .binary64 (UnpackedFloat.pack .binary64 (.finite s m e hm)) = _
  have hbias : Format.binary64.exponentBias = 1023 := rfl
  unfold UnpackedFloat.pack
  dsimp only
  rw [if_pos (by rw [hbias]; omega)]
  cases s <;> rfl

/-- Only the sizes of doubles have exponents of 11 bits. -/
theorem Settled.exponent_le_iff (h : Settled (.finite s m e hm)) :
    e ≤ 971 ↔ (m : ℚ) * 2 ^ e < powerBound := by
  obtain ⟨hlt, -, hsize⟩ := h.bounds
  rw [powerBound]
  constructor
  · intro he
    have hlt' : (m : ℚ) < 2 ^ 53 := by exact_mod_cast hlt
    calc (m : ℚ) * 2 ^ e < 2 ^ 53 * 2 ^ e := mul_lt_mul_of_pos_right hlt' (by positivity)
      _ ≤ 2 ^ 53 * 2 ^ (971 : ℤ) := by
        gcongr
        exact one_le_two
  · intro hless
    by_contra! he
    have hpow := double_zpow_le he
    have hle := mul_le_mul_of_nonneg_right
      (by exact_mod_cast hsize.resolve_left (by omega) : (2 ^ 52 : ℚ) ≤ m)
      (zpow_nonneg zero_le_two e)
    generalize (2 : ℚ) ^ e = unit, (2 : ℚ) ^ (971 : ℤ) = top at *
    linarith

end

theorem exponent_unpack_le {b : BitVec Format.binary64.numBits} {s : UnpackedFloat.Sign} {m : ℕ}
    {e : ℤ} {hm : 0 < m} (h : UnpackedFloat.unpack .binary64 b = .finite s m e hm) : e ≤ 971 := by
  have hbias : Format.binary64.exponentBias = 1023 := rfl
  revert h
  fun_cases UnpackedFloat.unpack with
  | case4 mantissa exponent e' _ _ _ hzero =>
    intro heq
    have he : e' + 1 = e := (UnpackedFloat.finite.inj heq).2.2
    have he' : e' = (0 : Nat) - (Format.binary64.exponentBias + 52) :=
      congrArg (fun v : BitVec 11 => (v.toNat : Int) - (Format.binary64.exponentBias + 52)) hzero
    omega
  | case5 mantissa exponent e' _ _ hgreatest =>
    intro heq
    have he : e' = e := (UnpackedFloat.finite.inj heq).2.2
    have he' : e' = exponent.toNat - (Format.binary64.exponentBias + 52) := rfl
    have hne : exponent.toNat ≠ 2047 := fun h => hgreatest (BitVec.eq_of_toNat_eq h)
    have hlt : exponent.toNat < 2048 := exponent.isLt
    omega
  | _ => rintro ⟨⟩

/-! ## Correct rounding -/

/-- The double `x` is the number `size` with the sign `s`, correctly rounded, and has that sign
    where it is zero. -/
structure Rounds (s : UnpackedFloat.Sign) (size : ℚ) (x : Float) : Prop where
  rounded : CorrectlyRounded (signed s size) x
  sign : sign? x.toModel.unpack = some s

/-- A number that is rounded to 53 bits is correctly rounded when it is packed. -/
theorem StandsAt.rounds {u : UnpackedFloat} {q : ℚ} {M : ℕ} {t : ℤ}
    (hu : StandsAt u .positive M t) (h : RoundedAt q M t) (hq : 0 ≤ q) :
    Rounds .positive q (.ofModel (pack u)) := by
  obtain ⟨hsettled, hsign, hnumber, heven⟩ := hu
  have hpack : (powerBound ≤ M * 2 ^ t ∧ (pack u).unpack = .infinity .positive) ∨
      (¬ powerBound ≤ M * 2 ^ t ∧ (pack u).unpack = u) := by
    cases u with
    | finite s m e hm =>
      cases hsign
      have hM : (m : ℚ) * 2 ^ e = M * 2 ^ t := Option.some.inj hnumber
      rw [← hM, not_le, ← hsettled.exponent_le_iff, ← not_lt, ← hsettled.exponent_le_iff]
      by_cases he : e ≤ 971
      · exact Or.inr ⟨he, unpack_pack_finite hsettled he⟩
      · exact Or.inl ⟨he, unpack_pack_large (not_le.1 he)⟩
    | zero s =>
      cases hsign
      refine Or.inr ⟨?_, rfl⟩
      rw [← show (0 : ℚ) = M * 2 ^ t from Option.some.inj hnumber, powerBound, not_le]
      positivity
    | infinity | notANumber => cases hnumber
  rcases hpack with ⟨hover, hinfinite⟩ | ⟨hless, hsame⟩
  · have hlarge : overflowBound ≤ q := h.overflowBound_le_iff.2 hover
    exact ⟨.overflow (s := .positive) hlarge hinfinite, congrArg sign? hinfinite⟩
  · have hsmall : |q| < overflowBound := by
      rw [abs_of_nonneg hq, ← not_le, h.overflowBound_le_iff]
      exact hless
    have hnearest : ∀ {y : Float} {r : ℚ}, number? y.toModel.unpack = some r →
        |q - M * 2 ^ t| ≤ |q - r| ∧ (|q - M * 2 ^ t| = |q - r| → r = M * 2 ^ t ∨ Even M) :=
      fun hy => h.nearest (representable_of_number? (settled_unpack _) hy)
    refine ⟨.nearest hsmall ⟨(congrArg number? hsame).trans hnumber, fun hy => (hnearest hy).1,
      fun hy heq => ((hnearest hy).2 heq).imp_right fun hM => ?_⟩,
      (congrArg sign? hsame).trans hsign⟩
    rw [show (Float.ofModel (pack u)).toModel.unpack = u from hsame]
    exact heven hM

/-- **The rounding of the arithmetic is correct.**  `m` is the whole part of `x`, with as many
    bits as the size of `x * 2 ^ e` asks for. -/
theorem rounds_roundWithAccuracy {m : ℕ} {e : ℤ} {a : Accuracy} {x : ℚ}
    (h : StandsFor (.ofMantissaAndAccuracy m a) x)
    (he : e ≤ Format.binary64.targetExponent (totalExponent m e)) :
    Rounds .positive (x * 2 ^ e)
      (.ofModel (pack (UnpackedFloat.roundWithAccuracy .binary64 .positive m e a))) := by
  have hrounded := h.roundedAt he
  have hx : 0 ≤ x := h.mantissa_le.trans' (Nat.cast_nonneg _)
  exact (roundWithAccuracy_standsAt .positive (shiftToTargetExponent_eq he a) rfl
    hrounded.mantissa_le hrounded.least hrounded.le_mantissa).rounds hrounded (by positivity)

/-! ## Signs -/

theorem unpack_neg (x : Float) : (-x).toModel.unpack = x.toModel.unpack.neg := by
  show (pack x.toModel.unpack.neg).unpack = x.toModel.unpack.neg
  have hsettled : Settled x.toModel.unpack := settled_unpack _
  cases hx : x.toModel.unpack with
  | finite s m e hm =>
    rw [hx] at hsettled
    exact unpack_pack_finite (s := -s) hsettled (exponent_unpack_le hx)
  | infinity s | zero s => cases s <;> rfl
  | notANumber => rfl

theorem neg_neg_unpacked (u : UnpackedFloat) : u.neg.neg = u := by
  cases u with
  | infinity s | zero s | finite s => cases s <;> rfl
  | notANumber => rfl

theorem neg_lt_neg_iff {a b : Float} : -a < -b ↔ b < a := by
  rw [lt_iff, lt_iff, unpack_neg, unpack_neg, compare_neg_neg]

theorem neg_lt_iff {a b : Float} : -a < b ↔ -b < a := by
  rw [lt_iff, lt_iff, unpack_neg, unpack_neg, ← compare_neg_neg, neg_neg_unpacked]

theorem lt_neg_iff {a b : Float} : a < -b ↔ b < -a := by
  rw [lt_iff, lt_iff, unpack_neg, unpack_neg, ← compare_neg_neg, neg_neg_unpacked]

theorem signed_neg (s : UnpackedFloat.Sign) (q : ℚ) : signed (-s) q = -signed s q := by
  cases s with
  | positive => rfl
  | negative => exact (neg_neg q).symm

theorem number?_neg (u : UnpackedFloat) : number? u.neg = (number? u).map (-·) := by
  cases u with
  | finite s m e hm => exact congrArg some (signed_neg s _)
  | zero s => exact congrArg some neg_zero.symm
  | infinity s | notANumber => rfl

theorem evenMantissa_neg (u : UnpackedFloat) : EvenMantissa u.neg ↔ EvenMantissa u := by
  cases u <;> rfl

theorem NearestDouble.neg {q v : ℚ} {x : Float} (h : NearestDouble q x v) :
    NearestDouble (-q) (-x) (-v) := by
  have hnumber : ∀ {y : Float} {r : ℚ}, number? y.toModel.unpack = some r →
      number? (-y).toModel.unpack = some (-r) := by
    intro y r hy
    rw [unpack_neg, number?_neg, hy, Option.map_some]
  have hv : |-q - -v| = |q - v| := by rw [← abs_neg, neg_sub_neg, neg_sub]
  have hr : ∀ r : ℚ, |-q - r| = |q - -r| := fun r => by
    rw [← neg_add', abs_neg, sub_neg_eq_add]
  refine ⟨hnumber h.number, fun hy => ?_, fun hy heq => ?_⟩
  · rw [hv, hr]
    exact h.near (hnumber hy)
  · rw [hv, hr] at heq
    rw [unpack_neg, evenMantissa_neg]
    exact (h.even (hnumber hy) heq).imp_left neg_eq_iff_eq_neg.1

theorem CorrectlyRounded.neg {q : ℚ} {x : Float} (h : CorrectlyRounded q x) :
    CorrectlyRounded (-q) (-x) := by
  cases h with
  | nearest hsmall hnearest => exact .nearest (by rwa [abs_neg]) hnearest.neg
  | @overflow s hlarge hinfinite =>
    refine .overflow (s := -s) ?_ (by rw [unpack_neg, hinfinite]; rfl)
    cases s with
    | positive => simpa [signed] using hlarge
    | negative => exact hlarge

theorem Rounds.neg {s : UnpackedFloat.Sign} {size : ℚ} {x : Float} (h : Rounds s size x) :
    Rounds (-s) size (-x) := by
  refine ⟨?_, ?_⟩
  · rw [signed_neg]
    exact h.rounded.neg
  · have hsign := h.sign
    rw [unpack_neg]
    cases hx : x.toModel.unpack with
    | notANumber =>
      rw [hx] at hsign
      cases hsign
    | _ =>
      rw [hx] at hsign
      cases hsign
      rfl

theorem Rounds.withSign {size : ℚ} {x : Float} (h : Rounds .positive size x) (negative : Bool) :
    Rounds (if negative then .negative else .positive) size (if negative then -x else x) := by
  cases negative with
  | true => exact h.neg
  | false => exact h

end JetEnergy.Decimal
