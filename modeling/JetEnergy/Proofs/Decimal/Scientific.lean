import Mathlib
import JetEnergy.Proofs.Decimal.Rounding

/-!
  Numerals as doubles.

  * `rounds_mul` and `rounds_div`: a product with enough bits and any quotient are correctly
    rounded.
  * `unpack_powerOfTen`: the powers of ten up to `10 ^ 22` are doubles.
  * `rounds_ofScientific`: digits with a power of ten, read either way, are correctly rounded.
  * `Numeral.rounds_toFloat`: so is every numeral, with its sign.
-/
namespace JetEnergy.Decimal

open Float.Model

/-! ## Products and quotients -/

section
variable {m₁ m₂ : ℕ} {e₁ e₂ : ℤ} (h₁ : 0 < m₁) (h₂ : 0 < m₂)

/-- A product of 53 bits or more is correctly rounded. -/
theorem rounds_mul (h : 2 ^ 52 ≤ m₁ * m₂) :
    Rounds .positive (m₁ * 2 ^ e₁ * (m₂ * 2 ^ e₂)) (.ofModel (pack (UnpackedFloat.mul .binary64
      (.finite .positive m₁ e₁ h₁) (.finite .positive m₂ e₂ h₂)))) := by
  have hlog : 52 ≤ (m₁ * m₂).log2 := (Nat.le_log2 (Nat.mul_pos h₁ h₂).ne').2 h
  have hrounds := rounds_roundWithAccuracy (e := e₁ + e₂) (standsFor_exact (m₁ * m₂))
    (by rw [targetExponent_eq]; omega)
  have hvalue : ((m₁ * m₂ : ℕ) : ℚ) * 2 ^ (e₁ + e₂) = m₁ * 2 ^ e₁ * (m₂ * 2 ^ e₂) := by
    rw [zpow_add₀ two_ne_zero]
    push_cast
    ring
  rw [hvalue] at hrounds
  exact hrounds

/-- A quotient is taken with so many bits more that there are 53 of them, or that it is at
    the least exponent there is. -/
theorem divCore_eq (m₁ m₂ : ℕ) (e₁ e₂ : ℤ) : ∃ n : ℕ,
    UnpackedFloat.divCore .binary64 m₁ e₁ m₂ e₂ = (m₁ * 2 ^ n / m₂, e₁ - e₂ - n,
      UnpackedFloat.accuracyOfFraction (m₁ * 2 ^ n % m₂) m₂) ∧
    (e₁ - e₂ - n ≤ -1074 ∨ m₂.log2 + 53 ≤ m₁.log2 + n) := by
  have htarget : Format.binary64.targetExponent (totalExponent m₁ e₁ - totalExponent m₂ e₂) =
      max (m₁.log2 + e₁ - (m₂.log2 + e₂) - 53) (-1074) := by
    simp only [Format.targetExponent, Format.minExponent, Format.mantissaBits, totalExponent]
    omega
  obtain ⟨n, hn⟩ := Int.le.dest (min_le_left (e₁ - e₂)
    (max (m₁.log2 + e₁ - (m₂.log2 + e₂) - 53) (-1074)))
  refine ⟨n, ?_, by omega⟩
  rw [UnpackedFloat.divCore, htarget,
    show (e₁ - e₂ - min (e₁ - e₂) (max (m₁.log2 + e₁ - (m₂.log2 + e₂) - 53) (-1074))).toNat = n
    by omega, show min (e₁ - e₂) (max (m₁.log2 + e₁ - (m₂.log2 + e₂) - 53) (-1074)) = e₁ - e₂ - n
    by omega, Nat.shiftLeft_eq]

/-- A quotient is correctly rounded. -/
theorem rounds_div :
    Rounds .positive (m₁ * 2 ^ e₁ / (m₂ * 2 ^ e₂)) (.ofModel (pack (UnpackedFloat.div .binary64
      (.finite .positive m₁ e₁ h₁) (.finite .positive m₂ e₂ h₂)))) := by
  obtain ⟨n, hcore, hbits⟩ := divCore_eq m₁ m₂ e₁ e₂
  have hsize : e₁ - e₂ - n ≤ Format.binary64.targetExponent
      (totalExponent (m₁ * 2 ^ n / m₂) (e₁ - e₂ - n)) := by
    rw [targetExponent_eq]
    rcases hbits with hleast | hbits
    · omega
    · have hquotient : 2 ^ 52 ≤ m₁ * 2 ^ n / m₂ := by
        rw [Nat.le_div_iff_mul_le h₂]
        calc 2 ^ 52 * m₂ ≤ 2 ^ 52 * 2 ^ (m₂.log2 + 1) := by gcongr; exact Nat.lt_log2_self.le
          _ ≤ 2 ^ m₁.log2 * 2 ^ n := by
            rw [← pow_add, ← pow_add]
            exact Nat.pow_le_pow_right two_pos (by omega)
          _ ≤ m₁ * 2 ^ n := by gcongr; exact Nat.log2_self_le h₁.ne'
      have := (Nat.le_log2 (by omega)).2 hquotient
      omega
  have hvalue : ((m₁ * 2 ^ n : ℕ) : ℚ) / m₂ * 2 ^ (e₁ - e₂ - n) =
      m₁ * 2 ^ e₁ / (m₂ * 2 ^ e₂) := by
    rw [zpow_sub₀ two_ne_zero, zpow_sub₀ two_ne_zero, zpow_natCast]
    push_cast
    field_simp
  have hrounds := rounds_roundWithAccuracy (standsFor_quotient (m₁ * 2 ^ n) h₂) hsize
  rw [hvalue] at hrounds
  rw [UnpackedFloat.div, hcore]
  exact hrounds

end
/-! ## Whole numbers and powers of ten -/

/-- A whole number of at most 53 bits is filled up with zeros. -/
theorem unpack_toFloat {m : ℕ} (hpos : 0 < m) (h : m < 2 ^ 53) : ∃ m' e' hm',
    m.toUInt64.toFloat.toModel.unpack = .finite .positive m' e' hm' ∧ 2 ^ 52 ≤ m' ∧
      (m' : ℚ) * 2 ^ e' = m := by
  have hlog := (Nat.log2_lt hpos.ne').2 h
  have hlog' : (m * 2 ^ (52 - m.log2)).log2 = 52 := by
    rw [log2_zeros hpos]
    omega
  have hm : 0 < m * 2 ^ (52 - m.log2) := Nat.mul_pos hpos (Nat.two_pow_pos _)
  have hsettled : Settled (.finite .positive (m * 2 ^ (52 - m.log2)) (m.log2 - 52) hm) := by
    rw [Settled, targetExponent_eq, hlog']
    omega
  have hround : UnpackedFloat.ofNat .binary64 m =
      .finite .positive (m * 2 ^ (52 - m.log2)) (m.log2 - 52) hm := by
    have hexact := roundWithAccuracy_zeros hm hsettled .positive 0
    rw [pow_zero, mul_one, Nat.cast_zero, sub_zero] at hexact
    rw [UnpackedFloat.ofNat, UnpackedFloat.ofInt, UnpackedFloat.normalize,
      Int.compare_eq_gt.2 (by omega)]
    simp only [UnpackedFloat.round, UnpackedFloat.decreaseExponent, Int.toNat_natCast,
      targetExponent_eq, Nat.shiftLeft_eq]
    rw [show (0 - max ((m.log2 : ℤ) + 0 - 52) (-1074)).toNat = 52 - m.log2 by omega,
      show (0 - ((52 - m.log2 : ℕ) : ℤ)) = m.log2 - 52 by omega, hexact]
  have hword : m.toUInt64.toNat = m := Nat.mod_eq_of_lt (by omega)
  refine ⟨_, m.log2 - 52, hm, ?_, (Nat.le_log2 hm.ne').1 hlog'.ge, ?_⟩
  · show (pack (UnpackedFloat.ofNat .binary64 m.toUInt64.toNat)).unpack = _
    rw [hword, hround]
    exact unpack_pack_finite hsettled (by omega)
  · rw [Nat.cast_mul, Nat.cast_pow, Nat.cast_ofNat, mul_assoc, ← zpow_natCast,
      ← zpow_add₀ two_ne_zero, show ((52 - m.log2 : ℕ) : ℤ) + (m.log2 - 52) = 0 by omega,
      zpow_zero, mul_one]

/-- Whether a double is `10 ^ i`. -/
def isPowerOfTen (i : ℕ) : UnpackedFloat → Bool
  | .finite .positive m e _ => m * 2 ^ e.toNat = 10 ^ i * 2 ^ (-e).toNat
  | _ => false

theorem isPowerOfTen_all : ∀ (i : ℕ) (h : i < Float.exactlyRepresentablePowersOfTen.size),
    isPowerOfTen i Float.exactlyRepresentablePowersOfTen[i].toModel.unpack = true := by
  decide +kernel

theorem eq_of_isPowerOfTen {i : ℕ} {u : UnpackedFloat} (h : isPowerOfTen i u = true) :
    ∃ m e hm, u = .finite .positive m e hm ∧ (m : ℚ) * 2 ^ e = 10 ^ i := by
  unfold isPowerOfTen at h
  split at h
  · next m e hm =>
    refine ⟨m, e, hm, rfl, ?_⟩
    have heq : (m : ℚ) * 2 ^ e.toNat = 10 ^ i * 2 ^ (-e).toNat := by
      exact_mod_cast of_decide_eq_true h
    have hexponent : (2 : ℚ) ^ e = 2 ^ e.toNat / 2 ^ (-e).toNat := by
      rw [← zpow_natCast, ← zpow_natCast, ← zpow_sub₀ two_ne_zero]
      congr 1
      omega
    rw [hexponent, ← mul_div_assoc, heq, mul_div_cancel_right₀ _ (by positivity)]
  · cases h

theorem unpack_powerOfTen {i : ℕ} (h : i < Float.exactlyRepresentablePowersOfTen.size) :
    ∃ m e hm, Float.exactlyRepresentablePowersOfTen[i].toModel.unpack =
      .finite .positive m e hm ∧ (m : ℚ) * 2 ^ e = 10 ^ i :=
  eq_of_isPowerOfTen (isPowerOfTen_all i h)

/-! ## Digits with a power of ten -/

/-- What is less than half the least double is rounded to zero. -/
theorem rounds_small {q : ℚ} (hq : 0 ≤ q) (h : q < 2 ^ (-1075 : ℤ)) :
    Rounds .positive q (.ofModel (pack (.zero .positive))) := by
  have hhalf : q / 2 ^ (-1074 : ℤ) < 1 / 2 := by
    rw [div_lt_iff₀ (by positivity)]
    refine h.trans_eq ?_
    rw [show (-1075 : ℤ) = -1 + -1074 by norm_num, zpow_add₀ two_ne_zero]
    norm_num
  have habs : |q / 2 ^ (-1074 : ℤ) - (0 : ℕ)| = q / 2 ^ (-1074 : ℤ) := by
    rw [Nat.cast_zero, sub_zero, abs_of_nonneg (by positivity)]
  have hzero : StandsAt (.zero .positive) .positive 0 (-1074) :=
    ⟨trivial, rfl, congrArg some (by simp [signed]), fun _ => trivial⟩
  refine hzero.rounds ⟨le_rfl, hhalf.trans (by norm_num), Or.inl rfl, ?_, fun _ => Even.zero⟩ hq
  exact habs.trans_le hhalf.le

theorem rounds_large {q : ℚ} (h : overflowBound ≤ q) :
    Rounds .positive q (.ofModel (pack (.infinity .positive))) :=
  ⟨.overflow (s := .positive) h rfl, rfl⟩

/-- The powers of ten that are not written out, for they are too large. -/
theorem overflowBound_le_scientific {m : ℕ} (hm : m ≠ 0) {e : ℤ} (he : 2048 < e) :
    overflowBound ≤ m * 10 ^ e := by
  have hone : (1 : ℚ) ≤ m := by exact_mod_cast Nat.one_le_iff_ne_zero.2 hm
  calc overflowBound ≤ 2 ^ (53 : ℤ) * 2 ^ (971 : ℤ) := by
        rw [overflowBound]
        gcongr
        norm_num
    _ = 2 ^ (53 + 971 : ℤ) := (zpow_add₀ two_ne_zero ..).symm
    _ ≤ 2 ^ e := zpow_le_zpow_right₀ one_le_two (by omega)
    _ ≤ 10 ^ e := zpow_le_zpow_left₀ (by omega) zero_le_two (by norm_num)
    _ ≤ m * 10 ^ e := le_mul_of_one_le_left (by positivity) hone

/-- The powers of ten that are not written out, for they are too small. -/
theorem scientific_lt {m : ℕ} {e : ℤ} (he : e < -(2048 + m.log2)) :
    (m : ℚ) * 10 ^ e < 2 ^ (-1075 : ℤ) := by
  have hten : (10 : ℚ) ^ e ≤ 2 ^ e := by
    obtain ⟨n, rfl⟩ : ∃ n : ℕ, e = -n := ⟨(-e).toNat, by omega⟩
    rw [zpow_neg, zpow_neg, zpow_natCast, zpow_natCast]
    exact inv_anti₀ (by positivity) (pow_le_pow_left₀ zero_le_two (by norm_num) n)
  have hm : (m : ℚ) < 2 ^ ((m.log2 + 1 : ℕ) : ℤ) := by
    rw [zpow_natCast]
    exact_mod_cast Nat.lt_log2_self
  calc (m : ℚ) * 10 ^ e ≤ m * 2 ^ e := by gcongr
    _ < 2 ^ ((m.log2 + 1 : ℕ) : ℤ) * 2 ^ e := mul_lt_mul_of_pos_right hm (by positivity)
    _ = 2 ^ (((m.log2 + 1 : ℕ) : ℤ) + e) := (zpow_add₀ two_ne_zero ..).symm
    _ ≤ 2 ^ (-1075 : ℤ) := zpow_le_zpow_right₀ one_le_two (by omega)

theorem rounds_unpacked_ofScientific (m : ℕ) (e : ℤ) : Rounds .positive (m * 10 ^ e)
    (.ofModel (pack (UnpackedFloat.ofScientific .binary64 m e))) := by
  unfold UnpackedFloat.ofScientific
  split_ifs with hzero hlarge hsmall hwhole
  · rw [hzero, Nat.cast_zero, zero_mul]
    exact rounds_small le_rfl (by positivity)
  · exact rounds_large (overflowBound_le_scientific hzero hlarge)
  · exact rounds_small (by positivity) (scientific_lt hsmall)
  · obtain ⟨k, rfl⟩ := Int.eq_ofNat_of_zero_le hwhole
    have hbits : 2 ^ 52 ≤ m <<< 53 * 10 ^ k := by
      rw [Nat.shiftLeft_eq]
      calc 2 ^ 52 ≤ 1 * 2 ^ 53 * 1 := by norm_num
        _ ≤ m * 2 ^ 53 * 10 ^ k := by
          gcongr
          · exact Nat.one_le_iff_ne_zero.2 hzero
          · exact Nat.one_le_pow _ _ (by norm_num)
    have hvalue : ((m <<< 53 : ℕ) : ℚ) * 2 ^ (-53 : ℤ) * ((10 ^ k : ℕ) * 2 ^ (0 : ℤ)) =
        m * 10 ^ (k : ℤ) := by
      rw [Nat.shiftLeft_eq, zpow_zero, zpow_natCast]
      push_cast
      norm_num
      ring
    have hrounds := @rounds_mul (m <<< 53) (10 ^ k) (-53) 0
      (by simpa [Nat.shiftLeft_pos_iff] using Nat.pos_of_ne_zero hzero) (by positivity) hbits
    rw [hvalue] at hrounds
    exact hrounds
  · obtain ⟨k, rfl⟩ : ∃ k : ℕ, e = -k := ⟨(-e).toNat, by omega⟩
    have hvalue : (m : ℚ) * 2 ^ (0 : ℤ) / ((10 ^ k : ℕ) * 2 ^ (0 : ℤ)) = m * 10 ^ (-(k : ℤ)) := by
      rw [zpow_zero, mul_one, mul_one, zpow_neg, zpow_natCast]
      push_cast
      rfl
    have hrounds := @rounds_div m (10 ^ k) 0 0 (Nat.pos_of_ne_zero hzero) (by positivity)
    rw [hvalue] at hrounds
    simp only [neg_neg, Int.toNat_natCast]
    exact hrounds

/-- **Digits with a power of ten are correctly rounded**, whichever way they are read. -/
theorem rounds_ofScientific (m : ℕ) (below : Bool) (e : ℕ) :
    Rounds .positive (m * 10 ^ (if below then -(e : ℤ) else e))
      (Float.ofScientific m below e) := by
  unfold Float.ofScientific
  by_cases h : m < 2 ^ 53 ∧ e ≤ 22
  · -- both are doubles, so one multiplication or division rounds once
    rw [dif_pos h]
    have hindex : e < Float.exactlyRepresentablePowersOfTen.size := Nat.lt_succ_of_le h.2
    obtain ⟨p, k, hp, hpower, hten⟩ := unpack_powerOfTen hindex
    obtain ⟨hmul, hdiv⟩ :
        Rounds .positive (m * 10 ^ e) (.ofModel (pack (UnpackedFloat.mul .binary64
          m.toUInt64.toFloat.toModel.unpack (.finite .positive p k hp)))) ∧
        Rounds .positive (m / 10 ^ e) (.ofModel (pack (UnpackedFloat.div .binary64
          m.toUInt64.toFloat.toModel.unpack (.finite .positive p k hp)))) := by
      rcases Nat.eq_zero_or_pos m with rfl | hpos
      · have hzero : (0 : ℕ).toUInt64.toFloat.toModel.unpack = .zero .positive := rfl
        rw [hzero, Nat.cast_zero, zero_mul, zero_div]
        exact ⟨rounds_small le_rfl (by positivity), rounds_small le_rfl (by positivity)⟩
      · obtain ⟨m', e', hm', hdigits, hbits, hvalue⟩ := unpack_toFloat hpos h.1
        rw [hdigits, ← hvalue, ← hten]
        exact ⟨rounds_mul hm' hp (hbits.trans (Nat.le_mul_of_pos_right _ hp)), rounds_div hm' hp⟩
    rw [← hpower] at hmul hdiv
    cases below with
    | true =>
      rw [if_pos rfl, zpow_neg, zpow_natCast, ← div_eq_mul_inv]
      exact hdiv
    | false =>
      rw [if_neg Bool.false_ne_true, zpow_natCast]
      exact hmul
  · rw [dif_neg h]
    have hrounds := rounds_unpacked_ofScientific m (if below then -(e : ℤ) else e)
    cases below with
    | true =>
      rw [if_pos rfl] at hrounds ⊢
      exact hrounds
    | false => exact hrounds

/-! ## Numerals -/

namespace Numeral

/-- The sign of a numeral. -/
def sign (n : Numeral) : UnpackedFloat.Sign :=
  if n.negative then .negative else .positive

/-- The number that a numeral is, without its sign. -/
def size (n : Numeral) : ℚ :=
  n.digits * 10 ^ (n.exponent - n.places)

/-- **The double of a numeral is its number, correctly rounded.** -/
theorem rounds_toFloat (n : Numeral) : Rounds n.sign n.size n.toFloat := by
  unfold toFloat sign size
  cases n.exponent - n.places with
  | ofNat e => exact (rounds_ofScientific n.digits false e).withSign n.negative
  | negSucc e => exact (rounds_ofScientific n.digits true (e + 1)).withSign n.negative

end Numeral

end JetEnergy.Decimal
