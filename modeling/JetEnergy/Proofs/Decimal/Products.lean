import Mathlib
import JetEnergy.Proofs.Decimal.Doubles

/-!
  Products of doubles.

  * `Settled`: a double stands at the exponent that its size asks for, so
    rounding leaves it alone.  `settled_unpack`: all doubles do.
  * `mul_one_eq`: a double times 1 is that double, whatever it is.
-/
namespace JetEnergy.Decimal

open Float.Model

/-- Whether a double stands at the exponent that its size asks for. -/
def Settled : UnpackedFloat → Prop
  | .finite _ m e _ => Format.binary64.targetExponent (totalExponent m e) = e
  | _ => True

theorem targetExponent_eq (m : Nat) (e : Int) :
    Format.binary64.targetExponent (totalExponent m e) = max (m.log2 + e - 52) (-1074) := by
  simp only [Format.targetExponent, Format.minExponent, Format.mantissaBits, totalExponent]
  omega

/-- The bit that is left out in 64 bits. -/
theorem toNat_append_mantissa (mantissa : BitVec 52) :
    (1#1 ++ mantissa).toNat = 2 ^ 52 + mantissa.toNat := by
  rw [BitVec.toNat_append, Nat.shiftLeft_eq, ← Nat.mul_one (2 ^ 52),
    Nat.two_pow_add_eq_or_of_lt mantissa.isLt]
  rfl

/-- With the bit that is left out in 64 bits, a mantissa has 53 bits. -/
theorem log2_append_mantissa (mantissa : BitVec 52) : (1#1 ++ mantissa).toNat.log2 = 52 := by
  have hlt := mantissa.isLt
  rw [toNat_append_mantissa, Nat.log2_eq_iff (by omega)]
  omega

theorem settled_unpack (b : BitVec Format.binary64.numBits) :
    Settled (UnpackedFloat.unpack .binary64 b) := by
  have hbias : Format.binary64.exponentBias = 1023 := rfl
  fun_cases UnpackedFloat.unpack with
  | case4 mantissa exponent e _ s _ hzero hm =>
    -- a mantissa of fewer bits stands at the least exponent there is
    have hlog : mantissa.toNat.log2 < 52 :=
      (Nat.log2_lt fun h => hm (BitVec.eq_of_toNat_eq h)).2 mantissa.isLt
    have he : e = (0 : Nat) - (Format.binary64.exponentBias + 52) :=
      congrArg (fun v : BitVec 11 => (v.toNat : Int) - (Format.binary64.exponentBias + 52)) hzero
    rw [Settled, targetExponent_eq]
    omega
  | case5 mantissa exponent e _ s _ hzero =>
    have hpos : exponent.toNat ≠ 0 := fun h => hzero (BitVec.eq_of_toNat_eq h)
    have he : e = exponent.toNat - (Format.binary64.exponentBias + 52) := rfl
    rw [Settled, targetExponent_eq, log2_append_mantissa]
    omega
  | _ => trivial

/-! ## Zeros at the end of a mantissa -/

theorem log2_zeros {m : Nat} (hm : 0 < m) (n : Nat) : (m * 2 ^ n).log2 = m.log2 + n := by
  induction n with
  | zero => rw [Nat.pow_zero, Nat.mul_one, Nat.add_zero]
  | succ n ih =>
    have hne : m * 2 ^ n ≠ 0 := Nat.mul_ne_zero (Nat.ne_of_gt hm) (Nat.two_pow_pos n).ne'
    rw [Nat.pow_succ', Nat.mul_left_comm, Nat.log2_two_mul hne, ih, Nat.add_assoc]

/-- Nothing is lost when zeros are shifted out. -/
theorem shiftRight_zeros (m n : Nat) :
    (⟨m * 2 ^ n, false, false⟩ : UnpackedFloat.ExtendedMantissa) >>> n = ⟨m, false, false⟩ := by
  induction n generalizing m with
  | zero => rw [Nat.pow_zero, Nat.mul_one]; rfl
  | succ n ih =>
    rw [Nat.pow_succ', ← Nat.mul_assoc]
    refine (congrArg UnpackedFloat.ExtendedMantissa.shiftRightOne (ih (m * 2))).trans ?_
    simp [UnpackedFloat.ExtendedMantissa.shiftRightOne]

section
variable {m : Nat} {e : Int} (hm : 0 < m)
  (h : Format.binary64.targetExponent (totalExponent m e) = e)
include hm h

theorem shiftToTargetExponent_zeros (n : Nat) :
    UnpackedFloat.shiftToTargetExponent .binary64 (m * 2 ^ n) (e - n) .exact =
      (⟨m, false, false⟩, e) := by
  have htotal : totalExponent (m * 2 ^ n) (e - n) = totalExponent m e := by
    rw [totalExponent, totalExponent, log2_zeros hm]
    omega
  rw [UnpackedFloat.shiftToTargetExponent, UnpackedFloat.shiftToExponent, htotal, h]
  simp only [sub_sub_cancel, Int.toNat_natCast, sub_add_cancel]
  exact congrArg (·, e) (shiftRight_zeros m n)

theorem roundWithAccuracy_zeros (s : UnpackedFloat.Sign) (n : Nat) :
    UnpackedFloat.roundWithAccuracy .binary64 s (m * 2 ^ n) (e - n) .exact = .finite s m e hm := by
  have hagain : UnpackedFloat.shiftToTargetExponent .binary64 m e .exact =
      (⟨m, false, false⟩, e) := by
    simpa using shiftToTargetExponent_zeros hm h 0
  rw [UnpackedFloat.roundWithAccuracy, shiftToTargetExponent_zeros hm h n]
  dsimp only [UnpackedFloat.ExtendedMantissa.roundedMantissa,
    UnpackedFloat.ExtendedMantissa.accuracy, UnpackedFloat.Accuracy.roundToNearestEven]
  rw [hagain, dif_neg (Nat.ne_of_gt hm)]

end

/-! ## Products with 1 -/

theorem unpack_one : (1 : Float).toModel.unpack = .finite .positive (2 ^ 52) (-52) (by decide) :=
  rfl

theorem mul_unpack_one {a : UnpackedFloat} (h : Settled a) :
    UnpackedFloat.mul .binary64 a (1 : Float).toModel.unpack = a := by
  rw [unpack_one]
  cases a with
  | finite s m e hm =>
    have hsign : s * .positive = s := by cases s <;> rfl
    rw [UnpackedFloat.mul, hsign]
    exact roundWithAccuracy_zeros hm h s 52
  | notANumber => rfl
  | infinity s | zero s => cases s <;> rfl

/-- **A double times 1 is that double.** -/
theorem mul_one_eq (x : Float) : x * 1 = x := by
  have hbits : UnpackedFloat.pack .binary64 x.toModel.unpack = x.toModel.toBits.toBitVec :=
    UnpackedFloat.pack_unpack_of_valid x.toModel.valid
  have hmodel : x.toModel * (1 : Float).toModel = pack x.toModel.unpack :=
    congrArg pack (mul_unpack_one (settled_unpack x.toModel.toBits.toBitVec))
  rw [← Float.toBits_inj]
  show (x.toModel * (1 : Float).toModel).toBits = x.toModel.toBits
  rw [hmodel]
  exact congrArg UInt64.ofBitVec hbits

end JetEnergy.Decimal
