import EntityScript.Command.Assignment
import EntityScript.Proofs.Rounding

/-! Doubles that are integers: what the operations on doubles do with them, and how they are read back
as integers of 64 bits. -/
namespace EntityScript.Decimal

open Float.Model Float.Model.UnpackedFloat

/-- A double that is an integer. -/
def IsInt (x : Float) (n : Int) : Prop := Holds x.toModel.unpack n

theorem isInt_pack {u : UnpackedFloat} {n : Int} (h : Holds u n) : IsInt (.ofModel (.pack u)) n := by
  rw [IsInt, h.unpack_pack]
  exact h

/-- A 64-bit integer becomes the double nearest to it. -/
theorem isInt_ofInt64 (n : Int64) : IsInt (ofInt64 n) (nearest n.toInt) := by
  have := n.toInt_lt
  have := n.le_toInt
  exact isInt_pack (holds_normalize (by simp) (by omega) .positive)

/-! The fields of a double as its bits show them. -/

section Fields

variable {x : Float} {s : Sign} {m : Nat} {e : Int} {hPos : 0 < m}

theorem toNat_exponent (x : Float) : ((x.toBits >>> 52) &&& 0x7FF).toNat =
    (@unpackExponent .binary64 x.toModel.toBits.toBitVec).toNat := by
  have hMask : (0x7FF : UInt64).toNat = 2 ^ 11 - 1 := rfl
  rw [UInt64.toNat_and, hMask, Nat.and_two_pow_sub_one_eq_mod, UInt64.toNat_shiftRight,
    unpackExponent_def, BitVec.extractLsb'_toNat]
  rfl

theorem toNat_mantissa (x : Float) : (x.toBits &&& 0xFFFFFFFFFFFFF).toNat =
    (@unpackMantissa .binary64 x.toModel.toBits.toBitVec).toNat := by
  have hMask : (0xFFFFFFFFFFFFF : UInt64).toNat = 2 ^ 52 - 1 := rfl
  rw [UInt64.toNat_and, hMask, Nat.and_two_pow_sub_one_eq_mod, unpackMantissa_def,
    BitVec.extractLsb'_toNat]
  rfl

theorem isNegative_iff (x : Float) : isNegative x = true ↔
    @unpackSign .binary64 x.toModel.toBits.toBitVec = 1#1 := by
  have hBits : (x.toBits >>> 63).toNat =
      (@unpackSign .binary64 x.toModel.toBits.toBitVec).toNat := by
    have hLt := x.toBits.toNat_lt
    rw [UInt64.toNat_shiftRight, unpackSign_def, BitVec.extractLsb'_toNat]
    change x.toBits.toNat >>> 63 = x.toBits.toNat >>> 63 % 2 ^ 1
    simp only [Nat.shiftRight_eq_div_pow]
    omega
  rw [isNegative, beq_iff_eq, ← UInt64.toNat_inj, hBits, ← BitVec.toNat_inj]
  rfl

/-- The fields of a double whose mantissa has 53 bits. -/
theorem ofFloat_finite (h : x.toModel.unpack = .finite s m e hPos) (hLow : 2 ^ 52 ≤ m) :
    (Binary.ofFloat x).mant = m ∧ (Binary.ofFloat x).exp = e ∧
      (isNegative x = true ↔ s = .negative) := by
  rw [Float.Model.unpack, UnpackedFloat.unpack] at h
  simp only at h
  split_ifs at h with hTop hZero hNone hNormal
  · simp only [finite.injEq] at h
    have := (@unpackMantissa .binary64 x.toModel.toBits.toBitVec).isLt
    omega
  · simp only [finite.injEq] at h
    obtain ⟨hSign, hMant, hExp⟩ := h
    have hBits := (@unpackMantissa .binary64 x.toModel.toBits.toBitVec).isLt
    have hStored : (@unpackExponent .binary64 x.toModel.toBits.toBitVec).toNat ≠ 0 :=
      fun hZero => hNone (BitVec.eq_of_toNat_eq hZero)
    rw [BitVec.toNat_append, ← Nat.shiftLeft_add_eq_or_of_lt hBits, Nat.shiftLeft_eq] at hMant
    simp only [Binary.ofFloat, toNat_exponent, toNat_mantissa, if_neg hStored]
    refine ⟨?_, ?_, ?_⟩
    · rw [← hMant]
      rfl
    · rw [← hExp]
      simp [Format.exponentBias]
    · rw [isNegative_iff, ← hSign]
      rcases BitVec.eq_zero_or_eq_one (@unpackSign .binary64 x.toModel.toBits.toBitVec) with
        hBit | hBit <;> simp [Sign.ofBitVec, hBit]

/-- The fields of zero. -/
theorem ofFloat_zero (h : x.toModel.unpack = .zero s) :
    (Binary.ofFloat x).mant = 0 := by
  rw [Float.Model.unpack, UnpackedFloat.unpack] at h
  simp only at h
  split_ifs at h with hTop hZero hNone hNormal
  simp only [Binary.ofFloat, toNat_exponent, toNat_mantissa, hNone, hNormal]
  rfl

end Fields

theorem unpack_zero : (0 : Float).toModel.unpack = .zero .positive := rfl

theorem unpack_bound : (9223372036854775808 : Float).toModel.unpack =
    .finite .positive (2 ^ 52) 11 (by decide) := rfl

namespace IsInt

variable {x y : Float} {a b n : Int}

theorem neg (h : IsInt x n) : IsInt (-x) (-n) := isInt_pack (Holds.neg h)

theorem add (hx : IsInt x a) (hy : IsInt y b) (hSum : (a + b).natAbs < 2 ^ 200) :
    IsInt (x + y) (nearest (a + b)) := isInt_pack (Holds.add hx hy hSum)

theorem sub (hx : IsInt x a) (hy : IsInt y b) (hDiff : (a - b).natAbs < 2 ^ 200) :
    IsInt (x - y) (nearest (a - b)) := isInt_pack (Holds.sub hx hy hDiff)

theorem mul (hx : IsInt x a) (hy : IsInt y b) (hProd : (a * b).natAbs < 2 ^ 200) :
    IsInt (x * y) (nearest (a * b)) := isInt_pack (Holds.mul hx hy hProd)

/-- A double that is an integer becomes that integer, or the bound that it lies beyond. -/
theorem truncate_eq (h : IsInt x n) : truncate x = Int64.ofIntClamp n :=
  congrArg Int64.ofIntClamp (Holds.toInt_eq h _ _)

theorem isFinite (h : IsInt x n) : x.isFinite = true := Holds.isFinite h

theorem isNaN (h : IsInt x n) : x.isNaN = false := Holds.isNaN h

theorem isInf (h : IsInt x n) : x.isInf = false := Holds.isInf h

theorem beq_zero (h : IsInt x n) : (x == 0) = decide (n = 0) := Holds.beq_zero h .positive

/-- Comparing with `2 ^ 63` without the sign. -/
theorem abs_lt (h : IsInt x n) :
    decide (x.abs < 9223372036854775808) = decide (n.natAbs < 2 ^ 63) := by
  rw [← Holds.abs_lt h, ← h.abs.unpack_pack, ← unpack_bound]
  rw [Bool.eq_iff_iff, decide_eq_true_iff]
  exact decide_eq_true_iff

theorem isIntegral (h : IsInt x n) : isIntegral x = true := by
  have hFinite := h.isFinite
  rw [IsInt] at h
  generalize hu : x.toModel.unpack = u at h
  cases h with
  | zero s => simp [Decimal.isIntegral, hFinite, ofFloat_zero hu]
  | @finite s m e k hPos hLow hHigh hMin hMax hValue =>
      obtain ⟨hMant, hExp, -⟩ := ofFloat_finite hu hLow
      have hWhole : m % 2 ^ (-e).toNat = 0 := by
        have hScaled := scaled_nat hValue
        rcases Int.le_total 0 e with hUp | hDown
        · simp [Int.toNat_of_nonpos (Int.neg_nonpos_of_nonneg hUp), Nat.mod_one]
        · simp only [Int.toNat_of_nonpos hDown, Nat.pow_zero, Nat.mul_one] at hScaled
          rw [hScaled, Nat.mul_mod_left]
      simp [Decimal.isIntegral, hFinite, hMant, hExp, hWhole]

/-- The fields of a double that is an integer stand for its magnitude. -/
theorem magnitude (h : IsInt x n) :
    ((Binary.ofFloat x).mant : ℚ) * 2 ^ (Binary.ofFloat x).exp = n.natAbs := by
  rw [IsInt] at h
  generalize hu : x.toModel.unpack = u at h
  cases h with
  | zero s => simp [ofFloat_zero hu]
  | finite s hLow hHigh hMin hMax hValue =>
      obtain ⟨hMant, hExp, -⟩ := ofFloat_finite hu hLow
      rw [hMant, hExp, hValue, natAbs_apply]

theorem isNegative_eq (h : IsInt x n) (hn : n ≠ 0) : isNegative x = decide (n < 0) := by
  rw [IsInt] at h
  generalize hu : x.toModel.unpack = u at h
  cases h with
  | zero s => exact absurd rfl hn
  | @finite s m e k hPos hLow hHigh hMin hMax hValue =>
      obtain ⟨-, -, hSign⟩ := ofFloat_finite hu hLow
      rw [Bool.eq_iff_iff, hSign, decide_eq_true_iff]
      cases s
      · simp [Sign.apply] at hn ⊢
        omega
      · simp [Sign.apply]

theorem ofScaled {r k : Nat} {e : Int} (hValue : (r : ℚ) * 2 ^ e = k) (hk : k < 2 ^ 200) :
    IsInt (Decimal.ofScaled r e) (nearestNat k) := by
  rcases Nat.eq_zero_or_pos r with rfl | hPos
  · obtain rfl : k = 0 := by simpa using hValue.symm
    change Holds (0 : Float).toModel.unpack 0
    rw [unpack_zero]
    exact .zero .positive
  · rw [Decimal.ofScaled, if_neg hPos.ne']
    exact isInt_pack (holds_round .positive hPos hValue hk)

/-- The remainder of doubles that are integers is the remainder of the integers. -/
theorem remainder (hx : IsInt x a) (hy : IsInt y b) (hb : b ≠ 0)
    (hRem : (a.tmod b).natAbs < 2 ^ 200) :
    IsInt (Decimal.remainder x y) (nearest (a.tmod b)) := by
  have hNotZero : (y == 0) = false := by simp [hy.beq_zero, hb]
  simp only [Decimal.remainder, hx.isNaN, hx.isInf, hy.isNaN, hy.isInf, hNotZero, Bool.or_self,
    Bool.false_eq_true, if_false]
  generalize he : min (Binary.ofFloat x).exp (Binary.ofFloat y).exp = e
  have hLeft := (align_value (he ▸ min_le_left _ _)).trans hx.magnitude
  have hRight := (align_value (he ▸ min_le_right _ _)).trans hy.magnitude
  rw [Int.natAbs_tmod] at hRem
  have hMagnitude := IsInt.ofScaled (remainder_value hLeft hRight) hRem
  rw [nearest_tmod]
  rcases lt_trichotomy a 0 with hNeg | rfl | hPos
  · simpa [hx.isNegative_eq hNeg.ne, hNeg, Int.sign_eq_neg_one_of_neg hNeg] using hMagnitude.neg
  · have hZero : nearestNat 0 = 0 := rfl
    simp only [Int.natAbs_zero, Nat.zero_mod, hZero] at hMagnitude
    split_ifs
    · simpa using hMagnitude.neg
    · simpa using hMagnitude
  · simpa [hx.isNegative_eq hPos.ne', hPos.not_gt, Int.sign_eq_one_of_pos hPos] using hMagnitude

end IsInt

end EntityScript.Decimal
