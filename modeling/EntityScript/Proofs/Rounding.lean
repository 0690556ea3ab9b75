import EntityScript.Value
import Mathlib

/-! Rounding to 53 bits, and what doubles that are integers hold. A double that holds an integer other
than zero has a mantissa of exactly 53 bits, so the integer determines it; adding, subtracting and
multiplying such doubles rounds the exact integer once. -/
namespace EntityScript.Decimal

open Float.Model Float.Model.UnpackedFloat

section Quotient

variable {a b c d : Nat}

theorem roundDiv_mul_right (hc : 0 < c) : roundDiv (a * c) (b * c) = roundDiv a b := by
  have hBelow : 2 * (a % b * c) < b * c ↔ 2 * (a % b) < b := by
    rw [← Nat.mul_assoc, Nat.mul_lt_mul_right hc]
  have hAbove : b * c < 2 * (a % b * c) ↔ b < 2 * (a % b) := by
    rw [← Nat.mul_assoc, Nat.mul_lt_mul_right hc]
  simp only [roundDiv, Nat.mul_div_mul_right _ _ hc, Nat.mul_mod_mul_right, hBelow, hAbove]

/-- Rounding a quotient depends on the quotient alone. -/
theorem roundDiv_congr (hb : 0 < b) (hd : 0 < d) (h : a * d = c * b) :
    roundDiv a b = roundDiv c d := by
  rw [← roundDiv_mul_right hd, h, Nat.mul_comm b d, roundDiv_mul_right hb]

theorem roundDiv_mul_self (hb : 0 < b) : roundDiv (a * b) b = a := by
  simp [roundDiv, Nat.mul_div_cancel _ hb, hb]

theorem roundDiv_one (a : Nat) : roundDiv a 1 = a := by
  simp [roundDiv, Nat.mod_one]

theorem le_roundDiv (hb : 0 < b) (h : c * b ≤ a) : c ≤ roundDiv a b := by
  have hQuotient : c ≤ a / b := (Nat.le_div_iff_mul_le hb).mpr h
  simp only [roundDiv]
  split_ifs <;> omega

theorem roundDiv_le (hb : 0 < b) (h : a ≤ c * b) : roundDiv a b ≤ c := by
  rcases Nat.lt_or_eq_of_le h with hLt | rfl
  · have hQuotient : a / b < c := (Nat.div_lt_iff_lt_mul hb).mpr hLt
    simp only [roundDiv]
    split_ifs <;> omega
  · rw [roundDiv_mul_self hb]

end Quotient

/-- The exponent of the last bit of a natural number that is rounded to 53 bits. -/
def lastBit (k : Nat) : Nat := k.log2 - 52

/-- A natural number rounded to 53 bits, to the even one of two equally near. -/
def nearestNat (k : Nat) : Nat := roundDiv k (2 ^ lastBit k) * 2 ^ lastBit k

/-- The double nearest to an integer, of two equally near the one with the even mantissa. -/
def nearest (n : Int) : Int := n.sign * nearestNat n.natAbs

theorem apply_neg (s : Sign) (n : Int) : (-s).apply n = -s.apply n := by
  cases s
  · exact (Int.neg_neg n).symm
  · rfl

theorem apply_mul (s s' : Sign) (k k' : Nat) :
    s.apply k * s'.apply k' = (s * s').apply (k * k' : Nat) := by
  rw [Nat.cast_mul]
  cases s
  · cases s'
    · exact neg_mul_neg _ _
    · exact neg_mul _ _
  · cases s'
    · exact mul_neg _ _
    · rfl

theorem natAbs_apply (s : Sign) (k : Nat) : (s.apply k).natAbs = k := by
  cases s <;> simp [Sign.apply]

theorem nearest_apply (s : Sign) (k : Nat) : nearest (s.apply k) = s.apply (nearestNat k) := by
  rcases Nat.eq_zero_or_pos k with rfl | hPos
  · cases s <;> rfl
  · have hOne : (k : Int).sign = 1 := Int.sign_eq_one_of_pos (by omega)
    cases s <;> simp [nearest, Sign.apply, hOne]

theorem nearest_tmod (a b : Int) :
    nearest (a.tmod b) = a.sign * nearestNat (a.natAbs % b.natAbs) := by
  rw [nearest, Int.sign_tmod, Int.natAbs_tmod]
  split_ifs with hDvd
  · rw [Nat.mod_eq_zero_of_dvd (Int.natAbs_dvd_natAbs.mpr hDvd)]
    exact (mul_zero _).symm
  · rfl

theorem natAbs_nearest (n : Int) : (nearest n).natAbs = nearestNat n.natAbs := by
  rcases eq_or_ne n 0 with rfl | hn
  · rfl
  · rw [nearest, Int.natAbs_mul, Int.natAbs_sign_of_ne_zero hn, one_mul, Int.natAbs_natCast]

/-- A natural number of at most 53 bits is not rounded. -/
theorem nearestNat_of_small {k : Nat} (h : k.log2 ≤ 52) : nearestNat k = k := by
  have hZero : lastBit k = 0 := Nat.sub_eq_zero_of_le h
  simp [nearestNat, hZero, roundDiv_one]

/-- Rounding does not lead beyond a power of two. -/
theorem nearestNat_le_two_pow {k j : Nat} (h : k ≤ 2 ^ j) : nearestNat k ≤ 2 ^ j := by
  have hLast : lastBit k ≤ j := by
    have hLog : k.log2 < j + 1 := by
      rcases eq_or_ne k 0 with rfl | hk
      · simp
      · rw [Nat.log2_lt hk, Nat.pow_succ]
        have := Nat.two_pow_pos j
        omega
    rw [lastBit]
    omega
  have hSplit : 2 ^ j = 2 ^ (j - lastBit k) * 2 ^ lastBit k := by
    rw [← Nat.pow_add, Nat.sub_add_cancel hLast]
  rw [hSplit] at h ⊢
  exact Nat.mul_le_mul_right _ (roundDiv_le (Nat.two_pow_pos _) h)

theorem two_pow_le_nearestNat {k : Nat} (hk : k ≠ 0) : 2 ^ k.log2 ≤ nearestNat k := by
  rcases Nat.le_total k.log2 52 with hSmall | hBig
  · rw [nearestNat_of_small hSmall]
    exact Nat.log2_self_le hk
  · have hQuotient : 2 ^ 52 ≤ roundDiv k (2 ^ lastBit k) := by
      refine le_roundDiv (Nat.two_pow_pos _) ?_
      rw [← Nat.pow_add, lastBit, Nat.add_sub_cancel' hBig]
      exact Nat.log2_self_le hk
    calc 2 ^ k.log2 = 2 ^ 52 * 2 ^ lastBit k := by
          rw [← Nat.pow_add, lastBit, Nat.add_sub_cancel' hBig]
      _ ≤ nearestNat k := Nat.mul_le_mul_right _ hQuotient

theorem nearestNat_eq_zero_iff {k : Nat} : nearestNat k = 0 ↔ k = 0 := by
  constructor
  · intro hZero
    by_contra hk
    have := two_pow_le_nearestNat hk
    have := Nat.two_pow_pos k.log2
    omega
  · rintro rfl
    rfl

theorem nearest_eq_zero_iff {n : Int} : nearest n = 0 ↔ n = 0 := by
  rw [← Int.natAbs_eq_zero, natAbs_nearest, nearestNat_eq_zero_iff, Int.natAbs_eq_zero]

/-- What is rounded to another number is no multiple of that number. -/
theorem nearest_dvd_iff {n : Int} : nearest n ∣ n ↔ nearest n = n := by
  refine ⟨fun hDvd => ?_, fun hSame => hSame.symm ▸ dvd_rfl⟩
  rcases eq_or_ne n 0 with rfl | hn
  · rfl
  rw [← Int.natAbs_dvd_natAbs, natAbs_nearest] at hDvd
  obtain ⟨c, hc⟩ := hDvd
  -- The number is below twice what it is rounded to.
  have hLow := two_pow_le_nearestNat (Int.natAbs_ne_zero.mpr hn)
  have hHigh : n.natAbs < 2 ^ (n.natAbs.log2 + 1) := Nat.lt_log2_self
  have hTwice : nearestNat n.natAbs * c < nearestNat n.natAbs * 2 := by omega
  have hOnce : c = 1 := by
    have hBelow : c < 2 := Nat.lt_of_mul_lt_mul_left hTwice
    have hSome : c ≠ 0 := by
      rintro rfl
      omega
    omega
  rw [nearest, ← Nat.mul_one (nearestNat _), ← hOnce, ← hc, Int.sign_mul_natAbs]

/-- What a double holds that is an integer: zero, or 53 bits times a power of two. -/
inductive Holds : UnpackedFloat → Int → Prop where
  | zero (s : Sign) : Holds (.zero s) 0
  | finite (s : Sign) {m : Nat} {e : Int} {k : Nat} {hPos : 0 < m} (hLow : 2 ^ 52 ≤ m)
      (hHigh : m < 2 ^ 53) (hMin : -52 ≤ e) (hMax : e ≤ 971) (hValue : (m : ℚ) * 2 ^ e = k) :
      Holds (.finite s m e hPos) (s.apply k)

section Shift

variable {m k : Nat} {e : Int}

/-- Shifting out the low bits of a mantissa keeps what rounding needs to know of them. -/
theorem shift_exact (m k : Nat) :
    (⟨m, false, false⟩ : ExtendedMantissa) >>> k =
      if k = 0 then ⟨m, false, false⟩
      else ⟨m / 2 ^ k, m / 2 ^ (k - 1) % 2 != 0, m % 2 ^ (k - 1) != 0⟩ := by
  induction k with
  | zero => rfl
  | succ k ih =>
      change ExtendedMantissa.shiftRightOne ((⟨m, false, false⟩ : ExtendedMantissa) >>> k) = _
      rw [ih]
      cases k with
      | zero => simp [ExtendedMantissa.shiftRightOne, Nat.mod_one]
      | succ j =>
          have hLow : m % 2 ^ (j + 1) = m % 2 ^ j + 2 ^ j * (m / 2 ^ j % 2) := by
            rw [Nat.pow_succ, Nat.mod_mul]
          simp only [ExtendedMantissa.shiftRightOne, Nat.add_eq_zero_iff, Nat.one_ne_zero, and_false,
            if_false, Nat.add_sub_cancel, ExtendedMantissa.mk.injEq, Nat.div_div_eq_div_mul,
            ← Nat.pow_succ, true_and, hLow]
          rcases Nat.mod_two_eq_zero_or_one (m / 2 ^ j) with hBit | hBit <;> simp [hBit]

theorem shift_mantissa (m k : Nat) :
    ((⟨m, false, false⟩ : ExtendedMantissa) >>> k).mantissa = m / 2 ^ k := by
  rw [shift_exact]
  split_ifs with h
  · simp [h]
  · rfl

/-- Rounding a mantissa after a shift is rounding a quotient. -/
theorem roundedMantissa_shift (m k : Nat) :
    ((⟨m, false, false⟩ : ExtendedMantissa) >>> k).roundedMantissa = roundDiv m (2 ^ k) := by
  rw [shift_exact]
  cases k with
  | zero => simp [ExtendedMantissa.roundedMantissa, ExtendedMantissa.accuracy,
      Accuracy.roundToNearestEven, roundDiv_one]
  | succ k =>
      have hLow : m % 2 ^ (k + 1) = m % 2 ^ k + 2 ^ k * (m / 2 ^ k % 2) := by
        rw [Nat.pow_succ, Nat.mod_mul]
      have hRest : m % 2 ^ k < 2 ^ k := Nat.mod_lt _ (Nat.two_pow_pos k)
      simp only [Nat.add_eq_zero_iff, Nat.one_ne_zero, and_false, if_false, Nat.add_sub_cancel,
        ExtendedMantissa.roundedMantissa, roundDiv, Nat.pow_succ]
      by_cases hSticky : m % 2 ^ k = 0
      · rcases Nat.mod_two_eq_zero_or_one (m / 2 ^ k) with hBit | hBit <;>
          simp [ExtendedMantissa.accuracy, Accuracy.roundToNearestEven, hBit] <;> grind
      · rcases Nat.mod_two_eq_zero_or_one (m / 2 ^ k) with hBit | hBit <;>
          simp [ExtendedMantissa.accuracy, Accuracy.roundToNearestEven, hBit] <;> grind

theorem targetExponent_of_log2 {l : Nat} (hLog : m.log2 = l) (hMin : -1074 ≤ (l : Int) + e - 52) :
    Format.binary64.targetExponent (totalExponent m e) = l + e - 52 := by
  simp only [Format.targetExponent, totalExponent, Format.mantissaBits, Format.minExponent, hLog]
  norm_num
  omega

theorem shiftToTargetExponent_exact {l : Nat} (hLog : m.log2 = l) (hl : 52 ≤ l)
    (hMin : -1074 ≤ (l : Int) + e - 52) :
    shiftToTargetExponent .binary64 m e .exact =
      ((⟨m, false, false⟩ : ExtendedMantissa) >>> (l - 52), e + (l - 52 : Nat)) := by
  have hShift : (l + e - 52 - e : Int).toNat = l - 52 := by omega
  simp only [shiftToTargetExponent, targetExponent_of_log2 hLog hMin, shiftToExponent, hShift,
    ExtendedMantissa.ofMantissaAndAccuracy]

theorem log2_eq (hLow : 2 ^ k ≤ m) (hHigh : m < 2 ^ (k + 1)) : m.log2 = k :=
  (Nat.log2_eq_iff (by have := Nat.two_pow_pos k; omega)).mpr ⟨hLow, hHigh⟩

/-- Rounding up can fill one bit more than there are; a second shift takes it away again. -/
theorem settled (hLow : 2 ^ 52 ≤ m) (hHigh : m ≤ 2 ^ 53) (hMin : -52 ≤ e) :
    let x := shiftToTargetExponent .binary64 m e .exact
    2 ^ 52 ≤ x.1.mantissa ∧ x.1.mantissa < 2 ^ 53 ∧ e ≤ x.2 ∧ x.2 ≤ e + 1 ∧
      (x.1.mantissa : ℚ) * 2 ^ x.2 = m * 2 ^ e := by
  rcases Nat.lt_or_eq_of_le hHigh with hFits | rfl
  · have hShift := shiftToTargetExponent_exact (e := e) (log2_eq hLow hFits) (le_refl 52) (by omega)
    simp only [hShift, shift_exact, Nat.sub_self, if_true, Nat.cast_zero, add_zero]
    exact ⟨hLow, hFits, le_refl e, by omega, True.intro⟩
  · have hShift :=
      shiftToTargetExponent_exact (m := 2 ^ 53) (e := e) Nat.log2_two_pow (by decide) (by omega)
    simp only [hShift, shift_exact]
    norm_num [zpow_add₀]
    linarith

end Shift

section Scaled

variable {m k : Nat} {e : Int}

/-- The binary logarithm of a scaled mantissa. -/
theorem log2_of_scaled (hm : 0 < m) (hValue : (m : ℚ) * 2 ^ e = k) :
    (k.log2 : Int) = m.log2 + e := by
  have hk : k ≠ 0 := by
    rintro rfl
    have : (0 : ℚ) < m * 2 ^ e := by positivity
    simp [hValue] at this
  have hLow : (2 : ℚ) ^ (m.log2 + e : Int) ≤ k := by
    rw [← hValue, zpow_add₀ two_ne_zero, zpow_natCast]
    gcongr
    exact_mod_cast Nat.log2_self_le hm.ne'
  have hHigh : (k : ℚ) < 2 ^ (m.log2 + 1 + e : Int) := by
    rw [← hValue, zpow_add₀ two_ne_zero]
    gcongr
    exact_mod_cast Nat.lt_log2_self
  have hLow' : (2 : ℚ) ^ (k.log2 : Int) ≤ k := by exact_mod_cast Nat.log2_self_le hk
  have hHigh' : (k : ℚ) < 2 ^ (k.log2 + 1 : Int) := by exact_mod_cast Nat.lt_log2_self
  have h₁ := (zpow_lt_zpow_iff_right₀ (one_lt_two (α := ℚ))).mp (hLow.trans_lt hHigh')
  have h₂ := (zpow_lt_zpow_iff_right₀ (one_lt_two (α := ℚ))).mp (hLow'.trans_lt hHigh)
  omega

/-- Rounding a scaled mantissa of at least 53 bits to 53 bits. -/
theorem roundDiv_scaled (hm : 2 ^ 52 ≤ m) (hValue : (m : ℚ) * 2 ^ e = k) :
    (roundDiv m (2 ^ (m.log2 - 52)) : ℚ) * 2 ^ (e + (m.log2 - 52 : Nat)) = nearestNat k := by
  have hLog : 52 ≤ m.log2 := (Nat.le_log2 (by omega)).mpr hm
  have hScale := log2_of_scaled (by omega) hValue
  by_cases hBig : 52 ≤ k.log2
  · have hExp : e + (m.log2 - 52 : Nat) = (lastBit k : Nat) := by
      simp only [lastBit]
      omega
    have hSame : m * 2 ^ lastBit k = k * 2 ^ (m.log2 - 52) := by
      have : (m : ℚ) * 2 ^ (lastBit k : Int) = k * 2 ^ ((m.log2 - 52 : Nat) : Int) := by
        rw [← hExp, ← hValue, zpow_add₀ two_ne_zero, mul_assoc]
      exact_mod_cast this
    rw [hExp, roundDiv_congr (Nat.two_pow_pos _) (Nat.two_pow_pos _) hSame, nearestNat]
    push_cast
    rw [zpow_natCast]
  · -- The number has fewer than 53 bits: what is rounded away is zero.
    obtain ⟨j, hj⟩ : ∃ j : Nat, e + (m.log2 - 52 : Nat) = -(j : Int) :=
      ⟨(-(e + (m.log2 - 52 : Nat))).toNat, by omega⟩
    have hSame : m = k * 2 ^ j * 2 ^ (m.log2 - 52) := by
      have : (m : ℚ) = k * 2 ^ (j : Int) * 2 ^ ((m.log2 - 52 : Nat) : Int) := by
        rw [← hValue, mul_assoc, mul_assoc, ← zpow_add₀ two_ne_zero, ← zpow_add₀ two_ne_zero,
          show e + ((j : Int) + (m.log2 - 52 : Nat)) = 0 by omega, zpow_zero, mul_one]
      exact_mod_cast this
    have hExact : nearestNat k = k := by
      have hZero : lastBit k = 0 := by
        simp only [lastBit]
        omega
      simp [nearestNat, hZero, roundDiv_one]
    rw [hExact, hj]
    generalize m.log2 - 52 = g at hSame
    rw [hSame, roundDiv_mul_self (Nat.two_pow_pos g), zpow_neg, zpow_natCast]
    push_cast
    field_simp

/-- Rounding a scaled mantissa of at least 53 bits that stands for a natural number. -/
theorem holds_roundWithAccuracy (s : Sign) (hm : 2 ^ 52 ≤ m) (hValue : (m : ℚ) * 2 ^ e = k)
    (hk : k < 2 ^ 200) :
    Holds (roundWithAccuracy .binary64 s m e .exact) (s.apply (nearestNat k)) := by
  have hScale := log2_of_scaled (by omega) hValue
  have hLog : 52 ≤ m.log2 := (Nat.le_log2 (by omega)).mpr hm
  have hBound : k.log2 < 200 := by
    rcases Nat.eq_zero_or_pos k with rfl | hPos
    · decide
    · exact (Nat.log2_lt hPos.ne').mpr hk
  have hLow : 2 ^ 52 ≤ roundDiv m (2 ^ (m.log2 - 52)) := by
    refine le_roundDiv (Nat.two_pow_pos _) ?_
    rw [← Nat.pow_add, Nat.add_sub_cancel' hLog]
    exact Nat.log2_self_le (by omega)
  have hHigh : roundDiv m (2 ^ (m.log2 - 52)) ≤ 2 ^ 53 := by
    refine roundDiv_le (Nat.two_pow_pos _) ?_
    rw [← Nat.pow_add, show 53 + (m.log2 - 52) = m.log2 + 1 by omega]
    exact Nat.lt_log2_self.le
  have hFirst := shiftToTargetExponent_exact (e := e) rfl hLog (by omega)
  obtain ⟨hLow, hHigh, hMin, hMax, hSettled⟩ :=
    settled (e := e + (m.log2 - 52 : Nat)) hLow hHigh (by omega)
  simp only [roundWithAccuracy, hFirst, roundedMantissa_shift]
  rw [dif_neg (by omega)]
  exact .finite s hLow hHigh (by omega) (by omega) (hSettled.trans (roundDiv_scaled hm hValue))

/-- Rounding a scaled mantissa that stands for a natural number. -/
theorem holds_round (s : Sign) (hm : 0 < m) (hValue : (m : ℚ) * 2 ^ e = k) (hk : k < 2 ^ 200) :
    Holds (UnpackedFloat.round .binary64 s m e) (s.apply (nearestNat k)) := by
  have hScale := log2_of_scaled hm hValue
  have hTarget := targetExponent_of_log2 (m := m) (e := e) rfl (by omega)
  simp only [UnpackedFloat.round, hTarget, decreaseExponent, Nat.shiftLeft_eq]
  generalize hj : (e - (m.log2 + e - 52) : Int).toNat = j
  refine holds_roundWithAccuracy s ?_ ?_ hk
  · refine le_trans (Nat.pow_le_pow_right (by decide) (show 52 ≤ m.log2 + j by omega)) ?_
    rw [Nat.pow_add]
    exact Nat.mul_le_mul_right _ (Nat.log2_self_le hm.ne')
  · rw [← hValue, zpow_sub₀ two_ne_zero, zpow_natCast]
    push_cast
    field_simp

/-- Rounding a scaled mantissa with its sign that stands for an integer. -/
theorem holds_normalize {m n : Int} (hValue : (m : ℚ) * 2 ^ e = n) (hn : n.natAbs < 2 ^ 200)
    (zero : Sign) : Holds (UnpackedFloat.normalize .binary64 m e zero) (nearest n) := by
  have hScale : (0 : ℚ) < 2 ^ e := by positivity
  have hAbs : (m.natAbs : ℚ) * 2 ^ e = n.natAbs := by
    rw [Nat.cast_natAbs, Nat.cast_natAbs, Int.cast_abs, Int.cast_abs, ← hValue, abs_mul,
      abs_of_pos hScale]
  rcases lt_trichotomy m 0 with hNeg | rfl | hPos
  · have hSign : n < 0 := by
      have : (n : ℚ) < 0 := hValue ▸ mul_neg_of_neg_of_pos (by exact_mod_cast hNeg) hScale
      exact_mod_cast this
    have hRound := holds_round .negative (m := m.natAbs) (by omega) hAbs hn
    have hMant : (-m).toNat = m.natAbs := by omega
    rw [UnpackedFloat.normalize, show compare m 0 = .lt from compare_lt_iff_lt.mpr hNeg]
    simpa [nearest, Int.sign_eq_neg_one_of_neg hSign, Sign.apply, hMant] using hRound
  · obtain rfl : n = 0 := by simpa using hValue.symm
    exact .zero zero
  · have hSign : 0 < n := by
      have : (0 : ℚ) < n := hValue ▸ mul_pos (by exact_mod_cast hPos) hScale
      exact_mod_cast this
    have hRound := holds_round .positive (m := m.natAbs) (by omega) hAbs hn
    have hMant : m.toNat = m.natAbs := by omega
    rw [UnpackedFloat.normalize, show compare m 0 = .gt from compare_gt_iff_gt.mpr hPos]
    simpa [nearest, Int.sign_eq_one_of_pos hSign, Sign.apply, hMant] using hRound

/-- Bringing a scaled mantissa to a smaller exponent. -/
theorem align_value {t : Int} (hLe : t ≤ e) :
    ((m * 2 ^ (e - t).toNat : Nat) : ℚ) * 2 ^ t = m * 2 ^ e := by
  obtain ⟨j, rfl⟩ := Int.le.dest hLe
  simp only [add_sub_cancel_left, Int.toNat_natCast]
  push_cast
  rw [zpow_add₀ two_ne_zero, zpow_natCast]
  ring

theorem decrease_value {t : Int} (hLe : t ≤ e) :
    ((decreaseExponent m e t).1 : ℚ) * 2 ^ t = m * 2 ^ e := by
  simpa only [decreaseExponent, Nat.shiftLeft_eq] using align_value hLe

/-- A scaled mantissa that stands for a natural number, without fractions. -/
theorem scaled_nat (hValue : (m : ℚ) * 2 ^ e = k) : m * 2 ^ e.toNat = k * 2 ^ (-e).toNat := by
  have hExp : e = e.toNat - (-e).toNat := by omega
  have : (m : ℚ) * 2 ^ e.toNat = k * 2 ^ (-e).toNat := by
    rw [← hValue]
    nth_rewrite 2 [hExp]
    rw [zpow_sub₀ two_ne_zero, zpow_natCast, zpow_natCast]
    field_simp
  exact_mod_cast this

/-- Remainders of scaled mantissas over one exponent are remainders of what they stand for. -/
theorem remainder_value {p q c d : Nat} (hLeft : (p : ℚ) * 2 ^ e = c) (hRight : (q : ℚ) * 2 ^ e = d) :
    ((p % q : Nat) : ℚ) * 2 ^ e = (c % d : Nat) := by
  have hScaled : p % q * 2 ^ e.toNat = c % d * 2 ^ (-e).toNat := by
    rw [← Nat.mul_mod_mul_right, ← Nat.mul_mod_mul_right, scaled_nat hLeft, scaled_nat hRight]
  have hCast : ((p % q : Nat) : ℚ) * 2 ^ e.toNat = (c % d : Nat) * 2 ^ (-e).toNat := by
    exact_mod_cast hScaled
  have hExp : e = e.toNat - (-e).toNat := by omega
  nth_rewrite 1 [hExp]
  rw [zpow_sub₀ two_ne_zero, zpow_natCast, zpow_natCast]
  field_simp
  linarith

theorem apply_scaled (s : Sign) {x : ℚ} (h : (m : ℚ) * x = k) :
    ((s.apply m : Int) : ℚ) * x = (s.apply k : Int) := by
  cases s <;> simp [Sign.apply, ← h]

end Scaled

namespace Holds

variable {u v : UnpackedFloat} {a b n : Int}

/-- Packing keeps what is held. -/
theorem unpack_pack (h : Holds u n) : (Float.Model.pack u).unpack = u := by
  cases h with
  | zero s => exact unpack_packedZero
  | @finite s m e k hPos hLow hHigh hMin hMax _ =>
      have hLog := log2_eq hLow hHigh
      have hBias : (e + (Format.binary64.exponentBias : Int) +
          (Format.binary64.mantissaBitsWithoutImplicit : Int)).toNat = (e + 1075).toNat := by
        simp [Format.exponentBias]
        omega
      have hBiased : ((e + 1075).toNat : Int) - ((Format.binary64.exponentBias : Int) +
          (Format.binary64.mantissaBitsWithoutImplicit : Int)) = e := by
        simp [Format.exponentBias]
        omega
      have hExp : (BitVec.ofNat 11 (e + 1075).toNat).toNat = (e + 1075).toNat := by
        simp only [BitVec.toNat_ofNat]
        omega
      have hNotTop : BitVec.ofNat 11 (e + 1075).toNat ≠ -1#11 := fun hTop => by
        have := congrArg BitVec.toNat hTop
        simp [hExp] at this
        omega
      have hNotZero : BitVec.ofNat 11 (e + 1075).toNat ≠ 0#11 := fun hZero => by
        have := congrArg BitVec.toNat hZero
        simp [hExp] at this
        omega
      have hMant : (1#1 ++ BitVec.ofNat 52 m).toNat = m := by
        rw [BitVec.toNat_append, ← Nat.shiftLeft_add_eq_or_of_lt (BitVec.ofNat 52 m).isLt]
        simp only [BitVec.toNat_ofNat, Nat.shiftLeft_eq]
        omega
      change UnpackedFloat.unpack .binary64 (UnpackedFloat.pack .binary64 _) = _
      rw [UnpackedFloat.pack]
      simp only [hLog, hBias]
      rw [if_neg (by omega), if_pos (by decide), UnpackedFloat.unpack]
      simp only [unpackMantissa_packComponents, unpackExponent_packComponents,
        unpackSign_packComponents, Sign.ofBitVec_toBitVec]
      rw [if_neg hNotTop, if_neg hNotZero]
      simp only [hMant, hExp, hBiased]

/-- What a double holds is not rounded again. -/
theorem nearest_eq (h : Holds u n) : nearest n = n := by
  cases h with
  | zero s => rfl
  | @finite s m e k hPos hLow hHigh hMin hMax hValue =>
      have hRounded := roundDiv_scaled hLow hValue
      rw [log2_eq hLow hHigh] at hRounded
      have hSame : nearestNat k = k := by
        have : (nearestNat k : ℚ) = k := by
          rw [← hRounded, ← hValue]
          simp [roundDiv_one]
        exact_mod_cast this
      rw [nearest_apply, hSame]

/-- Cutting off the fraction cuts off nothing. -/
theorem toInt_eq (h : Holds u n) (low high : Int) : u.toInt low high = n := by
  cases h with
  | zero s => rfl
  | @finite s m e k hPos hLow hHigh hMin hMax hValue =>
      have hWhole : m * 2 ^ e.toNat / 2 ^ (-e).toNat = k := by
        rw [scaled_nat hValue, Nat.mul_div_cancel _ (Nat.two_pow_pos _)]
      have hShift : (0 - (e - e.toNat) : Int).toNat = (-e).toNat := by omega
      simp only [toInt, roundToInt, decreaseExponent, shiftToExponent, Nat.shiftLeft_eq, sub_zero,
        ExtendedMantissa.ofMantissaAndAccuracy, shift_mantissa, hShift, hWhole]

theorem isFinite (h : Holds u n) : u.isFinite = true := by
  cases h <;> rfl

theorem isNaN (h : Holds u n) : u.isNaN = false := by
  cases h <;> rfl

theorem isInf (h : Holds u n) : u.isInf = false := by
  cases h <;> rfl

theorem beq_zero (h : Holds u n) (s₀ : Sign) : u.beq (.zero s₀) = decide (n = 0) := by
  cases h with
  | zero s => rfl
  | @finite s m e k hPos hLow hHigh hMin hMax hValue =>
      have hk : k ≠ 0 := by
        rintro rfl
        have : (0 : ℚ) < m * 2 ^ e := by positivity
        simp [hValue] at this
      cases s <;> simp [UnpackedFloat.beq, UnpackedFloat.compare, Sign.apply, hk]

/-- Without its sign, what is held stays below `2 ^ 63` exactly if the exponent says so. -/
theorem abs_lt (h : Holds u n) :
    u.abs.lt (.finite .positive (2 ^ 52) 11 (by decide)) = decide (n.natAbs < 2 ^ 63) := by
  cases h with
  | zero s => rfl
  | @finite s m e k hPos hLow hHigh hMin hMax hValue =>
      have hScale := log2_of_scaled hPos hValue
      rw [log2_eq hLow hHigh] at hScale
      have hBound : k < 2 ^ 63 ↔ e < 11 := by
        rcases Nat.eq_zero_or_pos k with rfl | hk
        · simp at hScale
          omega
        · rw [← Nat.log2_lt hk.ne']
          omega
      rw [natAbs_apply, decide_eq_decide.mpr hBound, UnpackedFloat.abs, UnpackedFloat.lt,
        UnpackedFloat.compare]
      rcases lt_trichotomy e 11 with hLess | rfl | hMore
      · rw [compare_lt_iff_lt.mpr hLess, decide_eq_true hLess]
        rfl
      · have hMant : compare m (2 ^ 52) ≠ .lt := fun hLess => by
          have := compare_lt_iff_lt.mp hLess
          omega
        simpa using hMant
      · rw [compare_gt_iff_gt.mpr hMore, decide_eq_false (by omega)]
        rfl

theorem neg (h : Holds u n) : Holds u.neg (-n) := by
  cases h with
  | zero s => exact .zero _
  | finite s hLow hHigh hMin hMax hValue =>
      rw [← apply_neg]
      exact .finite (-s) hLow hHigh hMin hMax hValue

theorem abs (h : Holds u n) : Holds u.abs n.natAbs := by
  cases h with
  | zero s => exact .zero _
  | finite s hLow hHigh hMin hMax hValue =>
      rw [natAbs_apply]
      exact .finite .positive hLow hHigh hMin hMax hValue

theorem add (hu : Holds u a) (hv : Holds v b) (hSum : (a + b).natAbs < 2 ^ 200) :
    Holds (UnpackedFloat.add .binary64 u v) (nearest (a + b)) := by
  cases hu with
  | zero s =>
      rw [zero_add, hv.nearest_eq]
      cases hv with
      | zero s' =>
          rw [UnpackedFloat.add]
          split_ifs
          · exact .zero _
          · exact .zero _
      | finite s' hLow hHigh hMin hMax hValue => exact .finite s' hLow hHigh hMin hMax hValue
  | @finite s m e k hPos hLow hHigh hMin hMax hValue =>
      cases hv with
      | zero s' =>
          have hu : Holds (.finite s m e hPos) (s.apply k) := .finite s hLow hHigh hMin hMax hValue
          rw [add_zero, hu.nearest_eq]
          exact hu
      | @finite s' m' e' k' hPos' hLow' hHigh' hMin' hMax' hValue' =>
          have hLeft := apply_scaled s ((decrease_value (min_le_left e e')).trans hValue)
          have hRight := apply_scaled s' ((decrease_value (min_le_right e e')).trans hValue')
          refine holds_normalize ?_ hSum .positive
          rw [Int.cast_add, Int.cast_add, add_mul]
          exact congrArg₂ (· + ·) hLeft hRight

theorem sub_eq_add_neg (u v : UnpackedFloat) :
    UnpackedFloat.sub .binary64 u v = UnpackedFloat.add .binary64 u v.neg := by
  cases u <;> cases v <;>
    simp [UnpackedFloat.sub, UnpackedFloat.add, UnpackedFloat.neg, apply_neg, Int.sub_eq_add_neg]

theorem sub (hu : Holds u a) (hv : Holds v b) (hDiff : (a - b).natAbs < 2 ^ 200) :
    Holds (UnpackedFloat.sub .binary64 u v) (nearest (a - b)) := by
  rw [sub_eq_add_neg]
  exact hu.add hv.neg hDiff

theorem mul (hu : Holds u a) (hv : Holds v b) (hProd : (a * b).natAbs < 2 ^ 200) :
    Holds (UnpackedFloat.mul .binary64 u v) (nearest (a * b)) := by
  cases hu with
  | zero s =>
      rw [zero_mul]
      cases hv with
      | zero s' => exact .zero _
      | finite s' => exact .zero _
  | @finite s m e k hPos hLow hHigh hMin hMax hValue =>
      cases hv with
      | zero s' =>
          rw [mul_zero]
          exact .zero _
      | @finite s' m' e' k' hPos' hLow' hHigh' hMin' hMax' hValue' =>
          rw [apply_mul, natAbs_apply] at hProd
          rw [apply_mul, nearest_apply]
          refine holds_roundWithAccuracy _ (by nlinarith) ?_ hProd
          push_cast
          rw [zpow_add₀ two_ne_zero, ← hValue, ← hValue']
          ring

end Holds

end EntityScript.Decimal
