import SwapRouting.Proofs.Decimal.Division
import SwapRouting.Proofs.Decimal.Quotient

/-! Which quotients of amounts are lost.

Two amounts too wide for decimals give up low bits together until the wider one has 96 binary digits. That
costs the quotient some precision, and all of it where the denominator has no digit left: where it is
shorter than the numerator by 96 binary digits. Then the quotient is above half of the range, but not
always above all of it. -/
namespace SwapRouting
set_option autoImplicit false

namespace Amount

/-! ## Binary digits -/

theorem lt_bitLength_iff {k n : Nat} : k < bitLength n ↔ 2 ^ k ≤ n := by
  rw [bitLength]
  split
  · next hzero =>
    rw [hzero]
    exact iff_of_false (Nat.not_lt_zero k) (Nat.not_le.2 (Nat.two_pow_pos k))
  · next hpos => rw [Nat.lt_succ_iff, Nat.le_log2 hpos]

theorem bitLength_le_iff {k n : Nat} : bitLength n ≤ k ↔ n < 2 ^ k := by
  rw [← Nat.not_lt, lt_bitLength_iff, Nat.not_le]

theorem lt_two_pow_bitLength (n : Nat) : n < 2 ^ bitLength n := bitLength_le_iff.1 (Nat.le_refl _)

theorem bitLength_mono : Monotone bitLength := fun _ n h =>
  bitLength_le_iff.2 (h.trans_lt (lt_two_pow_bitLength n))

theorem excessBits_eq (n m : Nat) : excessBits n m = max (bitLength n) (bitLength m) - 96 := by
  rw [excessBits, bitLength_mono.map_max]

theorem shiftRight_lt_of_bitLength_le {n k : Nat} (h : bitLength n ≤ 96 + k) :
    n >>> k < Decimal.bound := by
  rw [Nat.shiftRight_eq_div_pow]
  refine Nat.div_lt_of_lt_mul ?_
  rw [Nat.mul_comm]
  have hlt := bitLength_le_iff.1 h
  rwa [Nat.pow_add] at hlt

theorem shiftRight_eq_zero_iff {n k : Nat} : n >>> k = 0 ↔ bitLength n ≤ k := by
  rw [Nat.shiftRight_eq_div_pow, Nat.div_eq_zero_iff, bitLength_le_iff]
  have hpos := Nat.two_pow_pos k
  omega

/-! ## Which quotients are lost -/

section
variable {n m : Nat}

theorem ratio_isSome_of_shiftRight_ne_zero (h : m >>> excessBits n m ≠ 0) :
    ∃ d, ratio n m = some d := by
  have hexcess := excessBits_eq n m
  have hn : n >>> excessBits n m < Decimal.bound := shiftRight_lt_of_bitLength_le (by omega)
  have hm : m >>> excessBits n m < Decimal.bound := shiftRight_lt_of_bitLength_le (by omega)
  obtain ⟨a, ha, -⟩ := Decimal.make?_eq_some (c := (n >>> excessBits n m : Nat)) hn (Nat.zero_le _)
  obtain ⟨b, hb, -⟩ := Decimal.make?_eq_some (c := (m >>> excessBits n m : Nat)) hm (Nat.zero_le _)
  obtain ⟨-, hascale, -⟩ := Decimal.units_of_ofNat? ha
  obtain ⟨-, hbscale, hmantissa⟩ := Decimal.units_of_ofNat? hb
  obtain ⟨d, hd⟩ := Decimal.div?_isSome hascale hbscale (by omega)
  refine ⟨d, ?_⟩
  rw [ratio]
  split
  · next hzero =>
    rw [hzero, Nat.zero_shiftRight] at h
    exact absurd rfl h
  · simp only [if_neg h, Decimal.ofNat?, ha, hb]
    exact hd

/-- The quotient is lost with the denominator: where that has at least 96 binary digits less than the
numerator. -/
theorem ratio_eq_none_iff : ratio n m = none ↔ 0 < m ∧ bitLength m + 96 ≤ bitLength n := by
  have hexcess := excessBits_eq n m
  have hpos : 0 < bitLength m ↔ 0 < m := lt_bitLength_iff
  constructor
  · intro hnone
    have hlost : m >>> excessBits n m = 0 := by
      by_contra hkept
      obtain ⟨d, hd⟩ := ratio_isSome_of_shiftRight_ne_zero hkept
      rw [hnone] at hd
      cases hd
    have hm : 0 < m := by
      by_contra hzero
      rw [ratio, if_pos (by omega)] at hnone
      cases hnone
    have hbits := shiftRight_eq_zero_iff.1 hlost
    exact ⟨hm, by omega⟩
  · rintro ⟨hm, hbits⟩
    have hlost : m >>> excessBits n m = 0 := shiftRight_eq_zero_iff.2 (by omega)
    rw [ratio, if_neg hm.ne']
    exact if_pos hlost

theorem lt_of_ratio_eq_none (h : ratio n m = none) : 2 ^ 95 * m < n := by
  obtain ⟨-, hbits⟩ := ratio_eq_none_iff.1 h
  calc 2 ^ 95 * m < 2 ^ 95 * 2 ^ bitLength m :=
        Nat.mul_lt_mul_of_pos_left (lt_two_pow_bitLength m) (Nat.two_pow_pos 95)
    _ = 2 ^ (bitLength m + 95) := by rw [← Nat.pow_add, Nat.add_comm]
    _ ≤ n := lt_bitLength_iff.1 (by omega)

theorem bitLength_le_of_le_mul (h : n ≤ (2 ^ 96 - 1) * m) : bitLength n ≤ bitLength m + 96 := by
  refine bitLength_le_iff.2 ?_
  calc n ≤ (2 ^ 96 - 1) * m := h
    _ ≤ 2 ^ 96 * m := Nat.mul_le_mul_right m (by decide)
    _ < 2 ^ 96 * 2 ^ bitLength m :=
        Nat.mul_lt_mul_of_pos_left (lt_two_pow_bitLength m) (Nat.two_pow_pos 96)
    _ = 2 ^ (bitLength m + 96) := by rw [← Nat.pow_add, Nat.add_comm]

theorem ratio_isSome_of_le (h : n ≤ m) : ∃ d, ratio n m = some d := by
  cases hratio : ratio n m with
  | none =>
    have hlt := lt_of_ratio_eq_none hratio
    omega
  | some d => exact ⟨d, rfl⟩

end

theorem value_largest : Decimal.largest.value = (2 ^ 96 - 1 : Nat) := by
  have hone : ((tenPow Decimal.largest.scale : Nat) : ℚ) = 1 := Nat.cast_one
  rw [Decimal.value, hone, div_one]
  rfl

/-- A quotient is lost exactly where the numerator has at least 96 binary digits more than the denominator.
It is then above half of the range, and above all of it unless the lengths differ by just 96. A share is
never lost. -/
theorem ratio_lost_iff_wide (n m : Nat) :
    (ratio n m = none ↔ 0 < m ∧ bitLength m + 96 ≤ bitLength n) ∧
      (ratio n m = none → 2 ^ 95 < (n : ℚ) / m) ∧
      (bitLength n ≠ bitLength m + 96 → ratio n m = none → Decimal.largest.value < (n : ℚ) / m) ∧
      (n ≤ m → ∃ d, ratio n m = some d ∧ 0 ≤ d.value ∧ d.value ≤ 1) := by
  have hpos : ratio n m = none → (0 : ℚ) < m := fun h => Nat.cast_pos.2 (ratio_eq_none_iff.1 h).1
  refine ⟨ratio_eq_none_iff, ?_, ?_, ?_⟩
  · intro h
    rw [lt_div_iff₀ (hpos h)]
    exact_mod_cast lt_of_ratio_eq_none h
  · intro hbits h
    rw [value_largest, lt_div_iff₀ (hpos h), ← Nat.cast_mul, Nat.cast_lt]
    by_contra hle
    have hlength := bitLength_le_of_le_mul (Nat.not_lt.1 hle)
    have hwide := (ratio_eq_none_iff.1 h).2
    omega
  · intro hle
    obtain ⟨d, hd⟩ := ratio_isSome_of_le hle
    exact ⟨d, hd, (Decimal.value_nonneg_iff d).2 (ratio_nonneg hd),
      (Decimal.value_le_one_iff d).2 (ratio_le_one hle hd)⟩

/-- The widest amount by seven is out of range, and a share just below one is not. -/
theorem widest_lost :
    ratio (bound - 1) 7 = none ∧ bitLength (bound - 1) ≠ bitLength 7 + 96 ∧
      Decimal.largest.value < ((bound - 1 : Nat) : ℚ) / (7 : Nat) ∧
      ∃ d, ratio (bound - 2) (bound - 1) = some d ∧ 0 ≤ d.value ∧ d.value ≤ 1 := by
  have hlost : ratio (bound - 1) 7 = none := by decide +kernel
  have hbits : bitLength (bound - 1) ≠ bitLength 7 + 96 := by decide +kernel
  obtain ⟨-, -, hwide, -⟩ := ratio_lost_iff_wide (bound - 1) 7
  obtain ⟨-, -, -, hshare⟩ := ratio_lost_iff_wide (bound - 2) (bound - 1)
  exact ⟨hlost, hbits, hwide hbits hlost, hshare (by decide)⟩

/-- A third of this amount is in range, and is lost with the three. -/
theorem thirdOfWide_lost :
    180000000000000000000000000000 < bound ∧ ratio 180000000000000000000000000000 3 = none ∧
      ((180000000000000000000000000000 : Nat) : ℚ) / (3 : Nat) ≤ Decimal.largest.value := by
  refine ⟨by decide, by decide +kernel, ?_⟩
  rw [value_largest]
  norm_num

end Amount

end SwapRouting
