import Mathlib.Algebra.Order.Floor.Semifield
import Mathlib.Data.Rat.Floor
import SwapRouting.Amount
import SwapRouting.Proofs.Decimal.Units

/-! Fees taken from amounts.

Both ways of `mulFloor` give the whole part of the exact product, so a larger amount never leaves less.
For a larger amount the product may be out of range and the result missing, and for a still larger one it
may be there again. A share with at most 19 places leaves a result of every amount. -/
namespace SwapRouting
set_option autoImplicit false

namespace Amount

theorem checked_eq_some_iff {n m : Nat} : checked n = some m ↔ n = m ∧ n < bound := by
  unfold checked
  split
  · next h => simp [h]
  · next h => simp [h]

/-- Whole multiples of the divisor and the rest, multiplied apart. -/
theorem mul_div_eq_split (amount mantissa : Nat) {divisor : Nat} (hpos : 0 < divisor) :
    amount * mantissa / divisor
      = amount / divisor * mantissa + amount % divisor * mantissa / divisor := by
  have hsplit : amount * mantissa
      = amount % divisor * mantissa + divisor * (amount / divisor * mantissa) := by
    rw [← Nat.mul_assoc, ← Nat.add_mul, Nat.mod_add_div]
  rw [hsplit, Nat.add_mul_div_left _ _ hpos, Nat.add_comm]

theorem eq_div_of_mulFloor_eq_some {amount n : Nat} {factor : Decimal}
    (h : mulFloor amount factor = some n) :
    n = amount * factor.normalize.mantissa / tenPow factor.normalize.scale := by
  unfold mulFloor at h
  split at h
  · cases h
  · simp only at h
    split at h
    · next product hproduct =>
      obtain ⟨rfl, -⟩ := checked_eq_some_iff.1 hproduct
      exact (Option.some.inj h).symm
    · obtain ⟨whole, hwhole, h⟩ := Option.bind_eq_some_iff.1 h
      obtain ⟨rest, hrest, h⟩ := Option.bind_eq_some_iff.1 h
      obtain ⟨rfl, -⟩ := checked_eq_some_iff.1 hwhole
      obtain ⟨rfl, -⟩ := checked_eq_some_iff.1 hrest
      obtain ⟨rfl, -⟩ := checked_eq_some_iff.1 h
      exact (mul_div_eq_split _ _ (tenPow_pos _)).symm

theorem mulFloor_le_mulFloor {a b m n : Nat} {factor : Decimal} (hle : a ≤ b)
    (ha : mulFloor a factor = some m) (hb : mulFloor b factor = some n) : m ≤ n := by
  rw [eq_div_of_mulFloor_eq_some ha, eq_div_of_mulFloor_eq_some hb]
  exact Nat.div_le_div_right (Nat.mul_le_mul_right _ hle)

theorem eq_zero_of_mulFloor_zero {n : Nat} {factor : Decimal} (h : mulFloor 0 factor = some n) :
    n = 0 := by
  have hdiv := eq_div_of_mulFloor_eq_some h
  rwa [Nat.zero_mul, Nat.zero_div] at hdiv

/-- The second way is open where the rest can be multiplied and the result is in range. -/
theorem mulFloor_isSome_iff {amount : Nat} {factor : Decimal} :
    (∃ n, mulFloor amount factor = some n) ↔ factor.isNegative = false ∧
      (amount * factor.normalize.mantissa < bound ∨
        amount % tenPow factor.normalize.scale * factor.normalize.mantissa < bound ∧
          amount * factor.normalize.mantissa / tenPow factor.normalize.scale < bound) := by
  have hpos := tenPow_pos factor.normalize.scale
  have hsplit := mul_div_eq_split amount factor.normalize.mantissa hpos
  have hchecked : ∀ {n : Nat}, n < bound → checked n = some n :=
    fun h => checked_eq_some_iff.2 ⟨rfl, h⟩
  rw [mulFloor]
  by_cases hsign : factor.isNegative = true
  · simp [hsign]
  by_cases hproduct : amount * factor.normalize.mantissa < bound
  · simp [hsign, hchecked hproduct, hproduct]
  · have hnone : checked (amount * factor.normalize.mantissa) = none := if_neg hproduct
    simp only [hsign, hnone, hproduct, false_or, Bool.false_eq_true, if_false, true_and, eq_self]
    constructor
    · rintro ⟨n, h⟩
      obtain ⟨whole, hwhole, h⟩ := Option.bind_eq_some_iff.1 h
      obtain ⟨rest, hrest, h⟩ := Option.bind_eq_some_iff.1 h
      obtain ⟨rfl, -⟩ := checked_eq_some_iff.1 hwhole
      obtain ⟨rfl, hlt⟩ := checked_eq_some_iff.1 hrest
      exact ⟨hlt, hsplit ▸ (checked_eq_some_iff.1 h).2⟩
    · rintro ⟨hlt, htotal⟩
      rw [hsplit] at htotal
      have hwhole : amount / tenPow factor.normalize.scale * factor.normalize.mantissa < bound :=
        lt_of_le_of_lt (Nat.le_add_right _ _) htotal
      rw [hchecked hwhole, hchecked hlt]
      exact ⟨_, hchecked htotal⟩

/-- The whole part of the exact product, with the factor counted in units. -/
theorem eq_units_div_of_mulFloor_eq_some {amount n : Nat} {factor : Decimal}
    (h : mulFloor amount factor = some n) : n = amount * factor.units.toNat / Decimal.unit := by
  have hsign := (mulFloor_isSome_iff.1 ⟨n, h⟩).1
  have hnonneg : 0 ≤ factor.normalize.units := by
    rw [Decimal.units_normalize]
    exact (Decimal.units_nonneg_iff factor).2 hsign
  have hunits : factor.units.toNat
      = factor.normalize.mantissa * tenPow (Decimal.maxScale - factor.normalize.scale) := by
    rw [← Decimal.units_normalize, Decimal.units, Decimal.aligned,
      Int.toNat_mul (Decimal.coefficient_nonneg hnonneg) (Int.natCast_nonneg _), Int.toNat_natCast]
    have hmantissa := Int.natAbs_of_nonneg (Decimal.coefficient_nonneg hnonneg)
    rw [← hmantissa, Int.toNat_natCast]
    rfl
  rw [eq_div_of_mulFloor_eq_some h, hunits, Decimal.unit_eq,
    ← tenPow_sub_mul factor.normalize.scale_le, ← Nat.mul_assoc,
    Nat.mul_comm (tenPow (Decimal.maxScale - factor.normalize.scale)),
    Nat.mul_div_mul_right _ _ (tenPow_pos _)]

/-- The rest of an amount can be multiplied by every share with at most 19 places. -/
theorem rest_lt_bound {factor : Decimal} (hnonneg : 0 ≤ factor.units)
    (hunit : factor.units ≤ Decimal.unit) (hscale : factor.normalize.scale ≤ 19) (amount : Nat) :
    amount % tenPow factor.normalize.scale * factor.normalize.mantissa < bound := by
  have hmantissa : factor.normalize.mantissa ≤ tenPow factor.normalize.scale :=
    Decimal.mantissa_le (by rw [Decimal.units_normalize]; exact hnonneg)
      (by rw [Decimal.units_normalize]; exact hunit)
  have hplaces : tenPow factor.normalize.scale ≤ tenPow 19 :=
    Nat.pow_le_pow_right (by decide) hscale
  calc amount % tenPow factor.normalize.scale * factor.normalize.mantissa
      ≤ tenPow factor.normalize.scale * tenPow factor.normalize.scale :=
        Nat.mul_le_mul (Nat.mod_lt amount (tenPow_pos _)).le hmantissa
    _ ≤ tenPow 19 * tenPow 19 := Nat.mul_le_mul hplaces hplaces
    _ < bound := by decide

/-- With at most 19 places the rest never leaves the range, so a share that is left of one amount is left
of every smaller one. -/
theorem mulFloor_isSome_of_le {a b : Nat} {factor : Decimal} (hle : a ≤ b)
    (hunit : factor.units ≤ Decimal.unit) (hscale : factor.scale ≤ 19)
    (hb : ∃ n, mulFloor b factor = some n) : ∃ n, mulFloor a factor = some n := by
  obtain ⟨hsign, hrange⟩ := mulFloor_isSome_iff.1 hb
  refine mulFloor_isSome_iff.2 ⟨hsign, ?_⟩
  have hmul := Nat.mul_le_mul_right factor.normalize.mantissa hle
  rcases hrange with hproduct | ⟨-, htotal⟩
  · exact Or.inl (lt_of_le_of_lt hmul hproduct)
  · have hnonneg := (Decimal.units_nonneg_iff factor).2 hsign
    have hplaces : factor.normalize.scale ≤ 19 := (Decimal.stripZeros_scale_le _ _).trans hscale
    exact Or.inr ⟨rest_lt_bound hnonneg hunit hplaces a,
      lt_of_le_of_lt (Nat.div_le_div_right hmul) htotal⟩

/-! ## Exact shares -/

section
variable {amount : Nat} {factor : Decimal}

/-- The exact product as a quotient of whole numbers. -/
theorem mul_value_eq_div (hfactor : 0 ≤ factor.value) :
    (amount : ℚ) * factor.value
      = (amount * factor.normalize.mantissa : Nat) / (tenPow factor.normalize.scale : Nat) := by
  rw [← Decimal.value_normalize] at hfactor ⊢
  rw [Decimal.value_eq_mantissa_div hfactor, Nat.cast_mul, mul_div_assoc]

theorem eq_floor_of_mulFloor_eq_some {n : Nat} (hfactor : 0 ≤ factor.value)
    (h : mulFloor amount factor = some n) : n = ⌊(amount : ℚ) * factor.value⌋₊ := by
  rw [eq_div_of_mulFloor_eq_some h, mul_value_eq_div hfactor, Nat.floor_div_eq_div]

/-- A share is no larger than the amount, so it is in range, and so is what the second way multiplies. -/
theorem mulFloor_isSome_of_value_le_one (hamount : amount < bound) (hfactor : 0 ≤ factor.value)
    (hunit : factor.value ≤ 1) (hscale : factor.normalize.scale ≤ 19) :
    ∃ n, mulFloor amount factor = some n := by
  have hnonneg := (Decimal.value_nonneg_iff factor).1 hfactor
  have hrest := rest_lt_bound hnonneg ((Decimal.value_le_one_iff factor).1 hunit) hscale amount
  have htotal : amount * factor.normalize.mantissa / tenPow factor.normalize.scale ≤ amount := by
    rw [← Nat.floor_div_eq_div (K := ℚ), ← mul_value_eq_div hfactor]
    exact Nat.floor_le_of_le (mul_le_of_le_one_right (Nat.cast_nonneg amount) hunit)
  exact mulFloor_isSome_iff.2
    ⟨(Decimal.units_nonneg_iff factor).1 hnonneg, Or.inr ⟨hrest, htotal.trans_lt hamount⟩⟩

end

/-- Whatever is left of an amount is the whole part of the exact product, and of a share with at most 19
places something is left of every amount. -/
theorem wholePart_of_nonneg {amount : Nat} (hamount : amount < bound) {factor : Decimal}
    (hfactor : 0 ≤ factor.value) :
    (∀ n, mulFloor amount factor = some n → n = ⌊(amount : ℚ) * factor.value⌋₊) ∧
      (factor.value ≤ 1 → factor.normalize.scale ≤ 19 →
        mulFloor amount factor = some ⌊(amount : ℚ) * factor.value⌋₊) := by
  refine ⟨fun n h => eq_floor_of_mulFloor_eq_some hfactor h, fun hunit hscale => ?_⟩
  obtain ⟨n, hn⟩ := mulFloor_isSome_of_value_le_one hamount hfactor hunit hscale
  rw [hn, eq_floor_of_mulFloor_eq_some hfactor hn]

/-- Nineteen nines behind the point, and a zero. -/
def almostOne : Decimal where
  coefficient := 99999999999999999990
  scale := 20

/-- The largest amount times nineteen nines is out of range, and its whole part is found all the same. -/
theorem almostOne_wholePart :
    bound - 1 < bound ∧ 0 ≤ almostOne.value ∧ almostOne.value ≤ 1 ∧ almostOne.normalize.scale = 19 ∧
      bound ≤ (bound - 1) * almostOne.normalize.mantissa ∧
      mulFloor (bound - 1) almostOne = some 340282366920938463429346370739674365108 ∧
      ⌊((bound - 1 : Nat) : ℚ) * almostOne.value⌋₊ = 340282366920938463429346370739674365108 := by
  have hnonneg : 0 ≤ almostOne.value := (Decimal.value_nonneg_iff almostOne).2 (by decide +kernel)
  have hunit : almostOne.value ≤ 1 := (Decimal.value_le_one_iff almostOne).2 (by decide +kernel)
  have hscale : almostOne.normalize.scale = 19 := by decide +kernel
  have hshare : mulFloor (bound - 1) almostOne = some 340282366920938463429346370739674365108 := by
    decide +kernel
  have hamount : bound - 1 < bound := by decide
  have hfloor := (wholePart_of_nonneg hamount hnonneg).2 hunit hscale.le
  rw [hshare, Option.some.injEq] at hfloor
  exact ⟨hamount, hnonneg, hunit, hscale, by decide +kernel, hshare, hfloor.symm⟩

end Amount

end SwapRouting
