import SwapRouting.Json.Value
import SwapRouting.Proofs.Decimal.Text
import SwapRouting.Proofs.Decimal.Units

/-! Natural numbers that are written in digits.

They are read back below any bound that they keep, and those of 64 bits also fit floating point, which a
reader may ask for before it knows what a number is read as. -/
namespace SwapRouting
set_option autoImplicit false

/-! ## Rounding that stays in range -/

namespace Double

/-- The lowest power of two that a quotient may be rounded to. -/
def lowestPower (num den : Nat) : Int :=
  max ((Nat.log2 num : Int) - (Nat.log2 den : Int) - 53) (-1074)

/-- The power of two that a quotient is rounded to. -/
def lastPower (num den : Nat) : Int :=
  if (scaled num den (lowestPower num den)).1 / (scaled num den (lowestPower num den)).2
      < 9007199254740992 then lowestPower num den
  else lowestPower num den + 1

/-- A quotient in multiples of a power of two. -/
def multiples (num den : Nat) (e : Int) : Nat := halfEven (scaled num den e).1 (scaled num den e).2

/-- A quotient rounded to a power of two; one bit is given up where the multiples need it. -/
def roundedTo (num den : Nat) (e : Int) : Double :=
  if multiples num den e = 9007199254740992 then ⟨4503599627370496, e + 1⟩
  else ⟨multiples num den e, e⟩

theorem nearest?_eq {num : Nat} (den : Nat) (hnum : num ≠ 0) :
    nearest? num den
      = if 971 < (roundedTo num den (lastPower num den)).exponent then none
        else some (roundedTo num den (lastPower num den)) := by
  rw [nearest?, if_neg hnum]
  rfl

theorem lastPower_le (num den : Nat) : lastPower num den ≤ lowestPower num den + 1 := by
  rw [lastPower]
  split <;> omega

theorem lowestPower_le (num den : Nat) : lowestPower num den ≤ lastPower num den := by
  rw [lastPower]
  split <;> omega

theorem exponent_roundedTo_le (num den : Nat) (e : Int) : (roundedTo num den e).exponent ≤ e + 1 := by
  rw [roundedTo]
  split
  · exact Int.le_refl _
  · show e ≤ e + 1
    omega

theorem mantissa_roundedTo_le (num den : Nat) (e : Int) :
    (roundedTo num den e).mantissa ≤ multiples num den e := by
  rw [roundedTo]
  split
  · next hcarry =>
    rw [hcarry]
    show 4503599627370496 ≤ 9007199254740992
    decide
  · exact Nat.le_refl _

/-- A quotient whose numerator is far from the largest double is rounded to some double. -/
theorem nearest?_of_log2_lt {num : Nat} (den : Nat) (hnum : num ≠ 0) (hlog : Nat.log2 num < 256) :
    nearest? num den = some (roundedTo num den (lastPower num den)) := by
  have hexponent := exponent_roundedTo_le num den (lastPower num den)
  have hlast := lastPower_le num den
  rw [lowestPower] at hlast
  rw [nearest?_eq den hnum, if_neg (by omega)]

theorem isSome_nearest? {num : Nat} (den : Nat) (h : num < 2 ^ 256) : (nearest? num den).isSome := by
  by_cases hnum : num = 0
  · rw [hnum]
    rfl
  · rw [nearest?_of_log2_lt den hnum ((Nat.log2_lt hnum).2 h)]
    rfl

theorem twoPow_pos (n : Nat) : 0 < twoPow n := Nat.pow_pos (by decide)

theorem twoPow_le {m n : Nat} (h : m ≤ n) : twoPow m ≤ twoPow n := Nat.pow_le_pow_right (by decide) h

/-- A whole number of 64 bits has no more multiples than 53 bits behind its point allow. -/
theorem multiples_one_le {n : Nat} (hn : n ≤ 2 ^ 64) {e : Int} (he : -53 ≤ e) :
    multiples n 1 e ≤ 2 ^ 64 * twoPow 53 := by
  unfold multiples scaled
  split
  · have hden : 0 < 1 * twoPow e.toNat := by simpa using twoPow_pos _
    have hle : halfEven n (1 * twoPow e.toNat) ≤ n := halfEven_le hden (Nat.le_mul_of_pos_right n hden)
    exact hle.trans (hn.trans (Nat.le_mul_of_pos_right _ (twoPow_pos 53)))
  · rw [halfEven_one]
    exact Nat.mul_le_mul hn (twoPow_le (by omega))

theorem fraction_roundedTo_lt {n : Nat} (hn : n ≠ 0) (hlt : n < 2 ^ 64) :
    (roundedTo n 1 (lastPower n 1)).fraction.1 < 2 ^ 200 := by
  have hlog : Nat.log2 n < 64 := (Nat.log2_lt hn).2 hlt
  have hone : Nat.log2 1 = 0 := by decide
  have hlast := lastPower_le n 1
  have hlow := lowestPower_le n 1
  rw [lowestPower, hone] at hlast hlow
  generalize lastPower n 1 = e at hlast hlow ⊢
  have hmantissa : (roundedTo n 1 e).mantissa ≤ 2 ^ 64 * twoPow 53 :=
    (mantissa_roundedTo_le n 1 e).trans (multiples_one_le hlt.le (by omega))
  have hexponent := exponent_roundedTo_le n 1 e
  unfold fraction
  split
  · calc
      (roundedTo n 1 e).mantissa * twoPow (roundedTo n 1 e).exponent.toNat
        ≤ 2 ^ 64 * twoPow 53 * twoPow 12 := Nat.mul_le_mul hmantissa (twoPow_le (by omega))
      _ < 2 ^ 200 := by decide
  · exact Nat.lt_of_le_of_lt hmantissa (by decide)

end Double

namespace Json.Number

/-! ## Natural numbers -/

theorem magnitude?_ofNat (n : Nat) : (ofNat n).magnitude? = some n := by
  show some (Nat.ofDigitChars 10 (Nat.toDigits 10 n) 0) = some n
  rw [Nat.ofDigitChars_ten_toDigits]

theorem below?_ofNat {n bound : Nat} (h : n < bound) : (ofNat n).below? bound = some n := by
  rw [below?, magnitude?_ofNat]
  exact if_pos h

/-- Digits of a number of 64 bits all fit the significand. -/
theorem gather_of_lt (ds : List Char) {m : Nat} (taken : Nat)
    (h : Nat.ofDigitChars 10 ds m < 18446744073709551616) :
    gather m taken ds = (Nat.ofDigitChars 10 ds m, taken + ds.length, []) := by
  induction ds generalizing m taken with
  | nil => rfl
  | cons c ds ih =>
    rw [Nat.ofDigitChars_cons] at h
    have hpart : 10 * m + (c.toNat - '0'.toNat) < 18446744073709551616 :=
      Nat.lt_of_le_of_lt (le_ofDigitChars ds _) h
    have hstep : gather m taken (c :: ds) = gather (10 * m + (c.toNat - '0'.toNat)) (taken + 1) ds :=
      if_pos hpart
    rw [hstep, ih _ h, Nat.ofDigitChars_cons, List.length_cons, Nat.add_assoc, Nat.add_comm 1]

theorem significand_ofNat {n : Nat} (h : n < 2 ^ 64) : (ofNat n).significand = (n, 0) := by
  have hdigits : Nat.ofDigitChars 10 (Nat.toDigits 10 n) 0 = n := Nat.ofDigitChars_ten_toDigits
  have hgather := gather_of_lt (Nat.toDigits 10 n) 0 (hdigits.trans_lt h)
  rw [hdigits] at hgather
  rw [significand, ofNat, hgather]
  rfl

def oneDouble : Double := ⟨4503599627370496, -52⟩

/-- A number without a power of ten is still multiplied by one and rounded again. -/
theorem raise?_zero (x : Double) : raise? x 0 = x.mul? oneDouble := by
  have hone : Double.nearest? (tenPow 0) 1 = some oneDouble := by decide
  have hpower : ¬(308 : Int) < 0 := by decide
  -- only what rounding gives for one matters here, not which digits it has
  generalize oneDouble = t at hone ⊢
  rw [raise?, if_pos (Int.le_refl 0), if_neg hpower, Int.toNat_zero, hone, Option.bind_some]

theorem double?_ofNat {n : Nat} (h : n < 2 ^ 64) :
    (ofNat n).double? = (Double.nearest? n 1).bind fun x => x.mul? oneDouble := by
  rw [double?, significand_ofNat h]
  simp only [power?, ofNat, Int.add_zero, raise?_zero]

theorem isSome_double?_ofNat {n : Nat} (h : n < 2 ^ 64) : (ofNat n).double?.isSome := by
  rw [double?_ofNat h]
  by_cases hn : n = 0
  · subst hn
    decide
  · have hlog : Nat.log2 n < 256 := (Nat.log2_lt hn).2 (h.trans (by decide))
    -- no exact bound is needed: every numerator stays far below the largest double
    have hfraction := Double.fraction_roundedTo_lt hn h
    rw [Double.nearest?_of_log2_lt 1 hn hlog, Option.bind_some, Double.mul?]
    refine Double.isSome_nearest? _ ?_
    calc
      (Double.roundedTo n 1 (Double.lastPower n 1)).fraction.1 * 4503599627370496
        < 2 ^ 200 * 4503599627370496 := Nat.mul_lt_mul_of_pos_right hfraction (by decide)
      _ < 2 ^ 256 := by decide

end Json.Number

end SwapRouting
