import Mathlib.Tactic.Linarith
import Mathlib.Tactic.Ring
import SwapRouting.Decimal.Basic

/-! Decimals counted in units of their last possible place.

Every decimal is a whole number of units of ten to the minus 28. In these units sums are exact while they
stay below 2 ^ 96, products go to the nearest unit, and a sum of decimals that are not negative never
exceeds the sum of whole bounds on them. -/
namespace SwapRouting
set_option autoImplicit false

theorem tenPow_eq (n : Nat) : tenPow n = 10 ^ n := rfl

theorem tenPow_zero : tenPow 0 = 1 := rfl

theorem tenPow_pos (n : Nat) : 0 < tenPow n := Nat.pow_pos (by decide)

theorem tenPow_add (m n : Nat) : tenPow (m + n) = tenPow m * tenPow n := Nat.pow_add 10 m n

theorem tenPow_sub_mul {m n : Nat} (h : m ≤ n) : tenPow (n - m) * tenPow m = tenPow n := by
  rw [← tenPow_add, Nat.sub_add_cancel h]

/-! ## Halves to even -/

theorem halfEven_near {m p : Nat} (hp : 0 < p) :
    2 * (halfEven m p * p) ≤ 2 * m + p ∧ 2 * m ≤ 2 * (halfEven m p * p) + p := by
  have hsplit := Nat.div_add_mod m p
  have hlt := Nat.mod_lt m hp
  rw [Nat.mul_comm] at hsplit
  rw [halfEven]
  split
  · next hup =>
    rw [Nat.add_mul, Nat.one_mul]
    omega
  · next hup => omega

theorem halfEven_le {m n p : Nat} (hp : 0 < p) (h : m ≤ n * p) : halfEven m p ≤ n := by
  by_contra hlt
  have hnear := (halfEven_near (m := m) hp).1
  have hmul : (n + 1) * p ≤ halfEven m p * p := Nat.mul_le_mul_right p (by omega)
  rw [Nat.add_mul, Nat.one_mul] at hmul
  omega

theorem halfEven_one (m : Nat) : halfEven m 1 = m := by
  simp [halfEven, Nat.mod_one]

namespace Decimal

/-! ## Units -/

/-- The number one in units. -/
def unit : Nat := 10000000000000000000000000000

theorem unit_eq : unit = tenPow maxScale := rfl

theorem unit_cast : ((unit : Nat) : Int) = 10000000000000000000000000000 := rfl

/-- How many units of ten to the minus 28 a decimal is. -/
def units (a : Decimal) : Int := a.aligned maxScale

@[simp] theorem units_zero : zero.units = 0 := rfl

@[simp] theorem units_one : one.units = unit := rfl

theorem units_neg (a : Decimal) : a.neg.units = -a.units := by
  rw [units, aligned, units, aligned, neg, Int.neg_mul]

theorem isZero_iff (a : Decimal) : a.isZero = true ↔ a.coefficient = 0 := by
  rw [isZero, beq_iff_eq]

theorem units_of_isZero {a : Decimal} (h : a.isZero = true) : a.units = 0 := by
  rw [units, aligned, (isZero_iff a).1 h, Int.zero_mul]

/-- A coefficient with `s` places, in units. -/
theorem aligned_mul (a : Decimal) {s : Nat} (ha : a.scale ≤ s) (hs : s ≤ maxScale) :
    a.aligned s * (tenPow (maxScale - s) : Nat) = a.units := by
  have hsplit : tenPow (maxScale - a.scale) = tenPow (s - a.scale) * tenPow (maxScale - s) := by
    rw [← tenPow_add]
    congr 1
    omega
  rw [units, aligned, aligned, hsplit, Nat.cast_mul, mul_assoc]

theorem units_nonneg_iff (a : Decimal) : 0 ≤ a.units ↔ a.isNegative = false := by
  have hpos : (0 : Int) < (tenPow (maxScale - a.scale) : Nat) := by
    exact_mod_cast tenPow_pos _
  rw [isNegative, decide_eq_false_iff_not, Int.not_lt, units, aligned]
  constructor
  · intro h
    by_contra hlt
    have hneg := Int.mul_neg_of_neg_of_pos (Int.not_le.1 hlt) hpos
    omega
  · intro h
    exact Int.mul_nonneg h hpos.le

theorem make?_eq_some {c : Int} {s : Nat} (hc : c.natAbs < bound) (hs : s ≤ maxScale) :
    ∃ d, make? c s = some d ∧ d.coefficient = c ∧ d.scale = s :=
  ⟨⟨c, s, hc, hs⟩, dif_pos ⟨hc, hs⟩, rfl, rfl⟩

theorem units_of_make? {c : Int} {s : Nat} {d : Decimal} (h : make? c s = some d) :
    d.units = c * (tenPow (maxScale - s) : Nat) ∧ s ≤ maxScale := by
  rw [make?] at h
  split at h
  · next hin =>
    cases h
    exact ⟨rfl, hin.2⟩
  · cases h

/-! ## Fitting -/

theorem natAbs_signed (c : Int) (m : Nat) : (signed c m).natAbs = m := by
  rw [signed]
  split <;> omega

theorem signed_natAbs (c : Int) : signed c c.natAbs = c := by
  rw [signed]
  split <;> omega

theorem signed_nonneg {c : Int} (h : 0 ≤ c) (m : Nat) : signed c m = m := by
  rw [signed, if_neg (Int.not_lt.2 h)]

theorem surplus?_eq_some_iff {m s k : Nat} :
    surplus? m s = some k ↔ (s - maxScale ≤ k ∧ m / tenPow k < bound) ∧ k ≤ s ∧
      ∀ j < k, ¬(s - maxScale ≤ j ∧ m / tenPow j < bound) := by
  rw [surplus?, List.find?_range_eq_some]
  simp only [Bool.and_eq_true, decide_eq_true_eq, List.mem_range, Bool.not_eq_true',
    ← Bool.not_eq_true, Nat.lt_succ_iff]

theorem surplus?_isSome {m s k : Nat} (hk : k ≤ s) (hlow : s - maxScale ≤ k)
    (hm : m / tenPow k < bound) : ∃ j, surplus? m s = some j := by
  rw [← Option.isSome_iff_exists, surplus?, List.find?_isSome]
  refine ⟨k, List.mem_range.2 (Nat.lt_succ_of_le hk), ?_⟩
  rw [Bool.and_eq_true, decide_eq_true_eq, decide_eq_true_eq]
  exact ⟨hlow, hm⟩

theorem fit_of_surplus {c : Int} {s k : Nat} (h : surplus? c.natAbs s = some k) :
    fit c s = if halfEven c.natAbs (tenPow k) < bound then
        make? (signed c (halfEven c.natAbs (tenPow k))) (s - k)
      else if s - k < 1 then none
      else make? (signed c (halfEven (halfEven c.natAbs (tenPow k)) 10)) (s - (k + 1)) := by
  rw [fit, h]
  rfl

theorem fit_exact {c : Int} {s : Nat} (hc : c.natAbs < bound) (hs : s ≤ maxScale) :
    ∃ d, fit c s = some d ∧ d.coefficient = c ∧ d.scale = s := by
  have hsurplus : surplus? c.natAbs s = some 0 := by
    rw [surplus?_eq_some_iff]
    refine ⟨⟨by omega, ?_⟩, Nat.zero_le s, fun j hj => absurd hj (Nat.not_lt_zero j)⟩
    rw [tenPow_zero, Nat.div_one]
    exact hc
  rw [fit_of_surplus hsurplus, tenPow_zero, halfEven_one, if_pos hc, signed_natAbs]
  exact make?_eq_some hc hs

/-- Whether `n` units are nearest to `p` units of units. -/
def Nearest (n p : Int) : Prop := 2 * (n * unit) ≤ 2 * p + unit ∧ 2 * p ≤ 2 * (n * unit) + unit

theorem Nearest.le {n p m : Int} (h : Nearest n p) (hp : p ≤ m * unit) : n ≤ m := by
  have hnear := h.1
  rw [unit_cast] at hnear hp
  omega

theorem Nearest.ge {n p m : Int} (h : Nearest n p) (hp : m * unit ≤ p) : m ≤ n := by
  have hnear := h.2
  rw [unit_cast] at hnear hp
  omega

theorem Nearest.neg {n p : Int} (h : Nearest n p) : Nearest (-n) (-p) := by
  obtain ⟨hlow, hhigh⟩ := h
  rw [unit_cast] at hlow hhigh
  rw [Nearest, unit_cast]
  omega

theorem Nearest.add_left {n p : Int} (h : Nearest n p) (m : Int) :
    Nearest (m + n) (m * unit + p) := by
  obtain ⟨hlow, hhigh⟩ := h
  rw [Nearest, Int.add_mul]
  constructor <;> omega

theorem nearest_self (n : Int) : Nearest n (n * unit) := by
  rw [Nearest, unit_cast]
  omega

theorem nearest_halfEven (m : Nat) {p t : Nat} (hp : 0 < p) (hunit : p * t = unit) :
    Nearest (halfEven m p : Nat) (m * (t : Nat)) := by
  obtain ⟨hlow, hhigh⟩ := halfEven_near (m := m) hp
  have hq : halfEven m p * p * t = halfEven m p * unit := by rw [Nat.mul_assoc, hunit]
  have hlow' := Nat.mul_le_mul_right t hlow
  have hhigh' := Nat.mul_le_mul_right t hhigh
  rw [Nat.add_mul, Nat.mul_assoc, Nat.mul_assoc 2 m t, hq, hunit] at hlow'
  rw [Nat.add_mul, Nat.mul_assoc, Nat.mul_assoc 2 (halfEven m p * p) t, hq, hunit] at hhigh'
  exact ⟨by exact_mod_cast hlow', by exact_mod_cast hhigh'⟩

theorem nearest_signed {c : Int} {m : Nat} {t : Nat} (h : Nearest m (c.natAbs * (t : Nat))) :
    Nearest (signed c m) (c * (t : Nat)) := by
  rw [signed]
  split
  · next hneg =>
    have hc : c * (t : Nat) = -(c.natAbs * (t : Nat)) := by
      rw [← Int.neg_mul, Int.ofNat_natAbs_of_nonpos hneg.le, Int.neg_neg]
    rw [hc]
    exact h.neg
  · next hpos =>
    rw [Int.natAbs_of_nonneg (Int.not_lt.1 hpos)] at h
    exact h

/-- A coefficient with more than 28 places goes to the nearest unit. -/
theorem fit_nearest {c : Int} {s : Nat} (hc : c.natAbs ≤ 7 * tenPow s) (hs : s ≤ 2 * maxScale) :
    ∃ d, fit c s = some d ∧ Nearest d.units (c * (tenPow (2 * maxScale - s) : Nat)) := by
  have hseven : 7 * tenPow maxScale < bound := by decide
  by_cases hplaces : s ≤ maxScale
  · have hle : tenPow s ≤ tenPow maxScale := Nat.pow_le_pow_right (by decide) hplaces
    obtain ⟨d, hd, hcoefficient, hscale⟩ := fit_exact (c := c) (by omega) hplaces
    refine ⟨d, hd, ?_⟩
    have hsplit : 2 * maxScale - s = (maxScale - s) + maxScale := by omega
    have hunits : c * (tenPow (2 * maxScale - s) : Nat) = d.units * unit := by
      rw [hsplit, tenPow_add, Nat.cast_mul, ← Int.mul_assoc, units, aligned, hcoefficient, hscale,
        unit_eq]
    rw [hunits]
    exact nearest_self d.units
  · have hpow : tenPow (s - maxScale) * tenPow maxScale = tenPow s := tenPow_sub_mul (by omega)
    have hpos := tenPow_pos (s - maxScale)
    have hle : c.natAbs ≤ 7 * tenPow maxScale * tenPow (s - maxScale) := by
      rw [Nat.mul_assoc, Nat.mul_comm (tenPow maxScale), hpow]
      exact hc
    have hdiv : c.natAbs / tenPow (s - maxScale) ≤ 7 * tenPow maxScale :=
      Nat.div_le_of_le_mul (by rw [Nat.mul_comm]; exact hle)
    have hsurplus : surplus? c.natAbs s = some (s - maxScale) := by
      rw [surplus?_eq_some_iff]
      exact ⟨⟨Nat.le_refl _, by omega⟩, by omega, fun j hj hlow => by omega⟩
    have hround : halfEven c.natAbs (tenPow (s - maxScale)) ≤ 7 * tenPow maxScale :=
      halfEven_le hpos hle
    have hkeep : s - (s - maxScale) = maxScale := by omega
    rw [fit_of_surplus hsurplus, if_pos (by omega), hkeep]
    obtain ⟨d, hd, -⟩ := make?_eq_some
      (c := signed c (halfEven c.natAbs (tenPow (s - maxScale)))) (s := maxScale)
      (by rw [natAbs_signed]; omega) (Nat.le_refl _)
    refine ⟨d, hd, ?_⟩
    have hunits : d.units = signed c (halfEven c.natAbs (tenPow (s - maxScale))) := by
      rw [(units_of_make? hd).1, Nat.sub_self]
      exact Int.mul_one _
    rw [hunits]
    refine nearest_signed (nearest_halfEven _ hpos ?_)
    rw [← tenPow_add, unit_eq]
    congr 1
    omega

/-- A coefficient that is not negative never exceeds a whole bound by being fitted. -/
theorem fit_le {c : Int} {s n : Nat} (hpos : 0 ≤ c) (hs : s ≤ maxScale) (hn : n < bound)
    (hc : c ≤ (n * tenPow s : Nat)) :
    ∃ d, fit c s = some d ∧ 0 ≤ d.units ∧ d.units ≤ (n * unit : Nat) := by
  have hm : c.natAbs ≤ n * tenPow s := by omega
  obtain ⟨k, hk⟩ := surplus?_isSome (m := c.natAbs) (s := s) (k := s) (Nat.le_refl s) (by omega)
    (lt_of_le_of_lt (Nat.div_le_of_le_mul (by rw [Nat.mul_comm]; exact hm)) hn)
  obtain ⟨⟨-, hbound⟩, hks, -⟩ := surplus?_eq_some_iff.1 hk
  have hq : halfEven c.natAbs (tenPow k) ≤ n * tenPow (s - k) := by
    refine halfEven_le (tenPow_pos k) ?_
    rw [Nat.mul_assoc, tenPow_sub_mul hks]
    exact hm
  have hmade : ∀ q t, q < bound → t ≤ maxScale → q ≤ n * tenPow t →
      ∃ d, make? (signed c q) t = some d ∧ 0 ≤ d.units ∧ d.units ≤ (n * unit : Nat) := by
    intro q t hqb ht hle
    obtain ⟨d, hd, -⟩ := make?_eq_some (c := signed c q) (s := t)
      (by rw [natAbs_signed]; exact hqb) ht
    have hunits : d.units = (q * tenPow (maxScale - t) : Nat) := by
      rw [(units_of_make? hd).1, signed_nonneg hpos, Nat.cast_mul]
    refine ⟨d, hd, ?_, ?_⟩
    · rw [hunits]
      exact Int.natCast_nonneg _
    · rw [hunits]
      have hmul := Nat.mul_le_mul_right (tenPow (maxScale - t)) hle
      rw [Nat.mul_assoc, Nat.mul_comm (tenPow t), tenPow_sub_mul ht, ← unit_eq] at hmul
      exact_mod_cast hmul
  rw [fit_of_surplus hk]
  split
  · next hlt => exact hmade _ _ hlt (by omega) hq
  · next hge =>
    -- Rounding up may bring the coefficient out of range, and then one more place goes.
    have hplaces : ¬ s - k < 1 := by
      intro hnone
      have hzero : s - k = 0 := by omega
      rw [hzero, tenPow_zero, Nat.mul_one] at hq
      omega
    rw [if_neg hplaces]
    refine hmade _ _ ?_ (by omega) ?_
    · have hup : halfEven c.natAbs (tenPow k) ≤ bound := by
        rw [halfEven]
        split <;> omega
      have hten : halfEven (halfEven c.natAbs (tenPow k)) 10 ≤ bound / 10 + 1 :=
        halfEven_le (by decide) (hup.trans (by decide))
      exact lt_of_le_of_lt hten (by decide)
    · refine halfEven_le (by decide) ?_
      have hsplit : tenPow (s - k) = tenPow (s - (k + 1)) * 10 := by
        rw [tenPow_eq, tenPow_eq, ← Nat.pow_succ]
        congr 1
        omega
      rw [hsplit, ← Nat.mul_assoc] at hq
      exact hq

/-! ## Sum, difference and product -/

theorem aligned_sum (a b : Decimal) :
    (a.aligned (max a.scale b.scale) + b.aligned (max a.scale b.scale))
      * (tenPow (maxScale - max a.scale b.scale) : Nat) = a.units + b.units := by
  have ha := a.scale_le
  have hb := b.scale_le
  rw [Int.add_mul, aligned_mul a (Nat.le_max_left ..) (by omega),
    aligned_mul b (Nat.le_max_right ..) (by omega)]

theorem add?_exact {a b : Decimal} (h : (a.units + b.units).natAbs < bound) :
    ∃ d, a.add? b = some d ∧ d.units = a.units + b.units := by
  rw [add?]
  split
  · next hzero => exact ⟨b, rfl, by rw [units_of_isZero hzero, Int.zero_add]⟩
  · split
    · next hzero => exact ⟨a, rfl, by rw [units_of_isZero hzero, Int.add_zero]⟩
    · have hsum := aligned_sum a b
      have hscale : max a.scale b.scale ≤ maxScale := Nat.max_le.2 ⟨a.scale_le, b.scale_le⟩
      have hpos := tenPow_pos (maxScale - max a.scale b.scale)
      simp only
      rw [← hsum, Int.natAbs_mul, Int.natAbs_natCast] at h
      have hle := Nat.le_mul_of_pos_right
        (a.aligned (max a.scale b.scale) + b.aligned (max a.scale b.scale)).natAbs hpos
      obtain ⟨d, hd, hcoefficient, hs⟩ := fit_exact (lt_of_le_of_lt hle h) hscale
      refine ⟨d, hd, ?_⟩
      rw [units, aligned, hcoefficient, hs]
      exact hsum

theorem sub?_exact {a b : Decimal} (h : (a.units - b.units).natAbs < bound) :
    ∃ d, a.sub? b = some d ∧ d.units = a.units - b.units := by
  obtain ⟨d, hd, hunits⟩ := add?_exact (a := a) (b := b.neg) (by rw [units_neg]; exact h)
  exact ⟨d, hd, by rw [hunits, units_neg]; rfl⟩

theorem add?_le {a b : Decimal} {m n : Nat} (ha : 0 ≤ a.units) (hb : 0 ≤ b.units)
    (ham : a.units ≤ (m * unit : Nat)) (hbn : b.units ≤ (n * unit : Nat)) (h : m + n < bound) :
    ∃ d, a.add? b = some d ∧ 0 ≤ d.units ∧ d.units ≤ ((m + n) * unit : Nat) := by
  rw [add?]
  split
  · exact ⟨b, rfl, hb, hbn.trans (by rw [Nat.add_mul]; omega)⟩
  · split
    · exact ⟨a, rfl, ha, ham.trans (by rw [Nat.add_mul]; omega)⟩
    · have hsum := aligned_sum a b
      have hscale : max a.scale b.scale ≤ maxScale := Nat.max_le.2 ⟨a.scale_le, b.scale_le⟩
      have hpos : (0 : Int) < (tenPow (maxScale - max a.scale b.scale) : Nat) := by
        exact_mod_cast tenPow_pos _
      refine fit_le ?_ hscale h ?_
      · by_contra hneg
        have hprod := Int.mul_neg_of_neg_of_pos (Int.not_le.1 hneg) hpos
        omega
      · refine le_of_mul_le_mul_right ?_ hpos
        rw [hsum, ← Nat.cast_mul, Nat.mul_assoc, Nat.mul_comm (tenPow _), tenPow_sub_mul hscale,
          ← unit_eq, Nat.add_mul]
        omega

/-- Products of factors that are not too large go to the nearest unit. -/
theorem mul?_nearest {a b : Decimal} (h : (a.units * b.units).natAbs ≤ 7 * (unit * unit)) :
    ∃ d, a.mul? b = some d ∧ Nearest d.units (a.units * b.units) := by
  have ha := a.scale_le
  have hb := b.scale_le
  have hprod : a.units * b.units
      = a.coefficient * b.coefficient * (tenPow (2 * maxScale - (a.scale + b.scale)) : Nat) := by
    have hsplit : 2 * maxScale - (a.scale + b.scale)
        = (maxScale - a.scale) + (maxScale - b.scale) := by omega
    rw [hsplit, tenPow_add, Nat.cast_mul, units, units, aligned, aligned]
    ring
  rw [mul?]
  split
  · next hzero =>
    have hnone : a.units * b.units = 0 := by
      rw [Bool.or_eq_true] at hzero
      rcases hzero with hzero | hzero
      · rw [units_of_isZero hzero, Int.zero_mul]
      · rw [units_of_isZero hzero, Int.mul_zero]
    rw [hnone]
    exact ⟨zero, rfl, nearest_self 0⟩
  · split
    · next hsmall =>
      obtain ⟨hma, hmb, hplaces⟩ := hsmall
      have hc : (a.coefficient * b.coefficient).natAbs ≤ 4294967296 * 4294967296 := by
        rw [Int.natAbs_mul]
        exact Nat.mul_le_mul hma.le hmb.le
      have hmax : maxScale = 28 := rfl
      have hplace : tenPow (2 * maxScale - (a.scale + b.scale)) ≤ tenPow 8 :=
        Nat.pow_le_pow_right (by decide) (by omega)
      have hle : (a.units * b.units).natAbs ≤ 4294967296 * 4294967296 * tenPow 8 := by
        rw [hprod, Int.natAbs_mul, Int.natAbs_natCast]
        exact Nat.mul_le_mul hc hplace
      have hhalf : 2 * (4294967296 * 4294967296 * tenPow 8) ≤ unit := by decide
      refine ⟨zero, rfl, ?_⟩
      rw [Nearest, units_zero]
      omega
    · have hpos := tenPow_pos (2 * maxScale - (a.scale + b.scale))
      have hunit : unit * unit
          = tenPow (a.scale + b.scale) * tenPow (2 * maxScale - (a.scale + b.scale)) := by
        rw [unit_eq, ← tenPow_add, ← tenPow_add]
        congr 1
        omega
      rw [hprod, Int.natAbs_mul, Int.natAbs_natCast, hunit, ← Nat.mul_assoc] at h
      rw [hprod]
      exact fit_nearest (Nat.le_of_mul_le_mul_right h hpos) (by omega)

/-! ## Signs -/

theorem fit_nonneg {c : Int} {s : Nat} {d : Decimal} (hc : 0 ≤ c) (h : fit c s = some d) :
    0 ≤ d.units := by
  have hmade : ∀ q t, make? (signed c q) t = some d → 0 ≤ d.units := by
    intro q t hd
    rw [(units_of_make? hd).1, signed_nonneg hc]
    exact Int.mul_nonneg (Int.natCast_nonneg _) (Int.natCast_nonneg _)
  obtain ⟨k, hk, -⟩ := Option.bind_eq_some_iff.1 h
  rw [fit_of_surplus hk] at h
  split at h
  · exact hmade _ _ h
  · split at h
    · cases h
    · exact hmade _ _ h

theorem coefficient_nonneg {a : Decimal} (h : 0 ≤ a.units) : 0 ≤ a.coefficient := by
  have hsign := (units_nonneg_iff a).1 h
  rw [isNegative, decide_eq_false_iff_not, Int.not_lt] at hsign
  exact hsign

theorem aligned_nonneg {a : Decimal} (h : 0 ≤ a.units) (s : Nat) : 0 ≤ a.aligned s :=
  Int.mul_nonneg (coefficient_nonneg h) (Int.natCast_nonneg _)

section
variable {a b : Decimal}

theorem addSaturating_nonneg (ha : 0 ≤ a.units) (hb : 0 ≤ b.units) :
    0 ≤ (a.addSaturating b).units := by
  rw [addSaturating, (units_nonneg_iff a).1 ha]
  cases h : a.add? b with
  | none => decide
  | some d =>
    rw [add?] at h
    split at h
    · rw [Option.some.injEq] at h
      exact h ▸ hb
    · split at h
      · rw [Option.some.injEq] at h
        exact h ▸ ha
      · exact fit_nonneg (Int.add_nonneg (aligned_nonneg ha _) (aligned_nonneg hb _)) h

theorem mulSaturating_nonneg (ha : 0 ≤ a.units) (hb : 0 ≤ b.units) :
    0 ≤ (a.mulSaturating b).units := by
  rw [mulSaturating, (units_nonneg_iff a).1 ha, (units_nonneg_iff b).1 hb]
  cases h : a.mul? b with
  | none => decide
  | some d =>
    rw [mul?] at h
    split at h
    · rw [Option.some.injEq] at h
      exact h ▸ Int.le_refl _
    · split at h
      · rw [Option.some.injEq] at h
        exact h ▸ Int.le_refl _
      · exact fit_nonneg (Int.mul_nonneg (coefficient_nonneg ha) (coefficient_nonneg hb)) h

end

/-- One can be taken from any decimal that is not negative. -/
theorem sub?_one_isSome {a : Decimal} (ha : 0 ≤ a.units) : ∃ d, a.sub? one = some d := by
  rw [sub?, add?]
  split
  · exact ⟨_, rfl⟩
  · split
    · exact ⟨_, rfl⟩
    · have hscale : max a.scale one.neg.scale = a.scale := Nat.max_eq_left (Nat.zero_le _)
      have hcoefficient := coefficient_nonneg ha
      have hlt := a.coefficient_lt
      have hpow : tenPow a.scale ≤ tenPow maxScale := Nat.pow_le_pow_right (by decide) a.scale_le
      have hsmall : tenPow maxScale < bound := by decide
      have hself : a.aligned a.scale = a.coefficient := by
        rw [aligned, Nat.sub_self]
        exact Int.mul_one _
      have hone : one.neg.aligned a.scale = -(tenPow a.scale : Nat) := by
        rw [aligned, neg, one, Nat.sub_zero, Int.neg_mul, Int.one_mul]
      simp only [hscale, hself, hone]
      obtain ⟨d, hd, -⟩ := fit_exact (c := a.coefficient + -(tenPow a.scale : Nat)) (s := a.scale)
        (by omega) a.scale_le
      exact ⟨d, hd⟩

/-! ## Order -/

theorem compare_ne_gt_iff {a b : Decimal} : a.compare b ≠ .gt ↔ a.units ≤ b.units := by
  have hscale : max a.scale b.scale ≤ maxScale := Nat.max_le.2 ⟨a.scale_le, b.scale_le⟩
  have hpos : (0 : Int) < (tenPow (maxScale - max a.scale b.scale) : Nat) := by
    exact_mod_cast tenPow_pos _
  rw [← aligned_mul a (Nat.le_max_left ..) hscale, ← aligned_mul b (Nat.le_max_right ..) hscale,
    mul_le_mul_iff_left₀ hpos, compare, Ne, Int.compare_eq_gt, Int.not_lt]

/-! ## Shares -/

/-- Whether a decimal lies between zero and one, both included. -/
def InUnit (a : Decimal) : Prop := a.isNegative = false ∧ a.compare one ≠ .gt

instance (a : Decimal) : Decidable a.InUnit :=
  inferInstanceAs (Decidable (a.isNegative = false ∧ a.compare one ≠ .gt))

theorem InUnit.units_nonneg {a : Decimal} (h : a.InUnit) : 0 ≤ a.units :=
  (units_nonneg_iff a).2 h.1

theorem InUnit.units_le {a : Decimal} (h : a.InUnit) : a.units ≤ unit := compare_ne_gt_iff.1 h.2

/-- A share leaves a share of the whole. -/
theorem InUnit.one_sub?_units {a : Decimal} (h : a.InUnit) :
    ∃ rest, one.sub? a = some rest ∧ rest.units = unit - a.units := by
  have hsmall : unit < bound := by decide
  have hnonneg := h.units_nonneg
  have hle := h.units_le
  exact sub?_exact (by rw [units_one]; omega)

theorem InUnit.one_sub? {a : Decimal} (h : a.InUnit) : ∃ rest, one.sub? a = some rest := by
  obtain ⟨rest, hrest, -⟩ := h.one_sub?_units
  exact ⟨rest, hrest⟩

/-! ## Places -/

theorem scale_of_make? {c : Int} {s : Nat} {d : Decimal} (h : make? c s = some d) : d.scale = s := by
  rw [make?] at h
  split at h
  · cases h
    rfl
  · cases h

theorem scale_le_of_fit {c : Int} {s : Nat} {d : Decimal} (h : fit c s = some d) : d.scale ≤ s := by
  obtain ⟨k, hk, -⟩ := Option.bind_eq_some_iff.1 h
  rw [fit_of_surplus hk] at h
  split at h
  · rw [scale_of_make? h]
    omega
  · split at h
    · cases h
    · rw [scale_of_make? h]
      omega

/-- A difference needs no more places than both of its sides. -/
theorem scale_le_of_sub? {a b d : Decimal} (h : a.sub? b = some d) :
    d.scale ≤ max a.scale b.scale := by
  rw [sub?, add?] at h
  split at h
  · rw [Option.some.injEq] at h
    exact h ▸ Nat.le_max_right ..
  · split at h
    · rw [Option.some.injEq] at h
      exact h ▸ Nat.le_max_left ..
    · exact scale_le_of_fit h

theorem aligned_stripZeros (c : Int) {s t : Nat} (hs : s ≤ t) :
    (stripZeros c s).1 * (tenPow (t - (stripZeros c s).2) : Nat) = c * (tenPow (t - s) : Nat) := by
  induction s generalizing c with
  | zero => rfl
  | succ s ih =>
    rw [stripZeros]
    split
    · next hzero =>
      have hplaces : t - s = 1 + (t - (s + 1)) := by omega
      have hten : c / 10 * ((tenPow 1 : Nat) : Int) = c :=
        Int.ediv_mul_cancel (Int.dvd_of_emod_eq_zero hzero)
      rw [ih (c / 10) (by omega), hplaces, tenPow_add, Nat.cast_mul, ← Int.mul_assoc, hten]
    · rfl

theorem units_normalize (a : Decimal) : a.normalize.units = a.units :=
  aligned_stripZeros a.coefficient a.scale_le

/-- A decimal up to one has no more digits than places. -/
theorem mantissa_le {a : Decimal} (hnonneg : 0 ≤ a.units) (hle : a.units ≤ unit) :
    a.mantissa ≤ tenPow a.scale := by
  have hpos := tenPow_pos (maxScale - a.scale)
  have hcoefficient := coefficient_nonneg hnonneg
  have hmantissa : (a.mantissa : Int) = a.coefficient := Int.natAbs_of_nonneg hcoefficient
  rw [units, aligned, ← hmantissa, unit_eq, ← tenPow_sub_mul a.scale_le, Nat.mul_comm] at hle
  exact Nat.le_of_mul_le_mul_right (by exact_mod_cast hle) hpos

/-! ## Values -/

/-- The rational number that a decimal stands for. -/
def value (a : Decimal) : ℚ := a.coefficient / tenPow a.scale

theorem value_eq_units_div (a : Decimal) : a.value = a.units / unit := by
  have hsplit : ((unit : Nat) : ℚ) = tenPow (maxScale - a.scale) * tenPow a.scale := by
    rw [unit_eq, ← tenPow_sub_mul a.scale_le, Nat.cast_mul]
  have hne : (tenPow (maxScale - a.scale) : ℚ) ≠ 0 := Nat.cast_ne_zero.2 (tenPow_pos _).ne'
  rw [units, aligned, Int.cast_mul, Int.cast_natCast, hsplit, mul_comm (tenPow _ : ℚ),
    mul_div_mul_right _ _ hne, value]

theorem value_normalize (a : Decimal) : a.normalize.value = a.value := by
  rw [value_eq_units_div, value_eq_units_div, units_normalize]

theorem unit_cast_pos : (0 : ℚ) < (unit : Nat) := Nat.cast_pos.2 (by decide)

theorem value_nonneg_iff (a : Decimal) : 0 ≤ a.value ↔ 0 ≤ a.units := by
  rw [value_eq_units_div, le_div_iff₀ unit_cast_pos, zero_mul, Int.cast_nonneg_iff]

theorem value_le_one_iff (a : Decimal) : a.value ≤ 1 ↔ a.units ≤ unit := by
  rw [value_eq_units_div, div_le_iff₀ unit_cast_pos, one_mul]
  exact_mod_cast Iff.rfl

theorem value_eq_mantissa_div {a : Decimal} (h : 0 ≤ a.value) :
    a.value = (a.mantissa : ℚ) / tenPow a.scale := by
  have hmantissa : (a.mantissa : Int) = a.coefficient :=
    Int.natAbs_of_nonneg (coefficient_nonneg ((value_nonneg_iff a).1 h))
  rw [value, ← hmantissa, Int.cast_natCast]

end Decimal

end SwapRouting
