import SwapRouting.Amount
import SwapRouting.Proofs.Decimal.Units

/-! Shares of an amount as decimals.

A quotient of an amount by one that is no smaller never exceeds one, however its last digit is rounded,
and no quotient of amounts is negative. -/
namespace SwapRouting
set_option autoImplicit false

namespace Decimal

/-! ## Long division -/

/-- A division under way, with `n` places, of a number by `divisor`, which is no smaller. -/
structure Division.Proper (d : Division) (divisor n : Nat) : Prop where
  scale : d.scale = n
  parts : d.quotient * divisor + d.remainder ≤ tenPow n * divisor

/-- A quotient that is at most one. -/
def Division.AtMostOne (d : Division) : Prop := ∃ n : Nat, d.scale = n ∧ d.quotient ≤ tenPow n

namespace Division

variable {d d' : Division} {divisor n : Nat}

theorem Proper.quotient_le (h : d.Proper divisor n) (hpos : 0 < divisor) :
    d.quotient ≤ tenPow n := by
  have hparts := h.parts
  exact Nat.le_of_mul_le_mul_right (by omega) hpos

theorem Proper.quotient_lt (h : d.Proper divisor n) (hrest : d.remainder ≠ 0) :
    d.quotient < tenPow n := by
  have hparts := h.parts
  exact Nat.lt_of_mul_lt_mul_right (a := divisor) (by omega)

theorem Proper.digits (h : d.Proper divisor n) (x : Nat) :
    Proper ⟨d.quotient * tenPow x + d.remainder * tenPow x / divisor,
      d.remainder * tenPow x % divisor, d.scale + x, true⟩ divisor (n + x) := by
  refine ⟨?_, ?_⟩
  · show d.scale + x = ((n + x : Nat) : Int)
    rw [h.scale, Nat.cast_add]
  · show (d.quotient * tenPow x + d.remainder * tenPow x / divisor) * divisor
      + d.remainder * tenPow x % divisor ≤ tenPow (n + x) * divisor
    have hsplit := Nat.div_add_mod (d.remainder * tenPow x) divisor
    have hparts := Nat.mul_le_mul_right (tenPow x) h.parts
    calc (d.quotient * tenPow x + d.remainder * tenPow x / divisor) * divisor
          + d.remainder * tenPow x % divisor
        = d.quotient * tenPow x * divisor + (divisor * (d.remainder * tenPow x / divisor)
          + d.remainder * tenPow x % divisor) := by ring
      _ = (d.quotient * divisor + d.remainder) * tenPow x := by rw [hsplit]; ring
      _ ≤ tenPow n * divisor * tenPow x := hparts
      _ = tenPow (n + x) * divisor := by rw [tenPow_add]; ring

theorem halfEven_ten_le {q n : Nat} (h : q ≤ tenPow (n + 1)) : halfEven q 10 ≤ tenPow n :=
  halfEven_le (by decide) h

theorem dropDigit_le {q r n : Nat} (h : q ≤ tenPow (n + 1)) : dropDigit q r ≤ tenPow n := by
  have hten : tenPow (n + 1) = tenPow n * 10 := Nat.pow_succ ..
  rw [dropDigit]
  split <;> omega

theorem Proper.round_atMostOne (h : d.Proper divisor n) (hrest : d.remainder ≠ 0)
    (hround : d.round divisor = some d') : d'.AtMostOne := by
  have hlt := h.quotient_lt hrest
  have hup : ∀ q, q = d.quotient + 1 ∨ q = d.quotient →
      (if q < bound then some { d with quotient := q }
        else if d.scale = 0 then none
        else some { d with quotient := halfEven q 10, scale := d.scale - 1 }) = some d' →
      d'.AtMostOne := by
    intro q hq hsome
    have hle : q ≤ tenPow n := by omega
    split at hsome
    · rw [Option.some.injEq] at hsome
      exact hsome ▸ ⟨n, h.scale, hle⟩
    · split at hsome
      · cases hsome
      · next hplaces =>
        rw [h.scale] at hplaces
        obtain ⟨m, rfl⟩ : ∃ m, n = m + 1 := ⟨n - 1, by omega⟩
        rw [Option.some.injEq] at hsome
        refine hsome ▸ ⟨m, ?_, halfEven_ten_le hle⟩
        show d.scale - 1 = (m : Int)
        rw [h.scale]
        omega
  rw [Division.round] at hround
  refine hup _ ?_ hround
  split
  · exact Or.inl rfl
  · exact Or.inr rfl

/-- However far the division goes, the quotient stays at most one. -/
theorem Proper.run_atMostOne (h : d.Proper divisor n) (hpos : 0 < divisor)
    (hrun : Division.run divisor d = some d') : d'.AtMostOne := by
  fun_induction Division.run divisor d generalizing n with
  | case1 d hzero hscale =>
    rw [Option.some.injEq] at hrun
    exact hrun ▸ ⟨n, h.scale, h.quotient_le hpos⟩
  | case2 d hzero hscale => exact absurd (h.scale ▸ Int.natCast_nonneg n) hscale
  | case3 => cases hrun
  | case4 => cases hrun
  | case5 d hrest =>
    have hproper : ({ d with inexact := true } : Division).Proper divisor n := ⟨h.scale, h.parts⟩
    exact hproper.round_atMostOne hrest hrun
  | case6 d hrest x hlong hroom q r s hbound =>
    rename_i ih
    exact ih (h.digits x) hrun
  | case7 => cases hrun
  | case8 d hrest x hlong hroom q r s hbound =>
    rename_i hplaces
    have hdigits := h.digits x
    have hscale : s = ((n + x : Nat) : Int) := hdigits.scale
    have hq : q ≤ tenPow (n + x) := hdigits.quotient_le hpos
    rw [Option.some.injEq] at hrun
    obtain ⟨m, hm⟩ : ∃ m, n + x = m + 1 := ⟨n + x - 1, by omega⟩
    rw [hm] at hscale hq
    refine hrun ▸ ⟨m, ?_, dropDigit_le hq⟩
    show s - 1 = (m : Int)
    omega

end Division

/-! ## Zeros that the division brought in -/

theorem dropEights_le {q s : Nat} (h : q ≤ tenPow s) :
    (dropEights q s).1 ≤ tenPow (dropEights q s).2 := by
  fun_induction dropEights q s with
  | case1 q s hzeros ih =>
    refine ih (Nat.div_le_of_le_mul ?_)
    have hsplit : tenPow s = tenPow 8 * tenPow (s - 8) := by
      rw [Nat.mul_comm]
      exact (tenPow_sub_mul hzeros.2.1).symm
    rw [hsplit] at h
    exact h
  | case2 q s hzeros => exact h

theorem dropOnce_le {k : Nat} {a : Nat × Nat} (h : a.1 ≤ tenPow a.2) :
    (dropOnce k a).1 ≤ tenPow (dropOnce k a).2 := by
  rw [dropOnce]
  split
  · next hzeros =>
    refine Nat.div_le_of_le_mul ?_
    rw [Nat.mul_comm, tenPow_sub_mul hzeros.1]
    exact h
  · exact h

/-! ## Quotients -/

/-- A quotient of decimals that are not negative: zero, or a division with the zeros dropped that it
brought in. -/
theorem div?_eq_some {a b d : Decimal} (ha : 0 ≤ a.units) (hb : 0 ≤ b.units)
    (h : a.div? b = some d) :
    d = zero ∨ 0 < b.mantissa ∧ ∃ e : Division,
      Division.run b.mantissa ⟨a.mantissa / b.mantissa, a.mantissa % b.mantissa,
        (a.scale : Int) - b.scale, false⟩ = some e ∧
      ∃ q s, make? (q : Nat) s = some d ∧
        (q, s) = if e.inexact then
            dropOnce 1 (dropOnce 2 (dropOnce 4 (dropEights e.quotient e.scale.toNat)))
          else (e.quotient, e.scale.toNat) := by
  have hsign : (a.isNegative == b.isNegative) = true := by
    rw [(units_nonneg_iff a).1 ha, (units_nonneg_iff b).1 hb]
    rfl
  rw [div?] at h
  split at h
  · cases h
  · next hdivisor =>
    have hpos : 0 < b.mantissa := by
      rw [isZero_iff] at hdivisor
      exact Int.natAbs_pos.2 hdivisor
    split at h
    · rw [Option.some.injEq] at h
      exact Or.inl h.symm
    · simp only at h
      split at h
      · cases h
      · next e he => exact Or.inr ⟨hpos, e, he, _, _, h, rfl⟩

theorem div?_nonneg {a b d : Decimal} (ha : 0 ≤ a.units) (hb : 0 ≤ b.units)
    (h : a.div? b = some d) : 0 ≤ d.units := by
  rcases div?_eq_some ha hb h with rfl | ⟨-, e, -, q, s, hd, -⟩
  · exact Int.le_refl _
  · rw [(units_of_make? hd).1]
    exact Int.mul_nonneg (Int.natCast_nonneg _) (Int.natCast_nonneg _)

/-- A whole number by one that is no smaller. -/
theorem div?_le_one {a b d : Decimal} (ha : 0 ≤ a.units) (hb : 0 ≤ b.units) (has : a.scale = 0)
    (hbs : b.scale = 0) (hle : a.mantissa ≤ b.mantissa) (h : a.div? b = some d) :
    d.units ≤ unit := by
  rcases div?_eq_some ha hb h with rfl | ⟨hpos, e, he, q, s, hd, hqs⟩
  · exact Int.natCast_nonneg _
  · have hstart : Division.Proper ⟨a.mantissa / b.mantissa, a.mantissa % b.mantissa,
        (a.scale : Int) - b.scale, false⟩ b.mantissa 0 := by
      refine ⟨?_, ?_⟩
      · show (a.scale : Int) - b.scale = ((0 : Nat) : Int)
        rw [has, hbs]
        rfl
      · show a.mantissa / b.mantissa * b.mantissa + a.mantissa % b.mantissa
          ≤ tenPow 0 * b.mantissa
        rw [Nat.div_add_mod', tenPow_zero, Nat.one_mul]
        exact hle
    obtain ⟨n, hscale, hn⟩ := hstart.run_atMostOne hpos he
    have hplain : e.quotient ≤ tenPow e.scale.toNat := by
      rw [hscale, Int.toNat_natCast]
      exact hn
    have hq : q ≤ tenPow s := by
      have hpair : (q, s).1 ≤ tenPow (q, s).2 := by
        rw [hqs]
        split
        · exact dropOnce_le (dropOnce_le (dropOnce_le (dropEights_le hplain)))
        · exact hplain
      exact hpair
    obtain ⟨hunits, hs⟩ := units_of_make? hd
    have hmul := Nat.mul_le_mul_right (tenPow (maxScale - s)) hq
    rw [Nat.mul_comm (tenPow s), tenPow_sub_mul hs, ← unit_eq] at hmul
    rw [hunits]
    exact_mod_cast hmul

theorem units_of_ofNat? {n : Nat} {d : Decimal} (h : ofNat? n = some d) :
    0 ≤ d.units ∧ d.scale = 0 ∧ d.mantissa = n := by
  rw [ofNat?, make?] at h
  split at h
  · cases h
    refine ⟨?_, rfl, Int.natAbs_natCast n⟩
    exact Int.mul_nonneg (Int.natCast_nonneg _) (Int.natCast_nonneg _)
  · cases h

end Decimal

/-! ## Shares of amounts -/

namespace Amount

theorem ratio_eq_some {n m : Nat} {d : Decimal} (h : ratio n m = some d) :
    d = Decimal.zero ∨ ∃ a b, Decimal.ofNat? (n >>> excessBits n m) = some a ∧
      Decimal.ofNat? (m >>> excessBits n m) = some b ∧ a.div? b = some d := by
  rw [ratio] at h
  split at h
  · rw [Option.some.injEq] at h
    exact Or.inl h.symm
  · simp only at h
    split at h
    · cases h
    · obtain ⟨a, ha, h1⟩ := Option.bind_eq_some_iff.1 h
      obtain ⟨b, hb, h2⟩ := Option.bind_eq_some_iff.1 h1
      exact Or.inr ⟨a, b, ha, hb, h2⟩

theorem ratio_nonneg {n m : Nat} {d : Decimal} (h : ratio n m = some d) : 0 ≤ d.units := by
  rcases ratio_eq_some h with rfl | ⟨a, b, ha, hb, hd⟩
  · exact Int.le_refl _
  · exact Decimal.div?_nonneg (Decimal.units_of_ofNat? ha).1 (Decimal.units_of_ofNat? hb).1 hd

theorem ratio_le_one {n m : Nat} {d : Decimal} (hle : n ≤ m) (h : ratio n m = some d) :
    d.units ≤ Decimal.unit := by
  rcases ratio_eq_some h with rfl | ⟨a, b, ha, hb, hd⟩
  · exact Int.natCast_nonneg _
  · obtain ⟨hapos, hascale, hamantissa⟩ := Decimal.units_of_ofNat? ha
    obtain ⟨hbpos, hbscale, hbmantissa⟩ := Decimal.units_of_ofNat? hb
    refine Decimal.div?_le_one hapos hbpos hascale hbscale ?_ hd
    rw [hamantissa, hbmantissa, Nat.shiftRight_eq_div_pow, Nat.shiftRight_eq_div_pow]
    exact Nat.div_le_div_right hle

end Amount

end SwapRouting
