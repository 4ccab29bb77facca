import SwapRouting.Proofs.Decimal.Units

/-! Long division stays in range.

Digits are taken from the remainder only as far as they fit, and once there is a place to give up, a digit
too many is rounded away. Before the first place there is none, but a division that leaves a remainder has
at most half of the range to begin with. So whole numbers always have a quotient. -/
namespace SwapRouting
set_option autoImplicit false

namespace Decimal

theorem halfEven_le_succ (m p : Nat) : halfEven m p ≤ m / p + 1 := by
  rw [halfEven]
  split <;> omega

theorem dropDigit_le_succ (q r : Nat) : dropDigit q r ≤ q / 10 + 1 := by
  rw [dropDigit]
  split <;> omega

theorem roomFor_fits {q : Nat} {s : Int} (h : roomFor q s ≠ 0) :
    roomFor q s ≤ 9 ∧ s + roomFor q s ≤ maxScale ∧ q * tenPow (roomFor q s) < bound := by
  rw [roomFor] at h ⊢
  split at h
  · next hs =>
    rw [if_pos hs]
    cases hfind : ((List.range (min 9 (28 - s).toNat + 1)).reverse).find? fun x =>
        decide (q * tenPow x < bound) with
    | none =>
      rw [hfind] at h
      exact absurd rfl h
    | some x =>
      have hmem := List.mem_range.1 (List.mem_reverse.1 (List.mem_of_find?_eq_some hfind))
      have hlt : q * tenPow x < bound := by simpa using List.find?_some hfind
      have hplaces : s + x ≤ 28 := by omega
      rw [Option.getD_some]
      exact ⟨by omega, hplaces, hlt⟩
  · exact absurd rfl h

namespace Division

/-- A division under way whose digits are in range; before the first place there is room to round up. -/
structure InRange (d : Division) (divisor : Nat) : Prop where
  quotient_lt : d.quotient < bound
  remainder_lt : d.remainder < divisor
  scale_nonneg : 0 ≤ d.scale
  scale_le : d.scale ≤ maxScale
  succ_lt : d.scale = 0 → d.remainder ≠ 0 → d.quotient + 1 < bound

/-- A quotient that is a decimal. -/
def Fits (d : Division) : Prop := d.quotient < bound ∧ 0 ≤ d.scale ∧ d.scale ≤ maxScale

variable {d : Division} {divisor : Nat}

theorem InRange.round_fits (h : d.InRange divisor) (hrest : d.remainder ≠ 0) :
    ∃ e, d.round divisor = some e ∧ e.Fits := by
  have hlarge : 2 < bound := by decide
  have hq := h.quotient_lt
  have hnonneg := h.scale_nonneg
  have hscale := h.scale_le
  have hup : ∀ q ≤ d.quotient + 1, ∃ e, (if q < bound then some { d with quotient := q }
      else if d.scale = 0 then none
      else some { d with quotient := halfEven q 10, scale := d.scale - 1 }) = some e ∧ e.Fits := by
    intro q hqle
    split
    · next hlt => exact ⟨_, rfl, hlt, hnonneg, hscale⟩
    · next hge =>
      have hplaces : d.scale ≠ 0 := by
        intro hzero
        have hroom := h.succ_lt hzero hrest
        omega
      have hround := halfEven_le_succ q 10
      rw [if_neg hplaces]
      refine ⟨_, rfl, ?_, ?_, ?_⟩
      · show halfEven q 10 < bound
        omega
      · show 0 ≤ d.scale - 1
        omega
      · show d.scale - 1 ≤ maxScale
        omega
  rw [Division.round]
  refine hup _ ?_
  split <;> omega

/-- Digits are only taken while they fit, so the division comes to its end. -/
theorem InRange.run_fits (h : d.InRange divisor) :
    ∃ e, Division.run divisor d = some e ∧ e.Fits := by
  have hlarge : 2000000000 < bound := by decide
  fun_induction Division.run divisor d with
  | case1 d hzero hscale => exact ⟨d, rfl, h.quotient_lt, h.scale_nonneg, h.scale_le⟩
  | case2 d hzero hscale => exact absurd h.scale_nonneg hscale
  | case3 d hzero hscale => exact absurd h.scale_nonneg hscale
  | case4 d hrest x hlong =>
    have hnonneg := h.scale_nonneg
    omega
  | case5 d hrest =>
    have hinexact : ({ d with inexact := true } : Division).InRange divisor :=
      ⟨h.quotient_lt, h.remainder_lt, h.scale_nonneg, h.scale_le, h.succ_lt⟩
    exact hinexact.round_fits hrest
  | case6 d hrest x hlong hroom q r s hbound ih =>
    obtain ⟨-, hplaces, -⟩ := roomFor_fits hroom
    have hpos : 0 < divisor := Nat.zero_lt_of_lt h.remainder_lt
    have hnonneg := h.scale_nonneg
    refine ih ⟨hbound, Nat.mod_lt _ hpos, ?_, hplaces, ?_⟩
    · show 0 ≤ d.scale + x
      omega
    · intro hzero
      have hsum : d.scale + x = 0 := hzero
      omega
  | case7 d hrest x hlong hroom q r s hbound =>
    have hnonneg := h.scale_nonneg
    omega
  | case8 d hrest x hlong hroom q r s hbound hplaces =>
    obtain ⟨hx, hscale, hroomy⟩ := roomFor_fits hroom
    have hdigits : d.quotient * tenPow x < bound := hroomy
    -- one digit too many was taken, and only the digits of the remainder lie above the range
    have hten : tenPow x ≤ tenPow 9 := Nat.pow_le_pow_right (by decide) hx
    have hnine : tenPow 9 = 1000000000 := rfl
    have hmore : d.remainder * tenPow x / divisor ≤ tenPow x := by
      refine Nat.div_le_of_le_mul (Nat.mul_le_mul_right _ h.remainder_lt.le)
    have hq : q = d.quotient * tenPow x + d.remainder * tenPow x / divisor := rfl
    have hdrop := dropDigit_le_succ q r
    refine ⟨_, rfl, ?_, ?_, ?_⟩
    · show dropDigit q r < bound
      omega
    · show 0 ≤ s - 1
      omega
    · show s - 1 ≤ maxScale
      omega

end Division

theorem dropEights_fits {q s : Nat} (hq : q < bound) (hs : s ≤ maxScale) :
    (dropEights q s).1 < bound ∧ (dropEights q s).2 ≤ maxScale := by
  fun_induction dropEights q s with
  | case1 q s hzeros ih => exact ih ((Nat.div_le_self ..).trans_lt hq) ((Nat.sub_le ..).trans hs)
  | case2 q s hzeros => exact ⟨hq, hs⟩

theorem dropOnce_fits (k : Nat) {a : Nat × Nat} (h : a.1 < bound ∧ a.2 ≤ maxScale) :
    (dropOnce k a).1 < bound ∧ (dropOnce k a).2 ≤ maxScale := by
  rw [dropOnce]
  split
  · exact ⟨(Nat.div_le_self ..).trans_lt h.1, (Nat.sub_le ..).trans h.2⟩
  · exact h

theorem exists_make?_signed (positive : Bool) {q s : Nat} (h : q < bound ∧ s ≤ maxScale) :
    ∃ d, make? (if positive then (q : Int) else -(q : Int)) s = some d := by
  obtain ⟨d, hd, -⟩ := make?_eq_some (c := if positive then (q : Int) else -(q : Int)) (s := s)
    (by split <;> omega) h.2
  exact ⟨d, hd⟩

/-- Whole numbers have a quotient. -/
theorem div?_isSome {a b : Decimal} (ha : a.scale = 0) (hb : b.scale = 0) (hpos : 0 < b.mantissa) :
    ∃ d, a.div? b = some d := by
  have hdivisor : b.isZero = false := by
    rw [← Bool.not_eq_true, isZero_iff]
    exact Int.natAbs_pos.1 hpos
  rw [div?, if_neg (by simp [hdivisor])]
  split
  · exact ⟨zero, rfl⟩
  · have hlt : a.mantissa < bound := a.coefficient_lt
    have hstart : Division.InRange ⟨a.mantissa / b.mantissa, a.mantissa % b.mantissa,
        (a.scale : Int) - b.scale, false⟩ b.mantissa := by
      rw [ha, hb]
      refine ⟨(Nat.div_le_self ..).trans_lt hlt, Nat.mod_lt _ hpos, Int.le_refl 0,
        Int.natCast_nonneg maxScale, ?_⟩
      -- a remainder needs a divisor above one, which halves the quotient
      intro _ hrest
      have htwo : 2 ≤ b.mantissa := by
        by_contra hone
        have hb1 : b.mantissa = 1 := by omega
        exact hrest (by rw [hb1]; exact Nat.mod_one _)
      have hhalf : a.mantissa / b.mantissa ≤ a.mantissa / 2 := Nat.div_le_div_left htwo (by decide)
      show a.mantissa / b.mantissa + 1 < bound
      have hlarge : 4 < bound := by decide
      omega
    obtain ⟨e, he, hquotient, hnonneg, hscale⟩ := hstart.run_fits
    have hplain : e.quotient < bound ∧ e.scale.toNat ≤ maxScale := ⟨hquotient, by omega⟩
    simp only [he]
    refine exists_make?_signed _ ?_
    split
    · exact dropOnce_fits 1 (dropOnce_fits 2 (dropOnce_fits 4 (dropEights_fits hplain.1 hplain.2)))
    · exact hplain

end Decimal
end SwapRouting
