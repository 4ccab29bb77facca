import Mathlib.Tactic.Linarith
import SwapRouting.Proofs.Route.Monotone

/-! A larger share pays less for another unit.

A constant product pays less and less for each further unit of its input, but what it pays is rounded down, so
the next unit may pay one more than the last one. Behind another pool, a fee or a spread, which are rounded as
well, it may pay much more. -/
namespace SwapRouting
set_option autoImplicit false

/-- How much more a unit on top of a share pays than the last unit of it. -/
def Route.Excess (r : Route) (denomIn : Denom) (share : Nat) (excess : Int) : Prop :=
  ∃ less here more : Nat, 0 < share ∧ r.amountOut denomIn (share - 1) = .ok less ∧
    r.amountOut denomIn share = .ok here ∧ r.amountOut denomIn (share + 1) = .ok more ∧
    excess = (more - here : Int) - (here - less)

/-! ## Curves without a spread -/

/-- What is paid without fees: one for one, or by a constant product with fixed reserves. -/
def PaysPlainly {ε : Type} (f : Nat → Except ε Nat) : Prop :=
  (∀ n out, f n = .ok out → out = n) ∨
    ∃ reserveIn reserveOut, 0 < reserveIn ∧ ∀ n out, f n = .ok out →
      reserveOut * n < Amount.bound ∧ out = reserveOut * n / (reserveIn + n)

theorem eq_of_retain_zero {pool amount n : Nat} (h : retain pool amount Decimal.zero = .ok n) :
    n = amount := by
  obtain ⟨share, hshare, hn⟩ := mulFloor_of_retain_eq_ok h
  have hone : Decimal.one.sub? Decimal.zero = some Decimal.one := by decide
  have hmantissa : Decimal.one.normalize.mantissa = 1 := by decide
  have hscale : Decimal.one.normalize.scale = 0 := by decide
  rw [hone, Option.some.injEq] at hshare
  subst hshare
  rw [Amount.eq_div_of_mulFloor_eq_some hn, hmantissa, hscale, tenPow_zero, Nat.mul_one, Nat.div_one]

namespace Curve

/-- Whether a curve takes nothing from its input. -/
def IsPlain : Curve → Prop
  | constantProduct _ _ spread => spread = Decimal.zero
  | transmuter _ _ => True
  | unpriced _ _ spread => spread = Decimal.zero

theorem paysPlainly_productSwap (pool : Nat) (reserves : List Coin) (denomIn denomOut : Denom) :
    PaysPlainly fun n => productSwap pool reserves Decimal.zero ⟨denomIn, n⟩ denomOut := by
  -- the reserves are those of any input that can be traded
  by_cases htraded : ∃ n out, productSwap pool reserves Decimal.zero ⟨denomIn, n⟩ denomOut = .ok out
  · obtain ⟨_, _, htraded⟩ := htraded
    obtain ⟨reserveIn, reserveOut, ⟨hpos, -⟩, hin, hout, -⟩ := productSwap_eq_ok htraded
    refine Or.inr ⟨reserveIn, reserveOut, hpos, fun n out h => ?_⟩
    obtain ⟨reserveIn', reserveOut', -, hin', hout', h⟩ := productSwap_eq_ok h
    rw [hin, Except.ok.injEq] at hin'
    rw [hout, Except.ok.injEq] at hout'
    subst hin' hout'
    obtain ⟨m, hm, h⟩ := bind_eq_ok_iff.1 h
    rw [eq_of_retain_zero hm] at h
    obtain ⟨hproduct, -, hshare⟩ := productOut_eq_ok_iff.1 h
    exact ⟨hproduct, hshare⟩
  · exact Or.inl fun n out h => absurd ⟨n, out, h⟩ htraded

theorem IsPlain.paysPlainly {c : Curve} (h : c.IsPlain) (denomIn denomOut : Denom) :
    PaysPlainly fun n => c.swap ⟨denomIn, n⟩ denomOut := by
  cases c with
  | constantProduct pool reserves spread =>
    cases h
    exact paysPlainly_productSwap pool reserves denomIn denomOut
  | transmuter pool balances => exact Or.inl fun n out h => eq_of_transmute_eq_ok h
  | unpriced pool reserves spread =>
    cases h
    exact paysPlainly_productSwap pool reserves denomIn denomOut

/-- A constant product pays no more for the next unit than for the last one, but for the unit that rounding
moves. -/
theorem productShare_concave {reserveIn reserveOut n : Nat} (hpos : 0 < n) :
    reserveOut * (n + 1) / (reserveIn + (n + 1)) + reserveOut * (n - 1) / (reserveIn + (n - 1))
      ≤ 2 * (reserveOut * n / (reserveIn + n)) + 1 := by
  obtain ⟨m, rfl⟩ : ∃ m, n = m + 1 := ⟨n - 1, by omega⟩
  rw [Nat.add_sub_cancel]
  have hmono : reserveOut * m / (reserveIn + m) ≤ reserveOut * (m + 1 + 1) / (reserveIn + (m + 1 + 1)) :=
    productShare_le (by omega)
  have hmore := Nat.div_mul_le_self (reserveOut * (m + 1 + 1)) (reserveIn + (m + 1 + 1))
  have hless := Nat.div_mul_le_self (reserveOut * m) (reserveIn + m)
  have hhere := Nat.lt_div_mul_add (a := reserveOut * (m + 1)) (b := reserveIn + (m + 1)) (by omega)
  generalize reserveOut * (m + 1 + 1) / (reserveIn + (m + 1 + 1)) = more at *
  generalize reserveOut * m / (reserveIn + m) = less at *
  generalize reserveOut * (m + 1) / (reserveIn + (m + 1)) = here at *
  by_contra hlt
  have hscaled : 2 * (here + 1) * (reserveIn + (m + 1)) ≤ (more + less) * (reserveIn + (m + 1)) :=
    Nat.mul_le_mul_right _ (by omega)
  -- the first two bounds together leave `more < less`
  linarith

end Curve

/-! ## What is paid without fees -/

namespace PaysPlainly

variable {ε : Type} {f g : Nat → Except ε Nat}

theorem of_imp (hf : PaysPlainly f) (h : ∀ n out, g n = .ok out → f n = .ok out) : PaysPlainly g := by
  rcases hf with hone | ⟨reserveIn, reserveOut, hpos, hproduct⟩
  · exact Or.inl fun n out hg => hone n out (h n out hg)
  · exact Or.inr ⟨reserveIn, reserveOut, hpos, fun n out hg => hproduct n out (h n out hg)⟩

theorem concave (hf : PaysPlainly f) {n less here more : Nat} (hpos : 0 < n)
    (hless : f (n - 1) = .ok less) (hhere : f n = .ok here) (hmore : f (n + 1) = .ok more) :
    more + less ≤ 2 * here + 1 := by
  rcases hf with hone | ⟨reserveIn, reserveOut, -, hproduct⟩
  · rw [hone _ _ hless, hone _ _ hhere, hone _ _ hmore]
    omega
  · rw [(hproduct _ _ hless).2, (hproduct _ _ hhere).2, (hproduct _ _ hmore).2]
    exact Curve.productShare_concave hpos

/-- More than the input is paid only below half of the range. -/
theorem two_mul_lt_or_le (hf : PaysPlainly f) {n out : Nat} (hpos : 0 < n) (h : f n = .ok out) :
    2 * out < Amount.bound ∨ out ≤ n := by
  rcases hf with hone | ⟨reserveIn, reserveOut, hin, hproduct⟩
  · exact Or.inr (Nat.le_of_eq (hone n out h))
  · obtain ⟨hlt, hout⟩ := hproduct n out h
    left
    calc 2 * out = out * 2 := Nat.mul_comm ..
      _ ≤ out * (reserveIn + n) := Nat.mul_le_mul_left out (by omega)
      _ ≤ reserveOut * n := hout ▸ Nat.div_mul_le_self _ _
      _ < Amount.bound := hlt

end PaysPlainly

/-! ## Routes through one pool -/

namespace Route

/-- Whether a route goes through one pool and nothing is taken from its input. -/
def IsPlain (r : Route) : Prop :=
  ∃ h, r.hops = [h] ∧ h.takerFee = Decimal.zero ∧ h.pool.curve.IsPlain

variable {r : Route}

theorem IsPlain.paysPlainly (h : r.IsPlain) (denomIn : Denom) : PaysPlainly (r.amountOut denomIn) := by
  obtain ⟨hop, hhops, hfee, hcurve⟩ := h
  refine (hcurve.paysPlainly denomIn hop.denomOut).of_imp fun n out hout => ?_
  rw [amountOut, hhops, tradeThrough_cons, hfee] at hout
  obtain ⟨charged, hcharged, hout⟩ := bind_eq_ok_iff.1 hout
  obtain ⟨paid, hpaid, hout⟩ := bind_eq_ok_iff.1 hout
  cases hout
  rw [eq_of_retain_zero hcharged] at hpaid
  exact hpaid

theorem IsPlain.excess_le_one (h : r.IsPlain) {denomIn : Denom} {share : Nat} {excess : Int}
    (hexcess : r.Excess denomIn share excess) : excess ≤ 1 := by
  obtain ⟨less, here, more, hpos, hless, hhere, hmore, rfl⟩ := hexcess
  have hconcave := (h.paysPlainly denomIn).concave hpos hless hhere hmore
  omega

end Route

end SwapRouting
