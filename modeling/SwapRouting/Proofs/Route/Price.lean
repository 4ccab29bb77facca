import SwapRouting.Proofs.Decimal.Quotient
import SwapRouting.Proofs.Outcome
import SwapRouting.Route.Price

/-! Fees and prices of a route that trades.

Where spreads and taker fees lie between zero and one, the compounded fee of a route lies between zero
and two, however many hops there are and however each step is rounded. A route that trades an amount has
a price for it, and no price is negative. A quote names the coin that a plain trade along the route pays. -/
namespace SwapRouting
set_option autoImplicit false

open Decimal

/-! ## Compounded fees -/

/-- Whether the spread and the taker fee of a hop lie between zero and one. -/
def RouteHop.UnitFees (h : RouteHop) : Prop := h.pool.spread.InUnit ∧ h.takerFee.InUnit

/-- Whether all spreads and taker fees of a route lie between zero and one. -/
def Route.UnitFees (r : Route) : Prop := ∀ h ∈ r.hops, h.UnitFees

theorem mul_bounds {a b u : Int} (ha : -u ≤ a ∧ a ≤ u) (hb : -u ≤ b ∧ b ≤ u) :
    -(u * u) ≤ a * b ∧ a * b ≤ u * u := by
  have h1 := Int.mul_nonneg (Int.sub_nonneg.2 ha.2) (Int.sub_nonneg.2 hb.2)
  have h2 := Int.mul_nonneg (Int.sub_nonneg.2 ha.1) (Int.sub_nonneg.2 hb.1)
  have h3 := Int.mul_nonneg (Int.sub_nonneg.2 ha.1) (Int.sub_nonneg.2 hb.2)
  have h4 := Int.mul_nonneg (Int.sub_nonneg.2 ha.2) (Int.sub_nonneg.2 hb.1)
  constructor <;> nlinarith only [h1, h2, h3, h4]

/-- Spread and taker fee of a hop together, in units. -/
def RouteHop.feeUnits (h : RouteHop) : Int := h.pool.spread.units + h.takerFee.units

/-- A fee between zero and two. -/
def UpToTwo (t : Decimal) : Prop := 0 ≤ t.units ∧ t.units ≤ 2 * (unit : Nat)

/-- The total behind one more hop is nearest to the exact total. Only the product is rounded: all sums
stay in range. -/
theorem compound_nearest {t : Decimal} {h : RouteHop} (ht : UpToTwo t) (hfee0 : 0 ≤ h.feeUnits)
    (hfee2 : h.feeUnits ≤ 2 * (unit : Nat)) :
    ∃ total, Route.compound t h = some total ∧
      Nearest total.units (t.units * (unit : Nat) + ((unit : Nat) - t.units) * h.feeUnits) := by
  have hsmall : 7 * unit < bound := by decide
  obtain ⟨ht0, ht2⟩ := ht
  obtain ⟨hop, hhop, hhopUnits⟩ := add?_exact (a := h.pool.spread) (b := h.takerFee) (by
    rw [RouteHop.feeUnits] at hfee0 hfee2
    omega)
  have hhopFee : hop.units = h.feeUnits := hhopUnits
  obtain ⟨left, hleft, hleftUnits⟩ := sub?_exact (a := one) (b := t) (by rw [units_one]; omega)
  rw [units_one] at hleftUnits
  have hproduct : (left.units * hop.units).natAbs ≤ 2 * (unit * unit) := by
    have hleftLe : left.units.natAbs ≤ unit := by omega
    have hhopLe : hop.units.natAbs ≤ 2 * unit := by omega
    have hmul := Nat.mul_le_mul hleftLe hhopLe
    rw [Nat.mul_left_comm] at hmul
    rw [Int.natAbs_mul]
    exact hmul
  obtain ⟨share, hshare, hnear⟩ := mul?_nearest (hproduct.trans (by omega))
  have hcast : ((unit * unit : Nat) : Int) = (unit : Nat) * (unit : Nat) := Nat.cast_mul ..
  have hshareLow : -(2 * (unit : Nat)) ≤ share.units := by
    refine hnear.ge ?_
    rw [Int.neg_mul, Int.mul_assoc]
    omega
  have hshareHigh : share.units ≤ 2 * (unit : Nat) := by
    refine hnear.le ?_
    rw [Int.mul_assoc]
    omega
  obtain ⟨total, htotal, htotalUnits⟩ := add?_exact (a := t) (b := share) (by omega)
  refine ⟨total, ?_, ?_⟩
  · simp only [Route.compound, Option.bind_eq_bind, hhop, hleft, hshare, Option.bind_some]
    exact htotal
  · rw [htotalUnits, ← hhopFee, ← hleftUnits]
    exact hnear.add_left t.units

/-- What is left after a fee between zero and two is at most one either way, so one more hop cannot
bring the total out of its bounds: as a whole number of units it is rounded back to them. -/
theorem compound_upToTwo {t : Decimal} {h : RouteHop} (ht : UpToTwo t) (hh : h.UnitFees) :
    ∃ total, Route.compound t h = some total ∧ UpToTwo total := by
  have hspread := hh.1.units_nonneg
  have hspread' := hh.1.units_le
  have hfee := hh.2.units_nonneg
  have hfee' := hh.2.units_le
  have hsum : h.feeUnits = h.pool.spread.units + h.takerFee.units := rfl
  obtain ⟨total, htotal, hnear⟩ := compound_nearest (h := h) ht (by omega) (by omega)
  obtain ⟨ht0, ht2⟩ := ht
  have hbounds := mul_bounds (a := (unit : Nat) - t.units) (b := (unit : Nat) - h.feeUnits)
    (u := (unit : Nat)) (by omega) (by omega)
  have hexact : t.units * (unit : Nat) + ((unit : Nat) - t.units) * h.feeUnits
      = (unit : Nat) * (unit : Nat) - ((unit : Nat) - t.units) * ((unit : Nat) - h.feeUnits) := by
    ring
  rw [hexact] at hnear
  refine ⟨total, htotal, hnear.ge ?_, hnear.le ?_⟩
  · rw [Int.zero_mul]
    linarith only [hbounds.2]
  · rw [Int.mul_assoc]
    linarith only [hbounds.1]

theorem foldlM_compound_upToTwo {hops : List RouteHop} (hfees : ∀ h ∈ hops, h.UnitFees)
    {t : Decimal} (ht : UpToTwo t) :
    ∃ total, hops.foldlM Route.compound t = some total ∧ UpToTwo total := by
  induction hops generalizing t with
  | nil => exact ⟨t, rfl, ht⟩
  | cons h rest ih =>
    obtain ⟨next, hnext, hbounds⟩ := compound_upToTwo ht (hfees h (List.mem_cons_self ..))
    obtain ⟨total, htotal, htwo⟩ := ih (fun x hx => hfees x (List.mem_cons_of_mem _ hx)) hbounds
    refine ⟨total, ?_, htwo⟩
    rw [List.foldlM_cons, hnext]
    exact htotal

theorem Route.totalFee_upToTwo {r : Route} (h : r.UnitFees) :
    ∃ total, r.totalFee = some total ∧ UpToTwo total :=
  foldlM_compound_upToTwo h ⟨Int.le_refl _, by rw [units_zero]; omega⟩

/-! ## Prices -/

theorem Curve.spotPrice_nonneg {c : Curve} {base quote : Denom} {p : Decimal}
    (h : c.spotPrice base quote = .ok p) : 0 ≤ p.units := by
  have hproduct : ∀ pool reserves, Curve.productPrice pool reserves base quote = .ok p →
      0 ≤ p.units := by
    intro pool reserves hp
    obtain ⟨b, -, h1⟩ := bind_eq_ok_iff.1 hp
    obtain ⟨q, -, h2⟩ := bind_eq_ok_iff.1 h1
    split at h2
    · cases h2
    · exact Amount.ratio_nonneg (orError_eq_ok_iff.1 h2)
  cases c with
  | constantProduct pool reserves spread => exact hproduct pool reserves h
  | transmuter pool balances =>
    obtain ⟨b, -, h1⟩ := bind_eq_ok_iff.1 h
    obtain ⟨q, -, h2⟩ := bind_eq_ok_iff.1 h1
    cases h2
    rw [units_one]
    exact Int.natCast_nonneg _
  | unpriced pool reserves spread => cases h

theorem RouteHop.spotPrice?_nonneg (h : RouteHop) (denomIn : Denom) :
    0 ≤ ((h.spotPrice? denomIn).getD Decimal.zero).units := by
  cases hp : h.spotPrice? denomIn with
  | none => exact Int.le_refl _
  | some p => exact Curve.spotPrice_nonneg (toOption_eq_some_iff.1 hp)

theorem Amount.ratio_getD_nonneg (n m : Nat) : 0 ≤ ((ratio n m).getD Decimal.zero).units := by
  cases h : ratio n m with
  | none => exact Int.le_refl _
  | some d => exact ratio_nonneg h

theorem Amount.ratio_getD_le_one {n m : Nat} (h : n ≤ m) :
    ((ratio n m).getD Decimal.zero).units ≤ unit := by
  cases hr : ratio n m with
  | none => exact Int.natCast_nonneg _
  | some d => exact ratio_le_one h hr

theorem priceThrough_isOk {hops : List RouteHop} {denomIn : Denom} {amount n : Nat}
    (h : tradeThrough denomIn amount hops = .ok n) {spot effective : Decimal}
    (hspot : 0 ≤ spot.units) (heffective : 0 ≤ effective.units) :
    ∃ p, (priceThrough denomIn amount spot effective hops).1 = .ok p ∧ 0 ≤ p.spotPrice.units ∧
      0 ≤ p.effectivePrice.units := by
  induction hops generalizing denomIn amount spot effective with
  | nil => exact ⟨_, rfl, hspot, heffective⟩
  | cons hop rest ih =>
    obtain ⟨f, hfill, hrest⟩ := bind_eq_ok_iff.1 h
    rw [priceThrough, hfill]
    exact ih hrest (mulSaturating_nonneg hspot (hop.spotPrice?_nonneg denomIn))
      (mulSaturating_nonneg heffective (Amount.ratio_getD_nonneg _ _))

/-! ## What a quote pays -/

theorem getLast?_denomOut_cons (h : RouteHop) (r : List RouteHop) (denomIn : Denom) :
    ((h :: r).getLast?.map RouteHop.denomOut).getD denomIn
      = (r.getLast?.map RouteHop.denomOut).getD h.denomOut := by
  rw [List.getLast?_cons, Option.map_some, Option.getD_some, Option.getD_map]

/-- With or without prices kept along the way, the hops pay the same coin or fail for the same reason. -/
theorem priceThrough_tokenOut (denomIn : Denom) (amount : Nat) (spot effective : Decimal)
    (hops : List RouteHop) :
    (priceThrough denomIn amount spot effective hops).1.map RouteQuote.tokenOut
      = (tradeThrough denomIn amount hops).map
          (Coin.mk ((hops.getLast?.map RouteHop.denomOut).getD denomIn)) := by
  induction hops generalizing denomIn amount spot effective with
  | nil => rfl
  | cons h rest ih =>
    rw [priceThrough, tradeThrough, getLast?_denomOut_cons]
    cases hfill : h.fill denomIn amount with
    | error e => rfl
    | ok f => exact ih ..

theorem Route.quote_tokenOut (r : Route) (tokenIn : Coin) :
    (r.quote tokenIn).1.map RouteQuote.tokenOut = liftSwap (r.tokenOut tokenIn) := by
  have hloop : (r.price tokenIn.denom tokenIn.amount).1.map RouteQuote.tokenOut = r.tokenOut tokenIn :=
    priceThrough_tokenOut ..
  rw [← hloop, Route.quote]
  cases (r.price tokenIn.denom tokenIn.amount).1 with
  | error e => rfl
  | ok q => rfl

/-- A route that trades an amount has a quote for it, which names what the trade pays. -/
theorem Route.quote_isOk {r : Route} (tokenIn : Coin) {n : Nat}
    (h : r.amountOut tokenIn.denom tokenIn.amount = .ok n) :
    ∃ q, (r.quote tokenIn).1 = .ok q ∧ q.amountOut = n ∧ 0 ≤ q.spotPrice.units ∧
      0 ≤ q.effectivePrice.units := by
  have hone : 0 ≤ one.units := Int.natCast_nonneg unit
  obtain ⟨q, hq, hprices⟩ := priceThrough_isOk h hone hone
  have hquote : (r.quote tokenIn).1 = .ok q := liftSwap_eq_ok_iff.2 hq
  have hpaid : liftSwap (r.tokenOut tokenIn) = .ok ⟨r.denomOut?.getD tokenIn.denom, n⟩ :=
    liftSwap_eq_ok_iff.2 (bind_eq_ok_iff.2 ⟨n, h, rfl⟩)
  rw [← quote_tokenOut, hquote] at hpaid
  exact ⟨q, hquote, congrArg Coin.amount (Except.ok.inj hpaid), hprices⟩

end SwapRouting
