import Mathlib.Algebra.Order.BigOperators.Group.List
import SwapRouting.Proofs.Route.Price
import SwapRouting.Proofs.Split.Optimize
import SwapRouting.Quote

/-! Quotes of routes that trade.

Splits that were quoted can always be put into a quote: their fees average out within the range of
decimals, their prices are there, and so is the price impact. -/
namespace SwapRouting
set_option autoImplicit false

open Decimal

namespace Quote

/-! ## Averages -/

/-- Averages with a fee of at most `n` and prices that are not negative. -/
structure Averages.Within (a : Averages) (n : Nat) : Prop where
  fee_nonneg : 0 ≤ a.fee.units
  fee_le : a.fee.units ≤ (n * unit : Nat)
  spot : 0 ≤ a.spot.units
  effective : 0 ≤ a.effective.units

theorem addFee?_isSome {a : Averages} {n : Nat} {share : Decimal} {r : Route} (ha : a.Within n)
    (hshare : 0 ≤ share.units ∧ share.units ≤ unit) (hr : r.UnitFees) (hn : n + 2 < bound) :
    ∃ fee, a.addFee? share r = some fee ∧ 0 ≤ fee.units ∧
      fee.units ≤ ((n + 2) * unit : Nat) := by
  obtain ⟨total, htotal, htotal0, htotal2⟩ := Route.totalFee_upToTwo hr
  have hnonneg : 0 ≤ total.units * share.units := Int.mul_nonneg htotal0 hshare.1
  have hle : total.units * share.units ≤ 2 * (unit : Nat) * (unit : Nat) :=
    Int.mul_le_mul htotal2 hshare.2 hshare.1 (by omega)
  have hproduct : (total.units * share.units).natAbs ≤ 7 * (unit * unit) := by
    have hcast : ((unit * unit : Nat) : Int) = (unit : Nat) * (unit : Nat) := Nat.cast_mul ..
    rw [Int.mul_assoc] at hle
    omega
  obtain ⟨weighted, hweighted, hnear⟩ := mul?_nearest hproduct
  have hlow : 0 ≤ weighted.units := hnear.ge (by rw [Int.zero_mul]; exact hnonneg)
  have hhigh : weighted.units ≤ (2 * unit : Nat) := by
    rw [Nat.cast_mul]
    exact hnear.le hle
  obtain ⟨fee, hfee, hbounds⟩ := add?_le ha.fee_nonneg hlow ha.fee_le hhigh hn
  refine ⟨fee, ?_, hbounds⟩
  simp only [Averages.addFee?, Option.bind_eq_bind, htotal, hweighted, Option.bind_some]
  exact hfee

/-- What a split has to satisfy to be averaged: its route trades the amount, charges fees between zero
and one, and takes no more than the whole. -/
structure Weighable (denomIn : Denom) (total : Nat) (s : QuotedRoute) : Prop where
  fees : s.route.UnitFees
  buys : s.route.amountOut denomIn s.amountIn = .ok s.amountOut
  part : s.amountIn ≤ total

/-- Averages over splits exist, as long as there are not more splits than decimals can count. -/
theorem average_isOk {denomIn : Denom} {total : Nat} {splits : List QuotedRoute}
    (hsplits : ∀ s ∈ splits, Weighable denomIn total s) {a : Averages} {n : Nat} (ha : a.Within n)
    (hn : n + 2 * splits.length < bound) :
    ∃ b, (average denomIn total a splits).1 = .ok b ∧ 0 ≤ b.spot.units ∧ 0 ≤ b.effective.units := by
  induction splits generalizing a n with
  | nil => exact ⟨a, rfl, ha.spot, ha.effective⟩
  | cons s rest ih =>
    have hs := hsplits s (List.mem_cons_self ..)
    have hshare0 := Amount.ratio_getD_nonneg s.amountIn total
    have hshare1 := Amount.ratio_getD_le_one hs.part
    rw [List.length_cons] at hn
    obtain ⟨fee, hfee, hfee0, hfeeLe⟩ := addFee?_isSome ha ⟨hshare0, hshare1⟩ hs.fees (by omega)
    obtain ⟨p, hp, -, hspot, heffective⟩ := Route.quote_isOk ⟨denomIn, s.amountIn⟩ hs.buys
    rw [average, hfee]
    simp only [hp]
    refine ih (fun x hx => hsplits x (List.mem_cons_of_mem _ hx)) (n := n + 2) ?_ (by omega)
    exact ⟨hfee0, hfeeLe, addSaturating_nonneg ha.spot (mulSaturating_nonneg hspot hshare0),
      addSaturating_nonneg ha.effective (mulSaturating_nonneg heffective hshare0)⟩

/-! ## Preparing -/

theorem impact?_isSome {spot effective : Decimal} (hspot : 0 ≤ spot.units)
    (heffective : 0 ≤ effective.units) : ∃ impact, impact? spot effective = some impact := by
  rw [impact?]
  split
  · exact ⟨_, rfl⟩
  · split
    · exact ⟨_, rfl⟩
    · next ratio hratio => exact sub?_one_isSome (div?_nonneg heffective hspot hratio)

theorem prepare_eq_ok {method : SwapMethod} {denomIn denomOut : Denom} {scaling : Decimal}
    {splits : List QuotedRoute} {quote : Quote}
    (h : (prepare method denomIn denomOut scaling splits).1 = .ok quote) :
    quote.method = method ∧ quote.splits = splits ∧ quote.amountIn = ⟨denomIn, totalIn splits⟩ ∧
      quote.amountOut = ⟨denomOut, totalOut splits⟩ := by
  obtain ⟨a, -, h1⟩ := bind_eq_ok_iff.1 h
  obtain ⟨impact, -, h2⟩ := bind_eq_ok_iff.1 h1
  cases h2
  exact ⟨rfl, rfl, rfl, rfl⟩

theorem prepare_isOk {method : SwapMethod} {denomIn denomOut : Denom} {scaling : Decimal}
    {splits : List QuotedRoute} (hsplits : ∀ s ∈ splits, Weighable denomIn (totalIn splits) s)
    (hlength : 2 * splits.length < bound) :
    ∃ quote, (prepare method denomIn denomOut scaling splits).1 = .ok quote := by
  have hstart : Averages.Within ⟨zero, zero, zero⟩ 0 :=
    ⟨Int.le_refl _, by rw [Nat.zero_mul]; exact Int.le_refl _, Int.le_refl _, Int.le_refl _⟩
  obtain ⟨a, ha, hspot, heffective⟩ := average_isOk hsplits hstart (by omega)
  obtain ⟨impact, himpact⟩ := impact?_isSome hspot heffective
  have hquoted := orError_eq_ok_iff (e := RouterError.decimalRange).2 himpact
  exact ⟨_, bind_eq_ok_iff.2 ⟨a, ha, bind_eq_ok_iff.2 ⟨impact, hquoted, rfl⟩⟩⟩

/-- Splits that together take an amount can be put into a quote. -/
theorem prepare_isOk_of_sumIn_lt {method : SwapMethod} {denomIn denomOut : Denom} {scaling : Decimal}
    {splits : List QuotedRoute} (hfees : ∀ s ∈ splits, s.route.UnitFees)
    (hbuys : ∀ s ∈ splits, s.route.amountOut denomIn s.amountIn = .ok s.amountOut)
    (hfit : sumIn splits < Amount.bound) (hlength : splits.length < 2 ^ 64) :
    ∃ quote, (prepare method denomIn denomOut scaling splits).1 = .ok quote := by
  have hsmall : 2 * 2 ^ 64 < bound := by decide
  refine prepare_isOk (fun s hs => ⟨hfees s hs, hbuys s hs, ?_⟩) (by omega)
  rw [totalIn_eq_sumIn hfit, sumIn]
  exact List.le_sum_of_mem (List.mem_map_of_mem hs)

/-! ## Failures -/

end Quote

end SwapRouting
