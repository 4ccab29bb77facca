import SwapRouting.Proofs.Route.Completeness

/-! Higher fees never buy more.

A fee between zero and one leaves the whole part of an exact share of the amount, so a higher fee leaves no
more. A curve pays no more for less. So what a route pays rises with its input, and falls with each taker
fee and each spread along it, wherever both sides can be traded. -/
namespace SwapRouting
set_option autoImplicit false

/-- Whether `g` pays no more for an input than `f` does for it or for a larger one, where both pay. -/
def PaysNoMore {ε : Type} (g f : Nat → Except ε Nat) : Prop :=
  ∀ ⦃a b m n : Nat⦄, a ≤ b → g a = .ok m → f b = .ok n → m ≤ n

theorem PaysNoMore.bind {ε : Type} {f g f' g' : Nat → Except ε Nat} (h : PaysNoMore g f)
    (h' : PaysNoMore g' f') : PaysNoMore (fun n => g n >>= g') fun n => f n >>= f' := by
  intro a b m n hle ha hb
  obtain ⟨x, hx, hm⟩ := bind_eq_ok_iff.1 ha
  obtain ⟨y, hy, hn⟩ := bind_eq_ok_iff.1 hb
  exact h' (h hle hx hy) hm hn

/-! ## What a fee leaves -/

section
variable {pool amount n : Nat} {fee : Decimal}

theorem eq_div_of_retain_eq_ok (hfee : fee.InUnit) (h : retain pool amount fee = .ok n) :
    n = amount * (Decimal.unit - fee.units.toNat) / Decimal.unit := by
  obtain ⟨share, hshare, hn⟩ := mulFloor_of_retain_eq_ok h
  obtain ⟨share', hshare', hunits⟩ := hfee.one_sub?_units
  rw [hshare, Option.some.injEq] at hshare'
  subst hshare'
  have hnonneg := hfee.units_nonneg
  have hrest : share.units.toNat = Decimal.unit - fee.units.toNat := by omega
  rw [Amount.eq_units_div_of_mulFloor_eq_some hn, hrest]

theorem retain_le (hfee : fee.InUnit) (h : retain pool amount fee = .ok n) : n ≤ amount := by
  rw [eq_div_of_retain_eq_ok hfee h]
  refine Nat.div_le_of_le_mul ?_
  rw [Nat.mul_comm]
  exact Nat.mul_le_mul_right amount (Nat.sub_le ..)

end

/-- Whether one fee is no higher than another one. -/
def Decimal.AtMost (a b : Decimal) : Prop := a.compare b ≠ .gt

instance (a b : Decimal) : Decidable (a.AtMost b) :=
  inferInstanceAs (Decidable (a.compare b ≠ .gt))

theorem Decimal.AtMost.refl (a : Decimal) : a.AtMost a := Decimal.compare_ne_gt_iff.2 (Int.le_refl _)

theorem paysNoMore_retain (pool : Nat) {fee higher : Decimal} (hfee : fee.InUnit)
    (hhigher : higher.InUnit) (hle : fee.AtMost higher) :
    PaysNoMore (fun amount => retain pool amount higher) fun amount => retain pool amount fee := by
  intro a b m n hab ha hb
  rw [eq_div_of_retain_eq_ok hhigher ha, eq_div_of_retain_eq_ok hfee hb]
  have hunits := Decimal.compare_ne_gt_iff.1 hle
  exact Nat.div_le_div_right (Nat.mul_le_mul hab (by omega))

/-! ## Routes that differ in their fees -/

/-- Whether two curves differ at most in that the second one takes a higher spread. -/
inductive Curve.NoDearer : Curve → Curve → Prop
  | constantProduct (pool : Nat) (reserves : List Coin) {spread higher : Decimal} :
    spread.AtMost higher →
      NoDearer (.constantProduct pool reserves spread) (.constantProduct pool reserves higher)
  | transmuter (pool : Nat) (balances : List Coin) :
    NoDearer (.transmuter pool balances) (.transmuter pool balances)
  | unpriced (pool : Nat) (reserves : List Coin) {spread higher : Decimal} :
    spread.AtMost higher → NoDearer (.unpriced pool reserves spread) (.unpriced pool reserves higher)

/-- Whether two hops differ at most in that the second one has a higher taker fee or spread. -/
structure RouteHop.NoDearer (h dear : RouteHop) : Prop where
  denomOut : dear.denomOut = h.denomOut
  takerFee : h.takerFee.AtMost dear.takerFee
  curve : h.pool.curve.NoDearer dear.pool.curve

/-- Whether two routes differ at most in that hops of the second one have higher taker fees or spreads. -/
def Route.NoDearer (r dear : Route) : Prop := List.Forall₂ RouteHop.NoDearer r.hops dear.hops

namespace Curve

theorem paysNoMore_productSwap (pool : Nat) (reserves : List Coin) {spread higher : Decimal}
    (hspread : spread.InUnit) (hhigher : higher.InUnit) (hle : spread.AtMost higher)
    (denomIn denomOut : Denom) :
    PaysNoMore (fun amount => productSwap pool reserves higher ⟨denomIn, amount⟩ denomOut)
      fun amount => productSwap pool reserves spread ⟨denomIn, amount⟩ denomOut := by
  intro a b m n hab ha hb
  obtain ⟨reserveIn, reserveOut, -, hin, hout, hm⟩ := productSwap_eq_ok ha
  obtain ⟨reserveIn', reserveOut', -, hin', hout', hn⟩ := productSwap_eq_ok hb
  rw [hin, Except.ok.injEq] at hin'
  rw [hout, Except.ok.injEq] at hout'
  subst hin' hout'
  exact (paysNoMore_retain pool hspread hhigher hle).bind (grows_productOut pool reserveIn reserveOut)
    hab hm hn

theorem paysNoMore_swap {c dear : Curve} (h : c.NoDearer dear) (hspread : c.SpreadIs Decimal.InUnit)
    (hhigher : dear.SpreadIs Decimal.InUnit) (denomIn denomOut : Denom) :
    PaysNoMore (fun amount => dear.swap ⟨denomIn, amount⟩ denomOut)
      fun amount => c.swap ⟨denomIn, amount⟩ denomOut := by
  cases h with
  | constantProduct pool reserves hle =>
    exact paysNoMore_productSwap pool reserves hspread hhigher hle denomIn denomOut
  | transmuter pool balances => exact grows_swap (.transmuter pool balances) denomIn denomOut
  | unpriced pool reserves hle =>
    exact paysNoMore_productSwap pool reserves hspread hhigher hle denomIn denomOut

end Curve

theorem paysNoMore_tradeThrough {hops dear : List RouteHop} (h : List.Forall₂ RouteHop.NoDearer hops dear)
    (hfees : ∀ x ∈ hops, x.FeesAre Decimal.InUnit) (hdear : ∀ x ∈ dear, x.FeesAre Decimal.InUnit)
    (denomIn : Denom) :
    PaysNoMore (fun amount => tradeThrough denomIn amount dear)
      fun amount => tradeThrough denomIn amount hops := by
  induction h generalizing denomIn with
  | nil => exact Grows.ok
  | cons hfirst _ ih =>
    obtain ⟨hdenom, htaker, hcurve⟩ := hfirst
    obtain ⟨hfee, hspread⟩ := hfees _ (List.mem_cons_self ..)
    obtain ⟨hfee', hspread'⟩ := hdear _ (List.mem_cons_self ..)
    have hrest := ih (fun x hx => hfees x (List.mem_cons_of_mem _ hx))
      (fun x hx => hdear x (List.mem_cons_of_mem _ hx))
    simp only [tradeThrough_cons, hdenom]
    exact (paysNoMore_retain 0 hfee hfee' htaker).bind
      ((Curve.paysNoMore_swap hcurve hspread hspread' denomIn _).bind (hrest _))

namespace Route

/-- How the output of a route moves: it never falls when the input rises, and it never rises when taker fees
or spreads along the route do. -/
structure MonotoneOutput (r : Route) : Prop where
  input : ∀ (denomIn : Denom) (m n : Nat) (paid more : Coin), m ≤ n →
    r.tokenOut ⟨denomIn, m⟩ = .ok paid → r.tokenOut ⟨denomIn, n⟩ = .ok more →
      paid.amount ≤ more.amount
  fees : ∀ (dear : Route) (tokenIn paid less : Coin), r.NoDearer dear → dear.FeesAre Decimal.InUnit →
    r.tokenOut tokenIn = .ok paid → dear.tokenOut tokenIn = .ok less → less.amount ≤ paid.amount

theorem monotoneOutput_of_feesAre {r : Route} (hfees : r.FeesAre Decimal.InUnit) :
    r.MonotoneOutput := by
  constructor
  · intro denomIn m n paid more hle hpaid hmore
    exact r.grows_amountOut denomIn hle (tokenOut_eq_ok_iff.1 hpaid).1 (tokenOut_eq_ok_iff.1 hmore).1
  · intro dear tokenIn paid less hdear hdearFees hpaid hless
    exact paysNoMore_tradeThrough hdear hfees hdearFees tokenIn.denom (Nat.le_refl _)
      (tokenOut_eq_ok_iff.1 hless).1 (tokenOut_eq_ok_iff.1 hpaid).1

def hundredth : Decimal where
  coefficient := 1
  scale := 2
  coefficient_lt := Nat.le_of_ble_eq_true rfl
  scale_le := Nat.le_of_ble_eq_true rfl

/-- The hops of `feeRoute` with a higher spread in the first pool and a higher taker fee in front of the
second one. -/
def dearRoute : Route where
  hops := [
    ⟨PoolRecord.constantProduct ⟨1, .constantProduct, ["a", "b"], [⟨"a", 1000⟩, ⟨"b", 1000⟩],
      hundredth, 0⟩, "b", Decimal.thousandth⟩,
    ⟨PoolRecord.transmuter ⟨2, .contract 7 .transmuter, ["b", "c"], [⟨"b", 500⟩, ⟨"c", 500⟩],
      Decimal.zero, 0⟩, "c", hundredth⟩]
  canonicalOrderbook := false

theorem feesAre_feeRoute : feeRoute.FeesAre Decimal.InUnit := by decide

theorem feesAre_dearRoute : dearRoute.FeesAre Decimal.InUnit := by decide

theorem feeRoute_noDearer : feeRoute.NoDearer dearRoute := by
  refine List.Forall₂.cons ⟨rfl, .refl _, .constantProduct 1 _ (by decide)⟩ ?_
  exact List.Forall₂.cons ⟨rfl, by decide, .transmuter 2 _⟩ .nil

/-- The dearer route pays 2 less for 200. -/
theorem feeRoute_monotoneOutput : feeRoute.FeesAre Decimal.InUnit ∧ feeRoute.MonotoneOutput ∧
    feeRoute.tokenOut ⟨"a", 200⟩ = .ok ⟨"c", 164⟩ ∧ dearRoute.tokenOut ⟨"a", 200⟩ = .ok ⟨"c", 162⟩ ∧
    162 ≤ 164 := by
  have hmonotone := monotoneOutput_of_feesAre feesAre_feeRoute
  have hpaid : feeRoute.tokenOut ⟨"a", 200⟩ = .ok ⟨"c", 164⟩ := by decide +kernel
  have hless : dearRoute.tokenOut ⟨"a", 200⟩ = .ok ⟨"c", 162⟩ := by decide +kernel
  exact ⟨feesAre_feeRoute, hmonotone, hpaid, hless,
    hmonotone.fees dearRoute ⟨"a", 200⟩ _ _ feeRoute_noDearer feesAre_dearRoute hpaid hless⟩

end Route

end SwapRouting
