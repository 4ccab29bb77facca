import SwapRouting.Proofs.Route.LeastInput

/-! When an input is found for a wanted output.

The search tries the wanted output itself, then twice, four times, … that amount of the input's denom, and
gives up at the first of these that cannot be traded: a cheap denom in front of a shallow pool hides every
input below. Where the doubling reaches an input that pays enough nothing below it stands in the way, as
long as no fee has more than 19 places: what can be traded can then be traded in every smaller amount. -/
namespace SwapRouting
set_option autoImplicit false

/-! ## Smaller amounts -/

/-- Whether every amount below one with a value has a value. -/
def DownClosed {ε : Type} (f : Nat → Except ε Nat) : Prop :=
  ∀ ⦃a b n : Nat⦄, a ≤ b → f b = .ok n → ∃ m, f a = .ok m

section
variable {ε : Type} {f g : Nat → Except ε Nat}

theorem DownClosed.ok : DownClosed fun n => (.ok n : Except ε Nat) := fun a _ _ _ _ => ⟨a, rfl⟩

/-- The second step gets a smaller amount from the first, if that one grows. -/
theorem DownClosed.bind (hf : DownClosed f) (hgrows : Grows f) (hg : DownClosed g) :
    DownClosed fun n => f n >>= g := by
  intro a b n hle hb
  obtain ⟨y, hy, hn⟩ := bind_eq_ok_iff.1 hb
  obtain ⟨x, hx⟩ := hf hle hy
  obtain ⟨m, hm⟩ := hg (hgrows hle hx hy) hn
  exact ⟨m, bind_eq_ok_iff.2 ⟨x, hx, hm⟩⟩

end

/-- A share with at most 19 places. -/
structure Decimal.IsShortShare (a : Decimal) : Prop where
  inUnit : a.InUnit
  scale_le : a.scale ≤ 19

theorem downClosed_retain (pool : Nat) {fee : Decimal} (hfee : fee.IsShortShare) :
    DownClosed fun amount => retain pool amount fee := by
  intro a b n hle hb
  obtain ⟨share, hshare, hn⟩ := mulFloor_of_retain_eq_ok hb
  obtain ⟨share', hshare', hunits⟩ := hfee.inUnit.one_sub?_units
  rw [hshare, Option.some.injEq] at hshare'
  subst hshare'
  have hunit : share.units ≤ Decimal.unit := by
    have hnonneg := hfee.inUnit.units_nonneg
    omega
  have hscale : share.scale ≤ 19 :=
    (Decimal.scale_le_of_sub? hshare).trans (Nat.max_le.2 ⟨Nat.zero_le _, hfee.scale_le⟩)
  obtain ⟨m, hm⟩ := Amount.mulFloor_isSome_of_le hle hunit hscale ⟨n, hn⟩
  refine ⟨m, ?_⟩
  show retain pool a fee = .ok m
  rw [retain, hshare]
  exact orError_eq_ok_iff.2 hm

namespace Curve

/-- Whether the spread that the curve takes, if it takes one, is as wanted. -/
def SpreadIs (P : Decimal → Prop) : Curve → Prop
  | constantProduct _ _ spread => P spread
  | transmuter _ _ => True
  | unpriced _ _ spread => P spread

instance (P : Decimal → Prop) [DecidablePred P] (c : Curve) : Decidable (c.SpreadIs P) :=
  match c with
  | constantProduct _ _ spread => inferInstanceAs (Decidable (P spread))
  | transmuter _ _ => inferInstanceAs (Decidable True)
  | unpriced _ _ spread => inferInstanceAs (Decidable (P spread))

theorem downClosed_productOut (pool reserveIn reserveOut : Nat) :
    DownClosed (productOut pool reserveIn reserveOut) := by
  intro a b n hle hb
  obtain ⟨numerator, hnumerator, hb⟩ := bind_eq_ok_iff.1 hb
  obtain ⟨denominator, hdenominator, -⟩ := bind_eq_ok_iff.1 hb
  obtain ⟨-, hproduct⟩ := Amount.checked_eq_some_iff.1 (orError_eq_ok_iff.1 hnumerator)
  obtain ⟨-, hsum⟩ := Amount.checked_eq_some_iff.1 (orError_eq_ok_iff.1 hdenominator)
  have hmul : reserveOut * a ≤ reserveOut * b := Nat.mul_le_mul_left _ hle
  refine ⟨reserveOut * a / (reserveIn + a), bind_eq_ok_iff.2 ⟨reserveOut * a, ?_, ?_⟩⟩
  · exact orError_eq_ok_iff.2 (Amount.checked_eq_some_iff.2 ⟨rfl, by omega⟩)
  · refine bind_eq_ok_iff.2 ⟨reserveIn + a, ?_, rfl⟩
    exact orError_eq_ok_iff.2 (Amount.checked_eq_some_iff.2 ⟨rfl, by omega⟩)

theorem downClosed_productSwap (pool : Nat) (reserves : List Coin) {spread : Decimal}
    (hspread : spread.IsShortShare) (denomIn denomOut : Denom) :
    DownClosed fun amount => productSwap pool reserves spread ⟨denomIn, amount⟩ denomOut := by
  intro a b n hle hb
  obtain ⟨reserveIn, hin, hb⟩ := bind_eq_ok_iff.1 hb
  obtain ⟨reserveOut, hout, hb⟩ := bind_eq_ok_iff.1 hb
  simp only at hin hout hb
  split at hb
  · cases hb
  · next hfilled =>
    obtain ⟨m, hm⟩ := (downClosed_retain pool hspread).bind (grows_retain pool spread)
      (downClosed_productOut pool reserveIn reserveOut) hle hb
    refine ⟨m, bind_eq_ok_iff.2 ⟨reserveIn, hin, bind_eq_ok_iff.2 ⟨reserveOut, hout, ?_⟩⟩⟩
    rw [if_neg hfilled]
    exact hm

theorem downClosed_transmute (pool : Nat) (balances : List Coin) (denomIn denomOut : Denom) :
    DownClosed fun amount => transmute pool balances ⟨denomIn, amount⟩ denomOut := by
  intro a b n hle hb
  obtain ⟨balance, hin, hb⟩ := bind_eq_ok_iff.1 hb
  obtain ⟨available, hout, hb⟩ := bind_eq_ok_iff.1 hb
  simp only at hin hb
  split at hb
  · cases hb
  · next henough =>
    refine ⟨a, bind_eq_ok_iff.2 ⟨balance, hin, bind_eq_ok_iff.2 ⟨available, hout, ?_⟩⟩⟩
    rw [if_neg (show ¬ available < a by omega)]

theorem downClosed_swap {c : Curve} (hspread : c.SpreadIs Decimal.IsShortShare)
    (denomIn denomOut : Denom) : DownClosed fun amount => c.swap ⟨denomIn, amount⟩ denomOut := by
  cases c with
  | constantProduct pool reserves spread =>
    exact downClosed_productSwap pool reserves hspread denomIn denomOut
  | transmuter pool balances => exact downClosed_transmute pool balances denomIn denomOut
  | unpriced pool reserves spread =>
    exact downClosed_productSwap pool reserves hspread denomIn denomOut

end Curve

/-- Whether the taker fee of the hop and the spread of its curve are as wanted. -/
def RouteHop.FeesAre (P : Decimal → Prop) (h : RouteHop) : Prop :=
  P h.takerFee ∧ h.pool.curve.SpreadIs P

instance (P : Decimal → Prop) [DecidablePred P] (h : RouteHop) : Decidable (h.FeesAre P) :=
  inferInstanceAs (Decidable (P h.takerFee ∧ h.pool.curve.SpreadIs P))

theorem downClosed_tradeThrough {hops : List RouteHop}
    (hfees : ∀ h ∈ hops, h.FeesAre Decimal.IsShortShare) (denomIn : Denom) :
    DownClosed fun amount => tradeThrough denomIn amount hops := by
  induction hops generalizing denomIn with
  | nil => exact DownClosed.ok
  | cons h rest ih =>
    obtain ⟨htaker, hspread⟩ := hfees h (List.mem_cons_self ..)
    have hrest := ih fun x hx => hfees x (List.mem_cons_of_mem h hx)
    simp only [tradeThrough_cons]
    exact (downClosed_retain 0 htaker).bind (grows_retain 0 h.takerFee)
      ((Curve.downClosed_swap hspread denomIn h.denomOut).bind
        (h.pool.curve.grows_swap denomIn h.denomOut) (hrest h.denomOut))

namespace Route

/-! ## The search -/

section
variable {buys : Nat → Except SwapError Nat} {tooLarge : SwapError} {target : Nat}

/-- Doubling ends at a power of two times the input it starts from, below the bound unless it ends at
once. -/
theorem bracket_doubles {lo hi : Nat} {w : Nat × Nat}
    (h : bracket buys tooLarge target lo hi = .ok w) :
    ∃ k, w.2 = 2 ^ k * hi ∧ (k = 0 ∨ w.2 < inputBound) := by
  refine bracket_induction
    (motive := fun _ hi w => ∃ k, w.2 = 2 ^ k * hi ∧ (k = 0 ∨ w.2 < inputBound)) ?_ ?_ h
  · exact fun lo hi out _ _ => ⟨0, by rw [Nat.pow_zero, Nat.one_mul], Or.inl rfl⟩
  · rintro lo hi out w - - - hbound ⟨k, hk, hlast⟩
    refine ⟨k + 1, by rw [hk, Nat.pow_succ, Nat.mul_assoc], Or.inr ?_⟩
    rcases hlast with rfl | hlast
    · rw [hk, Nat.pow_zero, Nat.one_mul]
      exact hbound
    · exact hlast

/-- Doubling ends if nothing up to an input that pays enough fails. -/
theorem bracket_isOk {lo hi k : Nat} (hpos : 0 < hi)
    (hpays : ∃ out, buys (2 ^ k * hi) = .ok out ∧ target ≤ out)
    (htrades : ∀ m < 2 ^ k * hi, ∃ out, buys m = .ok out)
    (hbound : k = 0 ∨ 2 ^ k * hi < inputBound) :
    ∃ w, bracket buys tooLarge target lo hi = .ok w ∧ w.2 ≤ 2 ^ k * hi := by
  induction k generalizing lo hi with
  | zero =>
    obtain ⟨out, hout, hle⟩ := hpays
    rw [Nat.pow_zero, Nat.one_mul] at hout ⊢
    exact ⟨(lo, hi), by rw [bracket, hout]; simp only [hle, if_true], Nat.le_refl _⟩
  | succ k ih =>
    have hdouble : 2 ^ (k + 1) * hi = 2 ^ k * (2 * hi) := by rw [Nat.pow_succ, Nat.mul_assoc]
    have hpower : 0 < 2 ^ k := Nat.pow_pos (by decide)
    have hreach : 2 * hi ≤ 2 ^ k * (2 * hi) := Nat.le_mul_of_pos_left _ hpower
    rw [hdouble] at hpays htrades hbound ⊢
    obtain ⟨out, hout⟩ := htrades hi (by omega)
    rw [bracket, hout]
    by_cases hle : target ≤ out
    · exact ⟨(lo, hi), by simp only [hle, if_true], by show hi ≤ _; omega⟩
    · have hsmall : 2 ^ k * (2 * hi) < inputBound := by
        rcases hbound with hzero | hsmall
        · omega
        · exact hsmall
      have hnext : 0 < hi ∧ 2 * hi < inputBound := ⟨hpos, by omega⟩
      simp only [hle, if_false, hnext, and_self, dite_true]
      exact ih (by omega) hpays htrades (Or.inr hsmall)

/-- Halving a window never fails if nothing below its upper end does. -/
theorem bisect_isOk {lo hi : Nat} (htrades : ∀ m < hi, ∃ out, buys m = .ok out) :
    ∃ n, bisect buys target lo hi = .ok n := by
  induction lo, hi using bisect.induct buys target with
  | case1 lo hi hgap =>
    rw [bisect]
    exact ⟨hi, dif_pos hgap⟩
  | case2 lo hi hgap e he =>
    obtain ⟨out, hout⟩ := htrades (lo + (hi - lo) / 2) (by omega)
    rw [he] at hout
    cases hout
  | case3 lo hi hgap out he hle ih =>
    rw [bisect]
    simp only [hgap, dite_false, he, hle, if_true]
    exact ih fun m hm => htrades m (by omega)
  | case4 lo hi hgap out he hle ih =>
    rw [bisect]
    simp only [hgap, dite_false, he, hle, if_false]
    exact ih htrades

end

/-! ## Routes -/

/-- Whether the route can trade an amount. -/
def Trades (r : Route) (denomIn : Denom) (n : Nat) : Prop := ∃ out, r.amountOut denomIn n = .ok out

/-- Whether the route pays at least the target for an amount. -/
def Pays (r : Route) (denomIn : Denom) (target n : Nat) : Prop :=
  ∃ out, r.amountOut denomIn n = .ok out ∧ target ≤ out

/-- Whether the taker fees and spreads along the route are as wanted. -/
def FeesAre (P : Decimal → Prop) (r : Route) : Prop := ∀ h ∈ r.hops, h.FeesAre P

instance (P : Decimal → Prop) [DecidablePred P] (r : Route) : Decidable (r.FeesAre P) :=
  inferInstanceAs (Decidable (∀ h ∈ r.hops, h.FeesAre P))

/-- Whether the target, doubled `k` times, stays in bounds and can be traded, and is no smaller than an
input that pays the target. -/
structure ReachedBy (r : Route) (denomIn : Denom) (target k : Nat) : Prop where
  bound : k = 0 ∨ 2 ^ k * target < inputBound
  trades : r.Trades denomIn (2 ^ k * target)
  covers : ∃ n ≤ 2 ^ k * target, r.Pays denomIn target n

/-- When an input for the target is found: only if a doubling of the target reaches one that pays it, and
always if no smaller amount fails. For short fees no smaller amount does, and an input that pays is always
reached if twice as much and the target itself can be traded. -/
structure FoundByDoubling (r : Route) (denomIn : Denom) (target : Nat) : Prop where
  necessary : ∀ n, r.requiredInput denomIn target = .ok n → ∃ k, r.ReachedBy denomIn target k
  sufficient : ∀ k, r.ReachedBy denomIn target k →
    (∀ m < 2 ^ k * target, r.Trades denomIn m) → ∃ n, r.requiredInput denomIn target = .ok n
  complete : r.FeesAre Decimal.IsShortShare → ∀ k, r.ReachedBy denomIn target k →
    ∃ n, r.requiredInput denomIn target = .ok n
  nearby : r.FeesAre Decimal.IsShortShare → ∀ n, r.Pays denomIn target n → 2 * n ≤ inputBound →
    r.Trades denomIn (max target (2 * n)) → ∃ n, r.requiredInput denomIn target = .ok n

variable {r : Route} {denomIn : Denom} {target : Nat}

theorem downClosed_amountOut (hfees : r.FeesAre Decimal.IsShortShare) (denomIn : Denom) :
    DownClosed (r.amountOut denomIn) :=
  downClosed_tradeThrough hfees denomIn

/-- A larger amount pays no less, so the doubling that reaches an input that pays pays as well. -/
theorem ReachedBy.pays {k : Nat} (h : r.ReachedBy denomIn target k) :
    r.Pays denomIn target (2 ^ k * target) := by
  obtain ⟨n, hle, out, hout, henough⟩ := h.covers
  obtain ⟨out', hout'⟩ := h.trades
  exact ⟨out', hout', henough.trans (r.grows_amountOut denomIn hle hout hout')⟩

theorem reachedBy_of_requiredInput (htarget : 0 < target) {n : Nat}
    (h : r.requiredInput denomIn target = .ok n) : ∃ k, r.ReachedBy denomIn target k := by
  rw [requiredInput, if_neg (by omega)] at h
  obtain ⟨w, hw, -⟩ := bind_eq_ok_iff.1 h
  obtain ⟨k, hk, hbound⟩ := bracket_doubles hw
  obtain ⟨out, hout, hle⟩ := bracket_buys hw
  rw [hk] at hbound hout
  exact ⟨k, hbound, ⟨out, hout⟩, 2 ^ k * target, Nat.le_refl _, out, hout, hle⟩

theorem requiredInput_isOk (htarget : 0 < target) {k : Nat} (h : r.ReachedBy denomIn target k)
    (htrades : ∀ m < 2 ^ k * target, r.Trades denomIn m) :
    ∃ n, r.requiredInput denomIn target = .ok n := by
  have hbracket : ∃ w, bracket (r.amountOut denomIn) r.tooDeep target 0 target = .ok w ∧
      w.2 ≤ 2 ^ k * target := bracket_isOk htarget h.pays htrades h.bound
  obtain ⟨w, hw, hle⟩ := hbracket
  have hbisect : ∃ n, bisect (r.amountOut denomIn) target w.1 w.2 = .ok n :=
    bisect_isOk fun m hm => htrades m (lt_of_lt_of_le hm hle)
  obtain ⟨n, hn⟩ := hbisect
  refine ⟨n, ?_⟩
  rw [requiredInput, if_neg (by omega)]
  exact bind_eq_ok_iff.2 ⟨w, hw, hn⟩

/-- Doubling an amount until it reaches `n` ends at once or below twice `n`. -/
theorem exists_doubling (htarget : 0 < target) (n : Nat) :
    ∃ k, n ≤ 2 ^ k * target ∧ (k = 0 ∨ 2 ^ k * target < 2 * n) := by
  have hreached : ∃ k, n ≤ 2 ^ k * target :=
    ⟨n, Nat.lt_two_pow_self.le.trans (Nat.le_mul_of_pos_right _ htarget)⟩
  refine ⟨Nat.find hreached, Nat.find_spec hreached, ?_⟩
  cases hk : Nat.find hreached with
  | zero => exact Or.inl rfl
  | succ k =>
    have hbefore : ¬ n ≤ 2 ^ k * target := Nat.find_min hreached (by omega)
    rw [Nat.pow_succ, Nat.mul_right_comm]
    exact Or.inr (by omega)

theorem reachedBy_of_pays (hfees : r.FeesAre Decimal.IsShortShare) (htarget : 0 < target) {n : Nat}
    (hpays : r.Pays denomIn target n) (hbound : 2 * n ≤ inputBound)
    (htrades : r.Trades denomIn (max target (2 * n))) : ∃ k, r.ReachedBy denomIn target k := by
  obtain ⟨k, hreach, hk⟩ := exists_doubling htarget n
  obtain ⟨out, hout⟩ := htrades
  have hle : 2 ^ k * target ≤ max target (2 * n) := by
    rcases hk with rfl | hk
    · rw [Nat.pow_zero, Nat.one_mul]
      exact Nat.le_max_left ..
    · exact hk.le.trans (Nat.le_max_right ..)
  exact ⟨k, hk.imp_right fun hlt => lt_of_lt_of_le hlt hbound,
    downClosed_amountOut hfees denomIn hle hout, n, hreach, hpays⟩

theorem foundByDoubling_of_pos (r : Route) (denomIn : Denom) (htarget : 0 < target) :
    r.FoundByDoubling denomIn target := by
  have hcomplete : r.FeesAre Decimal.IsShortShare → ∀ k, r.ReachedBy denomIn target k →
      ∃ n, r.requiredInput denomIn target = .ok n := by
    intro hfees k hk
    obtain ⟨out, hout⟩ := hk.trades
    exact requiredInput_isOk htarget hk fun m hm => downClosed_amountOut hfees denomIn hm.le hout
  refine ⟨?_, ?_, hcomplete, ?_⟩
  · intro n hn
    exact reachedBy_of_requiredInput htarget hn
  · intro k hk htrades
    exact requiredInput_isOk htarget hk htrades
  · intro hfees n hpays hbound htrades
    obtain ⟨k, hk⟩ := reachedBy_of_pays hfees htarget hpays hbound htrades
    exact hcomplete hfees k hk

/-- For 100 out the second input that is tried, 200, pays enough. -/
theorem feeRoute_foundByDoubling :
    feeRoute.FeesAre Decimal.IsShortShare ∧ feeRoute.ReachedBy "a" 100 1 ∧
      ∃ n, feeRoute.requiredInput "a" 100 = .ok n := by
  have hthousandth : Decimal.thousandth.IsShortShare := ⟨⟨rfl, by decide⟩, by decide⟩
  have hfees : feeRoute.FeesAre Decimal.IsShortShare := by
    intro h hmem
    rcases List.mem_cons.1 hmem with rfl | hmem
    · exact ⟨hthousandth, hthousandth⟩
    · rw [List.mem_singleton.1 hmem]
      exact ⟨hthousandth, trivial⟩
  have hpaid : feeRoute.amountOut "a" 200 = .ok 164 := by decide +kernel
  have hreached : feeRoute.ReachedBy "a" 100 1 :=
    ⟨Or.inr (by decide), ⟨164, hpaid⟩, 200, by decide, 164, hpaid, by decide⟩
  exact ⟨hfees, hreached,
    (foundByDoubling_of_pos feeRoute "a" (by decide)).complete hfees 1 hreached⟩

/-- A pool that pays 50 for one, and a pool behind it with a balance of 100. -/
def steepRoute : Route where
  hops := [
    ⟨PoolRecord.constantProduct ⟨1, .constantProduct, ["a", "b"], [⟨"a", 100000⟩, ⟨"b", 5000000⟩],
      Decimal.zero, 0⟩, "b", Decimal.zero⟩,
    ⟨PoolRecord.transmuter ⟨2, .contract 1 .transmuter, ["b", "c"], [⟨"b", 100⟩, ⟨"c", 100⟩],
      Decimal.zero, 0⟩, "c", Decimal.zero⟩]
  canonicalOrderbook := false

/-- The first input that is tried for 60 out is 60, which drains the second pool; 2 would do. -/
theorem steepRoute_overshoots :
    steepRoute.FeesAre Decimal.InUnit ∧ 2 < inputBound ∧ steepRoute.Pays "a" 60 2 ∧
      steepRoute.requiredInput "a" 60 = .error (.insufficientLiquidity 2 "c") := by
  have hzero : Decimal.zero.InUnit := ⟨rfl, by decide⟩
  refine ⟨?_, by decide, ⟨99, by decide +kernel, by decide⟩, by decide +kernel⟩
  intro h hmem
  rcases List.mem_cons.1 hmem with rfl | hmem
  · exact ⟨hzero, hzero⟩
  · rw [List.mem_singleton.1 hmem]
    exact ⟨hzero, trivial⟩

end Route

end SwapRouting
