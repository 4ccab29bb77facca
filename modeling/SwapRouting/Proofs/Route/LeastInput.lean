import SwapRouting.Proofs.Route.Monotone
import SwapRouting.Proofs.Route.Trade

/-! The input that is found for a wanted output is the least one.

While an upper bound is doubled and while the window is halved, no input up to its lower end buys enough:
the lower end was tried and bought too little, and what is less buys no more. Once the ends are neighbours
every input below the upper end has been ruled out. -/
namespace SwapRouting
set_option autoImplicit false

namespace Route

/-- Whether no input below `n` that can be traded buys the target. -/
def NoneBelow (buys : Nat → Except SwapError Nat) (target n : Nat) : Prop :=
  ∀ m < n, ∀ out, buys m = .ok out → out < target

section
variable {buys : Nat → Except SwapError Nat} {target : Nat}

theorem NoneBelow.mono {m n : Nat} (h : NoneBelow buys target n) (hle : m ≤ n) :
    NoneBelow buys target m :=
  fun k hk => h k (Nat.lt_of_lt_of_le hk hle)

/-- An input that buys too little rules out all inputs up to it. -/
theorem NoneBelow.of_short (hgrows : Grows buys) {n out : Nat} (hout : buys n = .ok out)
    (hshort : ¬ target ≤ out) : NoneBelow buys target (n + 1) := by
  intro m hm out' hout'
  have hle := hgrows (Nat.le_of_lt_succ hm) hout' hout
  omega

theorem noneBelow_of_bracket (hgrows : Grows buys) {tooLarge : SwapError} {lo hi : Nat}
    {w : Nat × Nat} (hlo : NoneBelow buys target (lo + 1))
    (h : bracket buys tooLarge target lo hi = .ok w) : NoneBelow buys target (w.1 + 1) := by
  refine bracket_induction (motive := fun lo _ w =>
    NoneBelow buys target (lo + 1) → NoneBelow buys target (w.1 + 1)) ?_ ?_ h hlo
  · exact fun lo hi out _ _ hlo => hlo
  · exact fun lo hi out w he hshort _ _ ih _ => ih (NoneBelow.of_short hgrows he (by omega))

theorem noneBelow_of_bisect (hgrows : Grows buys) {lo hi n : Nat}
    (hlo : NoneBelow buys target (lo + 1)) (h : bisect buys target lo hi = .ok n) :
    NoneBelow buys target n := by
  refine bisect_induction (motive := fun lo _ n =>
    NoneBelow buys target (lo + 1) → NoneBelow buys target n) ?_ ?_ ?_ h hlo
  · exact fun lo hi hgap hlo => hlo.mono (by omega)
  · exact fun lo hi out n _ _ _ ih hlo => ih hlo
  · exact fun lo hi out n _ he hshort ih _ => ih (NoneBelow.of_short hgrows he (by omega))

end

variable {r : Route} {denomIn : Denom} {target n : Nat}

theorem noneBelow_of_requiredInput (htarget : 0 < target)
    (h : r.requiredInput denomIn target = .ok n) : NoneBelow (r.amountOut denomIn) target n := by
  rw [requiredInput, if_neg (by omega)] at h
  obtain ⟨w, hw, hn⟩ := bind_eq_ok_iff.1 h
  -- the window opens at zero, which buys nothing
  have hzero : NoneBelow (r.amountOut denomIn) target (0 + 1) := by
    intro m hm out hout
    have hm0 : m = 0 := by omega
    subst hm0
    rw [r.keepsZero_amountOut denomIn hout]
    exact htarget
  have hgrows := r.grows_amountOut denomIn
  exact noneBelow_of_bisect hgrows (noneBelow_of_bracket hgrows hzero hw) hn

theorem tokenOut_eq_ok_iff {tokenIn coin : Coin} :
    r.tokenOut tokenIn = .ok coin ↔ r.amountOut tokenIn.denom tokenIn.amount = .ok coin.amount ∧
      coin.denom = r.denomOut?.getD tokenIn.denom := by
  unfold tokenOut
  rw [bind_eq_ok_iff]
  constructor
  · rintro ⟨out, hout, h⟩
    cases h
    exact ⟨hout, rfl⟩
  · rintro ⟨hout, hdenom⟩
    exact ⟨coin.amount, hout, by rw [← hdenom]⟩

/-- The least input for which a route pays a target: it pays enough for this one, and too little for every
smaller one that it can trade. -/
structure LeastInput (r : Route) (denomIn : Denom) (target n : Nat) : Prop where
  pays : ∃ coin, r.tokenOut ⟨denomIn, n⟩ = .ok coin ∧ target ≤ coin.amount
  least : ∀ m < n, ∀ coin, r.tokenOut ⟨denomIn, m⟩ = .ok coin → coin.amount < target

theorem leastInput_of_requiredInput (htarget : 0 < target)
    (h : r.requiredInput denomIn target = .ok n) : LeastInput r denomIn target n := by
  constructor
  · obtain ⟨out, hout, hle⟩ := requiredInput_buys htarget h
    exact ⟨⟨r.denomOut?.getD denomIn, out⟩, tokenOut_eq_ok_iff.2 ⟨hout, rfl⟩, hle⟩
  · intro m hm coin hcoin
    exact noneBelow_of_requiredInput htarget h m hm _ (tokenOut_eq_ok_iff.1 hcoin).1

/-- A constant product with a spread behind a taker fee, and a pool that pays one for one. -/
def feeRoute : Route where
  hops := [
    ⟨PoolRecord.constantProduct ⟨1, .constantProduct, ["a", "b"], [⟨"a", 1000⟩, ⟨"b", 1000⟩],
      Decimal.thousandth, 0⟩, "b", Decimal.thousandth⟩,
    ⟨PoolRecord.transmuter ⟨2, .contract 7 .transmuter, ["b", "c"], [⟨"b", 500⟩, ⟨"c", 500⟩],
      Decimal.zero, 0⟩, "c", Decimal.thousandth⟩]
  canonicalOrderbook := false

theorem feeRoute_leastInput :
    feeRoute.requiredInput "a" 100 = .ok 115 ∧ LeastInput feeRoute "a" 100 115 := by
  have hrequired : feeRoute.requiredInput "a" 100 = .ok 115 := by decide +kernel
  exact ⟨hrequired, leastInput_of_requiredInput (by decide) hrequired⟩

end Route

end SwapRouting
