import SwapRouting.Route.Basic

/-! Trading along a route: every hop charges its taker fee and then swaps on its curve.

`amountOut` says what an input buys. `requiredInput` turns the question around: it doubles an upper
bound until it buys enough and then halves the window between an input that is too small and one that
is enough. -/
namespace SwapRouting
set_option autoImplicit false

/-- What a hop takes in after its fee, and what it pays out. -/
structure Fill where
  charged : Nat
  amountOut : Nat
deriving Repr, DecidableEq

def RouteHop.fill (h : RouteHop) (denomIn : Denom) (amount : Nat) : Except SwapError Fill := do
  let charged ← chargeTakerFee amount h.takerFee
  let out ← h.pool.curve.swap ⟨denomIn, charged⟩ h.denomOut
  .ok ⟨charged, out⟩

/-- What the hops pay in the end for `amount` of `denomIn`. -/
def tradeThrough (denomIn : Denom) (amount : Nat) : List RouteHop → Except SwapError Nat
  | [] => .ok amount
  | h :: r => do
    let f ← h.fill denomIn amount
    tradeThrough h.denomOut f.amountOut r

namespace Route

def amountOut (r : Route) (denomIn : Denom) (amount : Nat) : Except SwapError Nat :=
  tradeThrough denomIn amount r.hops

/-- The coin the route pays for a coin. -/
def tokenOut (r : Route) (tokenIn : Coin) : Except SwapError Coin := do
  let out ← r.amountOut tokenIn.denom tokenIn.amount
  .ok ⟨r.denomOut?.getD tokenIn.denom, out⟩

/-! ## The input for a wanted output -/

/-- Inputs from here on, 2 ^ 100, are not reached by doubling. -/
abbrev inputBound : Nat := 1267650600228229401496703205376

/-- Doubles `hi` until it buys `target`. Returns the last input that was too small and the first that
was enough. -/
def bracket (buys : Nat → Except SwapError Nat) (tooLarge : SwapError) (target lo hi : Nat) :
    Except SwapError (Nat × Nat) :=
  match buys hi with
  | .error e => .error e
  | .ok out =>
    if target ≤ out then .ok (lo, hi)
    else if _h : 0 < hi ∧ 2 * hi < inputBound then bracket buys tooLarge target hi (2 * hi)
    else .error tooLarge
termination_by inputBound - hi
decreasing_by omega

/-- Halves the window between `lo`, too small, and `hi`, enough, until they are neighbours. -/
def bisect (buys : Nat → Except SwapError Nat) (target lo hi : Nat) : Except SwapError Nat :=
  if _h : hi - lo ≤ 1 then .ok hi
  else
    match buys (lo + (hi - lo) / 2) with
    | .error e => .error e
    | .ok out =>
      if target ≤ out then bisect buys target lo (lo + (hi - lo) / 2)
      else bisect buys target (lo + (hi - lo) / 2) hi
termination_by hi - lo
decreasing_by all_goals omega

/-- The error of a route that no input within bounds makes pay enough. -/
def tooDeep (r : Route) : SwapError :=
  .insufficientLiquidity (r.poolIds.head?.getD 0) (r.denomOut?.getD "")

/-- The smallest input that buys at least `target`, if the output grows with the input. -/
def requiredInput (r : Route) (denomIn : Denom) (target : Nat) : Except SwapError Nat :=
  if target = 0 then .ok 0
  else do
    let (lo, hi) ← bracket (r.amountOut denomIn) r.tooDeep target 0 target
    bisect (r.amountOut denomIn) target lo hi

end Route

end SwapRouting
