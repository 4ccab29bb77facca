import SwapRouting.Split.Rebalance

/-! The split of an order over its ranked routes. It is kept only where it beats the best route
alone. Routes that need a call to the chain are never part of a split. -/
namespace SwapRouting
set_option autoImplicit false

/-- The sum of amounts, held in 128 bits. -/
def Amount.total (amounts : List Nat) : Nat := amounts.foldr (· + ·) 0 % Amount.bound

def totalIn (qs : List QuotedRoute) : Nat := Amount.total (qs.map (·.amountIn))

def totalOut (qs : List QuotedRoute) : Nat := Amount.total (qs.map (·.amountOut))

/-- The routes that a split may use, best first. -/
def splittable (limits : SplitLimits) (ranked : List QuotedRoute) : List Route :=
  ((ranked.map (·.route)).filter fun r => !r.isGeneralized).take limits.maxRoutes

/-- Quotes the shares other than zero again. -/
def requote (order : SwapOrder) : List Leg → Except RouterError (List QuotedRoute)
  | [] => .ok []
  | l :: r =>
    if l.share = 0 then requote order r
    else
      match l.route.quoteFor order.method order.denomIn l.share with
      | .error .decimalRange => .error .decimalRange
      | .error _ => .error (.requoteFailed l.share)
      | .ok q => (requote order r).map (q :: ·)

/-- Whether the quotes take or pay the whole amount of the order. -/
def conserves (order : SwapOrder) (qs : List QuotedRoute) : Bool :=
  match order.method with
  | .exactIn => totalIn qs == order.amount
  | .exactOut => decide (order.amount ≤ totalOut qs)

/-- Whether the quotes together are strictly better than `best`. -/
def beats (order : SwapOrder) (qs : List QuotedRoute) (best : QuotedRoute) : Bool :=
  match order.method with
  | .exactIn => decide (best.amountOut < totalOut qs)
  | .exactOut => decide (totalIn qs < best.amountIn)

/-- The quotes of a balance, or the best route alone if it is no worse. -/
def settle (order : SwapOrder) (best : QuotedRoute) (b : Balance) :
    Except RouterError (List QuotedRoute) := do
  let qs ← requote order b.legs
  if !conserves order qs then .error .notConserved
  else if decide (1 < qs.length) && beats order qs best then .ok qs
  else .ok [best]

/-- The order shared among the ranked routes. -/
def optimize (ctx : Context) (limits : SplitLimits) (order : SwapOrder)
    (ranked : List QuotedRoute) : Except RouterError (List QuotedRoute) × Journal :=
  match ranked with
  | [] => (.error .noRankedRoutes, [])
  | best :: _ =>
    if limits.maxRoutes ≤ 1 ∨ order.amount < 2 then (.ok [best], [])
    else
      let routes := splittable limits ranked
      if routes.length < 2 then (.ok [best], [])
      else
        let balanced := rebalance ctx limits order routes
        match balanced.1 with
        | .error e => (.error e, balanced.2)
        | .ok none => (.ok [best], balanced.2)
        | .ok (some b) => (settle order best b, balanced.2)

end SwapRouting
