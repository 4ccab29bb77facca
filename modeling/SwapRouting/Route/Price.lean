import SwapRouting.Metrics
import SwapRouting.Route.Trade

/-! Prices and fees along a route.

`price` quotes a route for an input: the output, the product of the prices before the trade, and the
product of the prices that the hops realized. A price that cannot be told counts as zero and is
recorded in the journal; a swap that fails makes the whole quote fail. -/
namespace SwapRouting
set_option autoImplicit false

structure RouteQuote where
  tokenOut : Coin
  /-- The product of the prices before the trade, one unit of the input as the base. -/
  spotPrice : Decimal
  /-- The product of output over charged input. -/
  effectivePrice : Decimal
deriving Repr, DecidableEq

def RouteQuote.amountOut (q : RouteQuote) : Nat := q.tokenOut.amount

/-- The event of a price that could not be told. -/
def missingPrice (pool : Nat) : Option Decimal → Journal
  | some _ => []
  | none => [.spotPriceError pool]

/-- The price of a hop before a trade, if it can be told. -/
def RouteHop.spotPrice? (h : RouteHop) (denomIn : Denom) : Option Decimal :=
  (h.pool.curve.spotPrice denomIn h.denomOut).toOption

/-- Quotes the hops for `amount` of `denomIn`, behind hops with the prices `spot` and `effective`. -/
def priceThrough (denomIn : Denom) (amount : Nat) (spot effective : Decimal) :
    List RouteHop → Except SwapError RouteQuote × Journal
  | [] => (.ok ⟨⟨denomIn, amount⟩, spot, effective⟩, [])
  | h :: r =>
    let before := h.spotPrice? denomIn
    match h.fill denomIn amount with
    | .error e => (.error e, missingPrice h.pool.id before)
    | .ok f =>
      let realized := Amount.ratio f.amountOut f.charged
      let rest := priceThrough h.denomOut f.amountOut
        (spot.mulSaturating (before.getD Decimal.zero))
        (effective.mulSaturating (realized.getD Decimal.zero)) r
      (rest.1, missingPrice h.pool.id before ++ missingPrice h.pool.id realized ++ rest.2)

namespace Route

/-- The quote of the route for `amount` of `denomIn`. -/
def price (r : Route) (denomIn : Denom) (amount : Nat) : Except SwapError RouteQuote × Journal :=
  priceThrough denomIn amount Decimal.one Decimal.one r.hops

/-- The quote of the route for a coin, as a step of a request. -/
def quote (r : Route) (tokenIn : Coin) : Except RouterError RouteQuote × Journal :=
  let priced := r.price tokenIn.denom tokenIn.amount
  (liftSwap priced.1, priced.2)

/-- Spread and taker fee of the next hop taken from what `total` leaves. -/
def compound (total : Decimal) (h : RouteHop) : Option Decimal := do
  let hopFee ← h.pool.spread.add? h.takerFee
  let left ← Decimal.one.sub? total
  let share ← left.mul? hopFee
  total.add? share

/-- Spread and taker fee of all hops, compounded; none where a sum or a product leaves the range of
decimals. -/
def totalFee (r : Route) : Option Decimal := r.hops.foldlM compound Decimal.zero

end Route

end SwapRouting
