import SwapRouting.Format.Records
import SwapRouting.Split.Optimize

/-! Quotes: the answer to a request, with its splits and the fee and prices derived from them.

Fees and prices of the splits are weighted by their shares of the input. The price impact compares the
realized price with the price before the trade. -/
namespace SwapRouting
set_option autoImplicit false

structure Quote where
  method : SwapMethod
  amountIn : Coin
  /-- With a fixed output this is the amount asked for; the splits together may pay more. -/
  amountOut : Coin
  splits : List QuotedRoute
  effectiveFee : Decimal
  priceImpact : Decimal
  /-- The price before the trade in display units, the input as the base. -/
  spotPrice : Decimal
deriving Repr, DecidableEq

namespace Quote

/-- The pools of every split. -/
def poolIds (q : Quote) : List (List Nat) := q.splits.map fun s => s.route.poolIds

/-- Weighted sums over the splits. -/
structure Averages where
  fee : Decimal
  spot : Decimal
  effective : Decimal
deriving Repr, DecidableEq

/-- The fee of these averages with that of a route added, which takes the part `share` of the
input; none where this leaves the range of decimals. -/
def Averages.addFee? (a : Averages) (share : Decimal) (r : Route) : Option Decimal := do
  let fee ← r.totalFee
  let weighted ← fee.mul? share
  a.fee.add? weighted

/-- The averages with the fee `fee` and with the prices of a split added. -/
def Averages.addPrices (a : Averages) (share fee : Decimal) (p : RouteQuote) : Averages where
  fee := fee
  spot := a.spot.addSaturating (p.spotPrice.mulSaturating share)
  effective := a.effective.addSaturating (p.effectivePrice.mulSaturating share)

/-- The averages with these splits added, which take their amounts out of `total`. -/
def average (denomIn : Denom) (total : Nat) (a : Averages) :
    List QuotedRoute → Except RouterError Averages × Journal
  | [] => (.ok a, [])
  | s :: rest =>
    let share := (Amount.ratio s.amountIn total).getD Decimal.zero
    match a.addFee? share s.route with
    | none => (.error .decimalRange, [])
    | some fee =>
      let quoted := s.route.quote ⟨denomIn, s.amountIn⟩
      match quoted.1 with
      | .error e => (.error e, quoted.2)
      | .ok p =>
        let others := average denomIn total (a.addPrices share fee p) rest
        (others.1, quoted.2 ++ others.2)

/-- How far the realized price lies above the price before the trade, in parts of the latter; none
where this leaves the range of decimals. -/
def impact? (spot effective : Decimal) : Option Decimal :=
  if spot.isZero then some Decimal.zero
  else
    match effective.div? spot with
    | none => some Decimal.zero
    | some r => r.sub? Decimal.one

/-- The quote of these splits, with prices scaled by `scaling`. -/
def prepare (method : SwapMethod) (denomIn denomOut : Denom) (scaling : Decimal)
    (splits : List QuotedRoute) : Except RouterError Quote × Journal :=
  let start : Averages := ⟨Decimal.zero, Decimal.zero, Decimal.zero⟩
  let averaged := average denomIn (totalIn splits) start splits
  let quote := do
    let a ← averaged.1
    let impact ← orError .decimalRange (impact? a.spot a.effective)
    .ok {
      method := method
      amountIn := ⟨denomIn, totalIn splits⟩
      amountOut := ⟨denomOut, totalOut splits⟩
      splits := splits
      effectiveFee := a.fee
      priceImpact := impact
      spotPrice := a.spot.mulSaturating scaling }
  (quote, averaged.2)

/-- The quote for a request: a fixed output is stated as it was asked for. -/
def fixed (amount : Nat) (q : Quote) : Quote :=
  match q.method with
  | .exactIn => q
  | .exactOut => { q with amountOut := { q.amountOut with amount := amount } }

end Quote

/-! ## Written form -/

open Json

def RouteHop.toJson (h : RouteHop) : Value :=
  Value.record [
    ("id", .ofNat h.pool.id),
    ("type", .ofString h.pool.kind.label),
    ("code_id", match h.pool.kind.codeId? with
      | some n => .ofNat n
      | none => .null),
    ("spread_factor", .ofDecimal h.pool.spread),
    ("token_out_denom", .ofString h.denomOut),
    ("taker_fee", .ofDecimal h.takerFee)]

def QuotedRoute.toJson (s : QuotedRoute) : Value :=
  Value.record [
    ("pools", .ofList RouteHop.toJson s.route.hops),
    ("has-cw-pool", .bool s.route.isGeneralized),
    ("in_amount", .ofNat s.amountIn),
    ("out_amount", .ofNat s.amountOut)]

def Quote.toJson (q : Quote) : Value :=
  Value.record [
    ("method", .ofString q.method.name),
    ("amount_in", q.amountIn.toJson),
    ("amount_out", q.amountOut.toJson),
    ("route", .ofList QuotedRoute.toJson q.splits),
    ("effective_fee", .ofDecimal q.effectiveFee),
    ("price_impact", .ofDecimal q.priceImpact),
    ("in_base_out_quote_spot_price", .ofDecimal q.spotPrice)]

end SwapRouting
