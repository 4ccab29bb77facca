import SwapRouting.Amount
import SwapRouting.Outcome

/-! Swap curves: what a pool pays for an input, and its price before the trade.

A curve carries the reserves it was built from and changes nothing. The taker fee is charged in front
of the curve. All arithmetic stays below 2 ^ 128 or fails. -/
namespace SwapRouting
set_option autoImplicit false

/-- Why a pool cannot trade. -/
inductive SwapError where
  | insufficientLiquidity (pool : Nat) (denom : Denom)
  | denomNotInPool (pool : Nat) (denom : Denom)
  | overflow (pool : Nat)
  | other (pool : Nat) (reason : String)
  /-- One minus a fee or a spread is out of the range of decimals. -/
  | decimalRange
deriving DecidableEq, Repr, Inhabited

def SwapError.message : SwapError → String
  | insufficientLiquidity pool denom =>
    "pool " ++ pool.repr ++ ": insufficient liquidity for " ++ denom
  | denomNotInPool pool denom => "pool " ++ pool.repr ++ ": denom " ++ denom ++ " not in pool"
  | overflow pool => "pool " ++ pool.repr ++ ": arithmetic overflow"
  | other pool reason => "pool " ++ pool.repr ++ ": " ++ reason
  | decimalRange => "decimal out of range"

inductive Curve where
  /-- The product of the two reserves never falls; the spread is taken from the input. -/
  | constantProduct (pool : Nat) (reserves : List Coin) (spread : Decimal)
  /-- One unit for one unit, as far as the balance of the output goes. -/
  | transmuter (pool : Nat) (balances : List Coin)
  /-- Trades like `constantProduct` and has no price before the trade. -/
  | unpriced (pool : Nat) (reserves : List Coin) (spread : Decimal)
deriving DecidableEq, Repr

/-- The amount of the first coin with this denom. -/
def balanceOf (pool : Nat) (coins : List Coin) (denom : Denom) : Except SwapError Nat :=
  orError (.denomNotInPool pool denom) ((coins.find? fun c => c.denom == denom).map (·.amount))

/-- The part of `amount` that is left after the share `fee` is taken. -/
def retain (pool amount : Nat) (fee : Decimal) : Except SwapError Nat := do
  let share ← orError .decimalRange (Decimal.one.sub? fee)
  orError (.overflow pool) (Amount.mulFloor amount share)

/-- The input left after the taker fee. -/
def chargeTakerFee (amount : Nat) (fee : Decimal) : Except SwapError Nat := retain 0 amount fee

namespace Curve

/-- The output of a constant product for the input left after the spread. -/
def productOut (pool reserveIn reserveOut amountIn : Nat) : Except SwapError Nat := do
  let numerator ← orError (.overflow pool) (Amount.checked (reserveOut * amountIn))
  let denominator ← orError (.overflow pool) (Amount.checked (reserveIn + amountIn))
  .ok (numerator / denominator)

def productSwap (pool : Nat) (reserves : List Coin) (spread : Decimal) (tokenIn : Coin)
    (denomOut : Denom) : Except SwapError Nat := do
  let reserveIn ← balanceOf pool reserves tokenIn.denom
  let reserveOut ← balanceOf pool reserves denomOut
  if reserveIn = 0 ∨ reserveOut = 0 then .error (.insufficientLiquidity pool denomOut)
  else do
    let amountIn ← retain pool tokenIn.amount spread
    productOut pool reserveIn reserveOut amountIn

def transmute (pool : Nat) (balances : List Coin) (tokenIn : Coin) (denomOut : Denom) :
    Except SwapError Nat := do
  let _ ← balanceOf pool balances tokenIn.denom
  let available ← balanceOf pool balances denomOut
  if available < tokenIn.amount then .error (.insufficientLiquidity pool denomOut)
  else .ok tokenIn.amount

/-- How much of `denomOut` the pool pays for `tokenIn`. -/
def swap (c : Curve) (tokenIn : Coin) (denomOut : Denom) : Except SwapError Nat :=
  match c with
  | constantProduct pool reserves spread => productSwap pool reserves spread tokenIn denomOut
  | transmuter pool balances => transmute pool balances tokenIn denomOut
  | unpriced pool reserves spread => productSwap pool reserves spread tokenIn denomOut

/-- The reserve of the quote over the reserve of the base. -/
def productPrice (pool : Nat) (reserves : List Coin) (base quote : Denom) :
    Except SwapError Decimal := do
  let b ← balanceOf pool reserves base
  let q ← balanceOf pool reserves quote
  if b = 0 then .error (.insufficientLiquidity pool base)
  else orError (.overflow pool) (Amount.ratio q b)

/-- The price of one unit of `base` in `quote` before a trade. -/
def spotPrice (c : Curve) (base quote : Denom) : Except SwapError Decimal :=
  match c with
  | constantProduct pool reserves _ => productPrice pool reserves base quote
  | transmuter pool balances => do
    let _ ← balanceOf pool balances base
    let _ ← balanceOf pool balances quote
    .ok Decimal.one
  | unpriced pool _ _ => .error (.other pool "no spot")

end Curve

end SwapRouting
