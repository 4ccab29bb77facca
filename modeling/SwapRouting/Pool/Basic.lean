import SwapRouting.Pool.Kind
import SwapRouting.Pool.Curve

/-! Pools: a record of their state, and the curve they trade on. -/
namespace SwapRouting
set_option autoImplicit false

/-- The state of a pool as it is stored and exchanged. -/
structure PoolRecord where
  id : Nat
  kind : PoolKind
  denoms : List Denom
  balances : List Coin
  /-- The pool's own fee. -/
  spread : Decimal
  /-- The value of the pool, used to filter and to rank. -/
  liquidityCap : Nat
deriving DecidableEq, Repr, Inhabited

/-- A pool that can be traded with. -/
structure Pool extends PoolRecord where
  curve : Curve
deriving DecidableEq, Repr

def PoolRecord.holds (p : PoolRecord) (denom : Denom) : Bool := p.denoms.contains denom

namespace PoolRecord

def constantProduct (p : PoolRecord) : Pool :=
  { p with curve := .constantProduct p.id p.balances p.spread }

def transmuter (p : PoolRecord) : Pool := { p with curve := .transmuter p.id p.balances }

def unpriced (p : PoolRecord) : Pool :=
  { p with curve := .unpriced p.id p.balances p.spread }

/-- The pool of a record whose trades can be computed here: constant products, and contracts listed
as transmuters. -/
def pool? (p : PoolRecord) (whitelist : CodeWhitelist) : Option Pool :=
  match p.kind with
  | .constantProduct => some p.constantProduct
  | .contract codeId _ =>
    match whitelist.role? codeId with
    | some .transmuter => some p.transmuter
    | some .alloyedTransmuter => some p.transmuter
    | _ => none
  | .stableSwap => none
  | .concentrated => none

end PoolRecord

end SwapRouting
