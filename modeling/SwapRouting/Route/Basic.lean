import SwapRouting.Candidate
import SwapRouting.Error
import SwapRouting.Snapshot

/-! Routes: candidate routes attached to live pools and to the taker fees of their hops.

A `Market` is what routes attach to: the pools of one block with the fees of that block. Attaching
follows the hops from the denom that goes in; it fails at the first pool that is missing, does not
hold a denom of its hop, or would swap a denom for itself. -/
namespace SwapRouting
set_option autoImplicit false

/-- The pools of a block and what the protocol charges on them. -/
structure Market where
  snapshot : PoolSnapshot
  fees : FeeTable
  /-- The taker fee of a pair without one of its own. -/
  defaultFee : Decimal
deriving Repr, DecidableEq

def Market.takerFee (m : Market) (a b : Denom) : Decimal := m.fees.feeOr a b m.defaultFee

/-- A pool, the denom it pays out and the taker fee in front of it. -/
structure RouteHop where
  pool : Pool
  denomOut : Denom
  takerFee : Decimal
deriving Repr, DecidableEq

/-- Hops through live pools, in the order of a trade. -/
structure Route where
  hops : List RouteHop
  /-- Whether a hop goes through the canonical order book of its pair. -/
  canonicalOrderbook : Bool
deriving Repr, DecidableEq

namespace Route

def length (r : Route) : Nat := r.hops.length

def isEmpty (r : Route) : Bool := r.hops.isEmpty

def poolIds (r : Route) : List Nat := r.hops.map fun h => h.pool.id

def poolIdSum (r : Route) : Nat := r.poolIds.foldr (· + ·) 0

/-- The denom the route ends in. -/
def denomOut? (r : Route) : Option Denom := r.hops.getLast?.map (·.denomOut)

/-- Whether a hop needs a call to the chain for every quote. -/
def isGeneralized (r : Route) : Bool := r.hops.any fun h => h.pool.kind.isGeneralized

/-- The route without its pools and fees. -/
def candidate (r : Route) : CandidateRoute := ⟨r.hops.map fun h => ⟨h.pool.id, h.denomOut⟩⟩

end Route

namespace Market

/-- The hop that pays `h.denomOut` for `denomIn`. -/
def attachHop (m : Market) (denomIn : Denom) (h : Hop) : Except RouterError RouteHop :=
  match m.snapshot.get? h.pool with
  | none => .error (.poolNotFound h.pool)
  | some pool =>
    if !pool.holds denomIn then .error (.denomNotInPool denomIn h.pool)
    else if !pool.holds h.denomOut then .error (.denomNotInPool h.denomOut h.pool)
    else if denomIn = h.denomOut then .error (.selfSwap h.pool denomIn)
    else .ok ⟨pool, h.denomOut, m.takerFee denomIn h.denomOut⟩

def attachHops (m : Market) (denomIn : Denom) : List Hop → Except RouterError (List RouteHop)
  | [] => .ok []
  | h :: r => do
    let hop ← m.attachHop denomIn h
    let rest ← m.attachHops h.denomOut r
    .ok (hop :: rest)

/-- Whether a hop goes through the canonical order book of its pair. -/
def usesCanonicalOrderbook (m : Market) (hops : List RouteHop) : Bool :=
  hops.any fun h => h.pool.kind.isOrderbook && m.snapshot.isCanonicalOrderbook h.pool.id

/-- The candidate with its pools and fees, starting from `denomIn`. -/
def attach (m : Market) (denomIn : Denom) (c : CandidateRoute) : Except RouterError Route :=
  if c.isEmpty then .error .emptyRoute
  else do
    let hops ← m.attachHops denomIn c.hops
    .ok ⟨hops, m.usesCanonicalOrderbook hops⟩

end Market

end SwapRouting
