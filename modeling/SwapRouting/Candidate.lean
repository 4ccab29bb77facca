import SwapRouting.Amount
import SwapRouting.Dict

/-! Candidate routes: pools and denoms in the order of a trade, without any state of the pools. -/
namespace SwapRouting
set_option autoImplicit false

/-- A trade through one pool for one denom. -/
structure Hop where
  pool : Nat
  denomOut : Denom
deriving DecidableEq, Repr, Inhabited

/-- Hops in the order of a trade. -/
structure CandidateRoute where
  hops : List Hop
deriving DecidableEq, Repr, Inhabited

namespace CandidateRoute

def length (r : CandidateRoute) : Nat := r.hops.length

def isEmpty (r : CandidateRoute) : Bool := r.hops.isEmpty

/-- The denom the route ends in. -/
def denomOut? (r : CandidateRoute) : Option Denom := r.hops.getLast?.map (·.denomOut)

def poolIds (r : CandidateRoute) : List Nat := r.hops.map (·.pool)

/-- The pools of the route in ascending order, each once. -/
def poolIdSet (r : CandidateRoute) : List Nat := ascending r.poolIds

def usesPool (r : CandidateRoute) (id : Nat) : Bool := r.hops.any fun h => h.pool == id

/-- The hops back to front, each paying out the denom that went into it. -/
def backwards (denomIn : Denom) : List Hop → List Hop
  | [] => []
  | h :: r => backwards h.denomOut r ++ [⟨h.pool, denomIn⟩]

/-- The same pools from the other end; `denomIn` is the denom the route starts from. -/
def reversed (r : CandidateRoute) (denomIn : Denom) : CandidateRoute := ⟨backwards denomIn r.hops⟩

end CandidateRoute

/-- The candidate routes between two denoms and the pools they use. -/
structure CandidateRoutes where
  routes : List CandidateRoute
  /-- In ascending order, each once. -/
  poolIds : List Nat
deriving DecidableEq, Repr

namespace CandidateRoutes

def ofRoutes (routes : List CandidateRoute) : CandidateRoutes where
  routes := routes
  poolIds := ascending (routes.flatMap CandidateRoute.poolIds)

def empty : CandidateRoutes where
  routes := []
  poolIds := []

instance : Inhabited CandidateRoutes := ⟨empty⟩

def length (c : CandidateRoutes) : Nat := c.routes.length

def isEmpty (c : CandidateRoutes) : Bool := c.routes.isEmpty

/-- All routes from the other end. -/
def reversed (c : CandidateRoutes) (denomIn : Denom) : CandidateRoutes where
  routes := c.routes.map fun r => r.reversed denomIn
  poolIds := c.poolIds

end CandidateRoutes

end SwapRouting
