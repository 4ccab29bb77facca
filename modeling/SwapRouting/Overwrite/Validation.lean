import SwapRouting.Candidate
import SwapRouting.Error
import SwapRouting.Snapshot

/-! Checking pinned routes against the pools of a block.

All faults are collected: no routes at all, a route without pools, a pool that is missing or repeated
within its route, a denom that a pool does not hold, and a route that ends in another denom than the
first one. -/
namespace SwapRouting
set_option autoImplicit false

/-- The fault of a denom that the pool does not hold. -/
def denomViolations (route : Nat) (p : Pool) (denom : Denom) : List OverwriteViolation :=
  if p.holds denom then [] else [.denomNotInPool route p.id denom]

/-- The faults of one hop. -/
def hopViolations (s : PoolSnapshot) (route : Nat) (seen : List Nat) (denomIn : Denom) (h : Hop) :
    List OverwriteViolation :=
  (if seen.contains h.pool then [.repeatedPool route h.pool] else [])
    ++ (match s.get? h.pool with
      | none => [.poolNotFound route h.pool]
      | some p => denomViolations route p denomIn ++ denomViolations route p h.denomOut)

/-- The faults of the hops behind those through the pools `seen`. -/
def hopsViolations (s : PoolSnapshot) (route : Nat) (seen : List Nat) (denomIn : Denom) :
    List Hop → List OverwriteViolation
  | [] => []
  | h :: r =>
    hopViolations s route seen denomIn h ++ hopsViolations s route (h.pool :: seen) h.denomOut r

/-- The fault of a route that ends in another denom than expected. -/
def endViolations (route : Nat) (expected? : Option Denom) (actual : Denom) :
    List OverwriteViolation :=
  match expected? with
  | some expected => if expected = actual then [] else [.denomOutMismatch route expected actual]
  | none => []

/-- The faults of the routes numbered from `route` on; the first that has pools tells the denom in
which all have to end. -/
def routesViolations (s : PoolSnapshot) (denomIn : Denom) (route : Nat) (expected? : Option Denom) :
    List CandidateRoute → List OverwriteViolation
  | [] => []
  | r :: rest =>
    match r.denomOut? with
    | none => .emptyRoute route :: routesViolations s denomIn (route + 1) expected? rest
    | some actual =>
      hopsViolations s route [] denomIn r.hops ++ endViolations route expected? actual
        ++ routesViolations s denomIn (route + 1) (some (expected?.getD actual)) rest

/-- All faults of routes that start from `denomIn`. -/
def overwriteViolations (s : PoolSnapshot) (denomIn : Denom) (routes : List CandidateRoute) :
    List OverwriteViolation :=
  if routes.isEmpty then [.noRoutes] else routesViolations s denomIn 0 none routes

end SwapRouting
