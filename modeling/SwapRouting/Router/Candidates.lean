import SwapRouting.Router.Basic
import SwapRouting.Search

/-! Candidate routes for a request: from the cache, or from a search whose result goes into the cache.
A request with limits of its own neither reads nor writes a cache. -/
namespace SwapRouting
set_option autoImplicit false

/-- Limits of one request in place of those of the settings. -/
structure QuoteOptions where
  maxRoutes : Option Nat := none
  maxPools : Option Nat := none
  maxSplitRoutes : Option Nat := none
  minLiquidity : Option Nat := none
  disableCache : Bool := false
deriving Repr, DecidableEq, Inhabited

namespace QuoteOptions

def overridesSearch (o : QuoteOptions) : Bool :=
  o.maxRoutes.isSome || o.maxPools.isSome || o.minLiquidity.isSome

def usesCache (o : QuoteOptions) : Bool := !o.disableCache && !o.overridesSearch

end QuoteOptions

namespace Router

/-- What the router searches for. -/
def searchRequest (r : Router) (denomIn denomOut : Denom) (o : QuoteOptions) : SearchRequest where
  denomIn := denomIn
  denomOut := denomOut
  maxRoutes := o.maxRoutes.getD r.config.maxRoutes
  maxPools := o.maxPools.getD r.config.maxPoolsPerRoute
  minLiquidity := o.minLiquidity.getD (r.liquidityFilter denomIn denomOut)

/-- The routes of a fresh search. A search between equal denoms is refused and not counted. -/
def searchRoutes (r : Router) (ctx : Context) (denomIn denomOut : Denom) (o : QuoteOptions)
    (m : Memory) : Except RouterError CandidateRoutes × Memory :=
  let m := if denomIn = denomOut then m else { m with searches := m.searches + 1 }
  match findRoutes ctx r.generation.index (r.searchRequest denomIn denomOut o) with
  | .error e => (.error e, m)
  | .ok routes =>
    let m := m.record [.candidateSearch]
    if routes.isEmpty then (.error (.noRoute denomIn denomOut), m)
    else (.ok (CandidateRoutes.ofRoutes routes), m)

/-- Reads the candidates of a pair from the cache. -/
def readCandidates (now : Nat) (denomIn denomOut : Denom) (m : Memory) :
    Option CandidateRoutes × Memory :=
  let found := m.caches.candidates? now denomIn denomOut
  let m := { m with caches := m.caches.afterCandidates now denomIn denomOut }
  (found, m.record [.cacheLookup .candidates found.isSome])

/-- The candidates of a request. -/
def candidates (r : Router) (now : Nat) (ctx : Context) (denomIn denomOut : Denom)
    (o : QuoteOptions) (m : Memory) : Except RouterError CandidateRoutes × Memory :=
  if !o.usesCache then r.searchRoutes ctx denomIn denomOut o m
  else
    let cached := readCandidates now denomIn denomOut m
    match cached.1 with
    | some routes => (.ok routes, cached.2)
    | none =>
      let found := r.searchRoutes ctx denomIn denomOut o cached.2
      match found.1 with
      | .error e => (.error e, found.2)
      | .ok routes =>
        (.ok routes, { found.2 with
          caches := found.2.caches.setCandidates r.config.cachePolicy now denomIn denomOut routes })

/-- The candidates of a pair, without a search. -/
def cachedCandidates (now : Nat) (denomIn denomOut : Denom) (m : Memory) :
    Except RouterError CandidateRoutes × Memory :=
  let cached := readCandidates now denomIn denomOut m
  (orError (.cacheMiss denomIn denomOut) cached.1, cached.2)

/-- The candidates that still fit the pools; each of the others is recorded. -/
def attachAll (market : Market) (denomIn : Denom) : List CandidateRoute → List Route × Journal
  | [] => ([], [])
  | c :: rest =>
    let others := attachAll market denomIn rest
    match market.attach denomIn c with
    | .ok route => (route :: others.1, others.2)
    | .error _ => (others.1, .routeDropped .attach :: others.2)

end Router

end SwapRouting
