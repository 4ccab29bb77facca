import SwapRouting.Cache.Expiring
import SwapRouting.Candidate
import SwapRouting.Config
import SwapRouting.SwapMethod
import SwapRouting.TakerFee

/-! The two caches of the router. Both hold candidate routes only, so they outlive a block.

Candidates are kept for an unordered pair of denoms and turned around when they are asked for from the
other side. Ranked routes are kept for a direction, a method and the power of ten of the amount. Their
lifetimes are taken to end while the clock still tells the time. -/
namespace SwapRouting
set_option autoImplicit false

/-- Candidate routes as they were found from `origin`. -/
structure StoredCandidates where
  origin : Denom
  routes : CandidateRoutes
deriving Repr, DecidableEq

/-- What ranked routes are kept for. -/
structure RankedKey where
  denomIn : Denom
  denomOut : Denom
  method : SwapMethod
  /-- The power of ten of the fixed amount. -/
  magnitude : Nat
deriving Repr, DecidableEq

def RankedKey.of (denomIn denomOut : Denom) (method : SwapMethod) (amount : Nat) : RankedKey :=
  ⟨denomIn, denomOut, method, Amount.magnitude amount⟩

/-- Lifetimes of the entries, and whether ranked routes are kept at all. -/
structure CachePolicy where
  candidateTime : Nat
  rankedTime : Nat
  rankedEnabled : Bool
deriving Repr, DecidableEq

/-- The policy of the settings; time is counted in milliseconds. -/
def RouterConfig.cachePolicy (c : RouterConfig) : CachePolicy where
  candidateTime := 1000 * c.candidateCacheSeconds
  rankedTime := 1000 * c.rankedCacheSeconds
  rankedEnabled := c.routeCacheEnabled

structure RouteCaches where
  candidates : ExpiringCache DenomPair StoredCandidates
  ranked : ExpiringCache RankedKey (List CandidateRoute)
deriving Repr, DecidableEq

/-- The routes as seen from `denomIn`. -/
def StoredCandidates.seenFrom (s : StoredCandidates) (denomIn : Denom) : CandidateRoutes :=
  if s.origin = denomIn then s.routes else s.routes.reversed s.origin

namespace RouteCaches

def empty : RouteCaches := ⟨ExpiringCache.empty, ExpiringCache.empty⟩

instance : Inhabited RouteCaches := ⟨empty⟩

/-- The candidates from `denomIn` to `denomOut`. -/
def candidates? (c : RouteCaches) (now : Nat) (denomIn denomOut : Denom) :
    Option CandidateRoutes :=
  (c.candidates.get? now (DenomPair.of denomIn denomOut)).map (·.seenFrom denomIn)

/-- The caches after the candidates of a pair were read. -/
def afterCandidates (c : RouteCaches) (now : Nat) (denomIn denomOut : Denom) : RouteCaches :=
  { c with candidates := c.candidates.afterGet now (DenomPair.of denomIn denomOut) }

def setCandidates (c : RouteCaches) (p : CachePolicy) (now : Nat) (denomIn denomOut : Denom)
    (routes : CandidateRoutes) : RouteCaches :=
  { c with candidates :=
      c.candidates.insert now p.candidateTime (DenomPair.of denomIn denomOut) ⟨denomIn, routes⟩ }

/-- The ranked routes of a key; none where they are not kept. -/
def ranked? (c : RouteCaches) (p : CachePolicy) (now : Nat) (k : RankedKey) :
    Option (List CandidateRoute) :=
  if p.rankedEnabled then c.ranked.get? now k else none

/-- The caches after the ranked routes of a key were read. -/
def afterRanked (c : RouteCaches) (p : CachePolicy) (now : Nat) (k : RankedKey) : RouteCaches :=
  if p.rankedEnabled then { c with ranked := c.ranked.afterGet now k } else c

def setRanked (c : RouteCaches) (p : CachePolicy) (now : Nat) (k : RankedKey)
    (routes : List CandidateRoute) : RouteCaches :=
  if p.rankedEnabled then { c with ranked := c.ranked.insert now p.rankedTime k routes } else c

end RouteCaches

end SwapRouting
