import SwapRouting.Pool.Curve

/-! Events that are counted while requests are served.

A journal lists events in the order in which they happened; `counts` adds them up under their names. -/
namespace SwapRouting
set_option autoImplicit false

inductive CacheName where
  | candidates
  | ranked
deriving DecidableEq, Repr, Inhabited

/-- Why a route was left out. -/
inductive DropReason where
  | zeroOutput
  | computation
  | initialAllocation
  | attach
deriving DecidableEq, Repr, Inhabited

/-- The ways to ask for a quote that are timed. -/
inductive QuoteMethod where
  | exactIn
  | exactOut
  | singleRoute
deriving DecidableEq, Repr, Inhabited

inductive Event where
  | cacheLookup (cache : CacheName) (hit : Bool)
  | routeDropped (reason : DropReason)
  | spotPriceError (pool : Nat)
  | candidateSearch
  | quoteServed (method : QuoteMethod)
deriving DecidableEq, Repr, Inhabited

abbrev Journal := List Event

def CacheName.name : CacheName → String
  | candidates => "candidate_routes"
  | ranked => "ranked_routes"

def DropReason.name : DropReason → String
  | zeroOutput => "zero_output"
  | computation => "computation"
  | initialAllocation => "split_initial_allocation"
  | attach => "attach"

def QuoteMethod.name : QuoteMethod → String
  | exactIn => "exact_in"
  | exactOut => "exact_out"
  | singleRoute => "single_route"

/-- A counter with its labels in braces. -/
def counterName (name : String) (labels : List (String × String)) : String :=
  name ++ "\x7b" ++ String.intercalate "," (labels.map fun l => l.1 ++ "=" ++ l.2) ++ "\x7d"

/-- The counter an event adds to. -/
def Event.counter : Event → String
  | cacheLookup cache hit =>
    counterName "router_cache_lookups_total"
      [("cache", cache.name), ("outcome", if hit then "hit" else "miss")]
  | routeDropped reason => counterName "router_routes_dropped_total" [("reason", reason.name)]
  | spotPriceError pool => counterName "router_spot_price_errors_total" [("pool_id", pool.repr)]
  | candidateSearch => counterName "router_candidate_searches_total" []
  | quoteServed method => counterName "router_quote_latency_seconds" [("method", method.name)]

/-- Every counter that was added to, with the number of its events. -/
def counts (j : Journal) : List (String × Nat) :=
  let names := j.map Event.counter
  (names.eraseDups).map fun n => (n, names.count n)

end SwapRouting
