import SwapRouting.Amount
import SwapRouting.Dict

/-! Settings of the router: limits of the search and of the split, the liquidity filters, and the
lifetimes of the caches. `validate` names the first setting that cannot be used. -/
namespace SwapRouting
set_option autoImplicit false

/-- Pools below `filterValue` are left out for tokens whose liquidity reaches `minTokensCap`. -/
structure LiquidityFilter where
  minTokensCap : Nat
  filterValue : Nat
deriving DecidableEq, Repr, Inhabited

structure RouterConfig where
  /-- Pools that pass every liquidity filter and rank first. -/
  preferredPools : List Nat := []
  maxPoolsPerRoute : Nat := 4
  maxRoutes : Nat := 20
  /-- How many routes a split may use; below two there is no split. -/
  maxSplitRoutes : Nat := 3
  maxSplitIterations : Nat := 64
  /-- The filter for tokens that reach none of the dynamic ones. -/
  minPoolLiquidityCap : Nat := 0
  /-- Strictest first. -/
  dynamicFilters : List LiquidityFilter := []
  routeCacheEnabled : Bool := true
  candidateCacheSeconds : Nat := 1200
  rankedCacheSeconds : Nat := 300
  /-- The taker fee of a pair without one of its own. -/
  defaultTakerFee : Decimal := Decimal.thousandth
  /-- A rebalancing move has to gain more than this. -/
  convergenceEpsilon : Nat := 0
  /-- The first rebalancing step is the total over this many times the number of routes. -/
  initialStepDivisor : Nat := 4
deriving DecidableEq, Repr, Inhabited

/-- A setting that cannot be used. -/
inductive ConfigError where
  | noRoutes
  | noPools
  | feeOutOfRange
  | capsNotDescending
  | filtersNotDescending
deriving DecidableEq, Repr, Inhabited

def ConfigError.message : ConfigError → String
  | noRoutes => "max_routes must be positive"
  | noPools => "max_pools_per_route must be positive"
  | feeOutOfRange => "default_taker_fee must be in [0, 1)"
  | capsNotDescending => "min_tokens_cap must be in descending order"
  | filtersNotDescending => "filter_value must be in descending order"

/-- Caps fall strictly and filters never rise from each entry to the next. -/
def validateFilters : List LiquidityFilter → Except ConfigError Unit
  | a :: b :: r =>
    if a.minTokensCap ≤ b.minTokensCap then .error .capsNotDescending
    else if a.filterValue < b.filterValue then .error .filtersNotDescending
    else validateFilters (b :: r)
  | _ => .ok ()

namespace RouterConfig

def validate (c : RouterConfig) : Except ConfigError Unit :=
  if c.maxRoutes = 0 then .error .noRoutes
  else if c.maxPoolsPerRoute = 0 then .error .noPools
  else if c.defaultTakerFee.isNegative || c.defaultTakerFee.compare Decimal.one != .lt then
    .error .feeOutOfRange
  else validateFilters c.dynamicFilters

/-- Every liquidity threshold of the settings, in ascending order. -/
def liquidityTiers (c : RouterConfig) : List Nat :=
  ascending (c.minPoolLiquidityCap :: c.dynamicFilters.map (·.filterValue))

/-- The filter of the first entry whose cap a token reaches. -/
def liquidityFilter (c : RouterConfig) (tokensCap : Nat) : Nat :=
  match c.dynamicFilters.find? fun f => decide (f.minTokensCap ≤ tokensCap) with
  | some f => f.filterValue
  | none => c.minPoolLiquidityCap

def isPreferred (c : RouterConfig) (pool : Nat) : Bool := c.preferredPools.contains pool

end RouterConfig

end SwapRouting
