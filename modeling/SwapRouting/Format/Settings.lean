import SwapRouting.Config
import SwapRouting.Format.Json
import SwapRouting.Pool.Kind

/-! The written form of the router's settings and of the list of contract codes. Every field may be
left out and then has its default. -/
namespace SwapRouting
set_option autoImplicit false

open Format Json

variable {V : Type} [Source V]

namespace LiquidityFilter

def read? (v : V) : Option LiquidityFilter := do
  let [cap, value] ← record? ["min_tokens_cap", "filter_value"] v | none
  some {
    minTokensCap := ← required word64? cap
    filterValue := ← required word64? value }

def toJson (f : LiquidityFilter) : Value :=
  Value.record [("min_tokens_cap", .ofNat f.minTokensCap), ("filter_value", .ofNat f.filterValue)]

end LiquidityFilter

namespace RouterConfig

def fieldNames : List String :=
  ["preferred_pool_ids", "max_pools_per_route", "max_routes", "max_split_routes",
    "max_split_iterations", "min_pool_liquidity_cap", "dynamic_min_liquidity_cap_filters_desc",
    "route_cache_enabled", "candidate_route_cache_expiry_seconds",
    "ranked_route_cache_expiry_seconds", "default_taker_fee", "split_convergence_epsilon",
    "split_initial_step_divisor"]

def read? (v : V) : Option RouterConfig := do
  let [preferred, maxPools, maxRoutes, maxSplitRoutes, maxIterations, minCap, filters, cacheEnabled,
    candidateSeconds, rankedSeconds, fee, epsilon, divisor] ← record? fieldNames v | none
  let d : RouterConfig := {}
  some {
    preferredPools := ← optional (list? word64?) d.preferredPools preferred
    maxPoolsPerRoute := ← optional word64? d.maxPoolsPerRoute maxPools
    maxRoutes := ← optional word64? d.maxRoutes maxRoutes
    maxSplitRoutes := ← optional word64? d.maxSplitRoutes maxSplitRoutes
    maxSplitIterations := ← optional word64? d.maxSplitIterations maxIterations
    minPoolLiquidityCap := ← optional word64? d.minPoolLiquidityCap minCap
    dynamicFilters := ← optional (list? LiquidityFilter.read?) d.dynamicFilters filters
    routeCacheEnabled := ← optional Source.flag? d.routeCacheEnabled cacheEnabled
    candidateCacheSeconds := ← optional word64? d.candidateCacheSeconds candidateSeconds
    rankedCacheSeconds := ← optional word64? d.rankedCacheSeconds rankedSeconds
    defaultTakerFee := ← optional Source.decimal? d.defaultTakerFee fee
    convergenceEpsilon := ← optional Source.amount? d.convergenceEpsilon epsilon
    initialStepDivisor := ← optional word32? d.initialStepDivisor divisor }

def toJson (c : RouterConfig) : Value :=
  Value.record [
    ("preferred_pool_ids", .ofList Value.ofNat c.preferredPools),
    ("max_pools_per_route", .ofNat c.maxPoolsPerRoute),
    ("max_routes", .ofNat c.maxRoutes),
    ("max_split_routes", .ofNat c.maxSplitRoutes),
    ("max_split_iterations", .ofNat c.maxSplitIterations),
    ("min_pool_liquidity_cap", .ofNat c.minPoolLiquidityCap),
    ("dynamic_min_liquidity_cap_filters_desc", .ofList LiquidityFilter.toJson c.dynamicFilters),
    ("route_cache_enabled", .bool c.routeCacheEnabled),
    ("candidate_route_cache_expiry_seconds", .ofNat c.candidateCacheSeconds),
    ("ranked_route_cache_expiry_seconds", .ofNat c.rankedCacheSeconds),
    ("default_taker_fee", .ofDecimal c.defaultTakerFee),
    ("split_convergence_epsilon", .ofNat c.convergenceEpsilon),
    ("split_initial_step_divisor", .ofNat c.initialStepDivisor)]

end RouterConfig

namespace CodeWhitelist

def fieldNames : List String :=
  ["transmuter_code_ids", "alloyed_transmuter_code_ids", "orderbook_code_ids",
    "general_cosmwasm_code_ids"]

def read? (v : V) : Option CodeWhitelist := do
  let [transmuter, alloyed, orderbook, generalized] ← record? fieldNames v | none
  some {
    transmuter := ← optional (list? word64?) [] transmuter
    alloyedTransmuter := ← optional (list? word64?) [] alloyed
    orderbook := ← optional (list? word64?) [] orderbook
    generalized := ← optional (list? word64?) [] generalized }

def toJson (w : CodeWhitelist) : Value :=
  Value.record [
    ("transmuter_code_ids", .ofList Value.ofNat w.transmuter),
    ("alloyed_transmuter_code_ids", .ofList Value.ofNat w.alloyedTransmuter),
    ("orderbook_code_ids", .ofList Value.ofNat w.orderbook),
    ("general_cosmwasm_code_ids", .ofList Value.ofNat w.generalized)]

end CodeWhitelist

end SwapRouting
