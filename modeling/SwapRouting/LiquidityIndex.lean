import SwapRouting.Config
import SwapRouting.Pool.Basic

/-! The liquidity index: for every denom the pools that hold it, best first, and one list for each
configured liquidity tier.

The lists are expected in the order preferred pools first, then falling liquidity. `buckets` relies on
that order: it fills all tiers in one pass and closes a tier at the first ordinary pool below it. -/
namespace SwapRouting
set_option autoImplicit false

/-- The pools that hold one denom. -/
structure DenomPools where
  /-- All of them, in their order. -/
  sorted : List Pool
  /-- The pools of each tier, strictest tier first. -/
  tiered : List (List Pool)
  totalLiquidity : Nat
deriving Repr, DecidableEq

/-- The pools by denom, with the tiers they were filtered for. -/
structure LiquidityIndex where
  /-- Thresholds, strictest first. -/
  tiers : List Nat
  preferred : List Nat
  byDenom : Dict Denom DenomPools
deriving Repr, DecidableEq

/-- The sum of all caps, held below 2 ^ 64. -/
def saturatedLiquidity (pools : List Pool) : Nat :=
  pools.foldl (fun n p => min (n + p.liquidityCap) 18446744073709551615) 0

/-- The first of the tiers from `closed` on that a pool of this liquidity reaches, or else the number of
all tiers. -/
def firstOpen (tiers : List Nat) (closed cap : Nat) : Nat :=
  closed + (tiers.drop closed).findIdx fun t => decide (t ≤ cap)

/-- The pools of every tier in one pass; the first `closed` tiers take preferred pools only. An ordinary
pool closes the tiers in front of the first one it reaches and goes to the rest of them; the pass ends
where none is left. -/
def buckets (preferred tiers : List Nat) (closed : Nat) : List Pool → List (List Pool)
  | [] => tiers.map fun _ => []
  | p :: r =>
    if preferred.contains p.id then (buckets preferred tiers closed r).map (p :: ·)
    else
      let first := firstOpen tiers closed p.liquidityCap
      if first = tiers.length then tiers.map fun _ => []
      else
        (buckets preferred tiers first r).mapIdx fun i pools =>
          if first ≤ i then p :: pools else pools

namespace LiquidityIndex

def empty : LiquidityIndex where
  tiers := []
  preferred := []
  byDenom := Dict.empty

instance : Inhabited LiquidityIndex := ⟨empty⟩

def denomPools (preferred tiers : List Nat) (pools : List Pool) : DenomPools where
  sorted := pools
  tiered := buckets preferred tiers 0 pools
  totalLiquidity := saturatedLiquidity pools

/-- The index over lists of pools by denom, which are taken in the order given. -/
def build (lists : Dict Denom (List Pool)) (config : RouterConfig) : LiquidityIndex :=
  let tiers := config.liquidityTiers.reverse
  { tiers := tiers
    preferred := config.preferredPools
    byDenom := lists.map (denomPools config.preferredPools tiers) }

/-- Pools that reach the threshold, and preferred ones. -/
def passing (index : LiquidityIndex) (threshold : Nat) (pools : List Pool) : List Pool :=
  pools.filter fun p => decide (threshold ≤ p.liquidityCap) || index.preferred.contains p.id

/-- The pools that hold the denom and pass the threshold, best first; none for an unknown denom. A
configured tier is looked up, any other threshold is applied on the spot. -/
def pools? (index : LiquidityIndex) (denom : Denom) (threshold : Nat) : Option (List Pool) :=
  (index.byDenom.get? denom).map fun e =>
    match index.tiers.idxOf? threshold with
    | some i => (e.tiered[i]?).getD []
    | none => index.passing threshold e.sorted

/-- The liquidity of all pools that hold the denom; zero for an unknown one. -/
def liquidity (index : LiquidityIndex) (denom : Denom) : Nat :=
  match index.byDenom.get? denom with
  | some e => e.totalLiquidity
  | none => 0

def knows (index : LiquidityIndex) (denom : Denom) : Bool := index.byDenom.contains denom

/-- Every pool that the index lists anywhere. -/
def allPools (index : LiquidityIndex) : List Pool :=
  index.byDenom.values.flatMap fun e => e.sorted ++ e.tiered.flatten

end LiquidityIndex

end SwapRouting
