import SwapRouting.LiquidityIndex
import SwapRouting.Snapshot

/-! Generations: the pools of one block with everything that is derived from them.

A block is first reduced to the pools that can be routed through. The index lists the pools of every
denom with preferred pools first, then by falling liquidity, then by identifier. -/
namespace SwapRouting
set_option autoImplicit false

/-- What is reported for one block. -/
structure Block where
  height : Nat
  pools : List Pool
  fees : List TakerFee
deriving Repr, DecidableEq, Inhabited

/-- Pools, index and fees that belong together. -/
structure Generation where
  snapshot : PoolSnapshot
  index : LiquidityIndex
  fees : FeeTable
deriving Repr, DecidableEq

/-- The pool with its role from the list of codes. Pools with fewer than two denoms and contracts that
are not listed cannot be routed through. -/
def Pool.routable? (whitelist : CodeWhitelist) (p : Pool) : Option Pool :=
  if p.denoms.length < 2 then none
  else
    match p.kind with
    | .contract codeId _ =>
      (whitelist.role? codeId).map fun role => { p with kind := .contract codeId role }
    | _ => some p

/-- The order of the pools of a denom: preferred ones, then more liquidity, then the lower
identifier. -/
def comparePools (config : RouterConfig) (a b : Pool) : Ordering :=
  (compare (config.isPreferred b.id) (config.isPreferred a.id)).then <|
    (compare b.liquidityCap a.liquidityCap).then (compare a.id b.id)

/-- The pools that list the denom, once for every time they list it. -/
def holders (pools : List Pool) (denom : Denom) : List Pool :=
  pools.flatMap fun p => List.replicate (p.denoms.count denom) p

/-- The sorted pools of every denom. -/
def poolsByDenom (config : RouterConfig) (pools : List Pool) : Dict Denom (List Pool) :=
  Dict.ofList ((pools.flatMap fun p => p.denoms).map fun d =>
    (d, sortBy (fun a b => (comparePools config a b).isLE) (holders pools d)))

namespace Generation

def empty : Generation := ⟨PoolSnapshot.empty, LiquidityIndex.empty, FeeTable.empty⟩

instance : Inhabited Generation := ⟨empty⟩

def height (g : Generation) : Nat := g.snapshot.height

/-- The generation of a block. -/
def build (block : Block) (config : RouterConfig) (whitelist : CodeWhitelist) : Generation :=
  let snapshot := PoolSnapshot.ofPools block.height
    (block.pools.filterMap fun p => p.routable? whitelist)
  { snapshot := snapshot
    index := LiquidityIndex.build (poolsByDenom config snapshot.pools.values) config
    fees := FeeTable.ofEntries block.fees }

end Generation

end SwapRouting
