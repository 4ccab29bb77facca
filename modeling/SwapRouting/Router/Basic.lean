import SwapRouting.Cache.Routes
import SwapRouting.Generation
import SwapRouting.Metrics
import SwapRouting.Overwrite.Store
import SwapRouting.Route.Basic
import SwapRouting.Tokens

/-! The router: settings, tokens, the current generation and the pinned routes, together with what
requests leave behind.

Requests change nothing but the `Memory`. Blocks replace the generation, and accepted routes the pinned
ones. -/
namespace SwapRouting
set_option autoImplicit false

/-- What requests leave behind: cached routes, the number of searches, and the journal. -/
structure Memory where
  caches : RouteCaches
  searches : Nat
  journal : Journal
deriving Repr, DecidableEq, Inhabited

namespace Memory

def empty : Memory := ⟨RouteCaches.empty, 0, []⟩

/-- The memory with these events added. -/
def record (m : Memory) (events : Journal) : Memory := { m with journal := m.journal ++ events }

end Memory

structure Router where
  config : RouterConfig
  tokens : TokenList
  /-- Whether routes may be pinned at all. -/
  overwritesEnabled : Bool
  generation : Generation
  overwrites : OverwriteStore
  memory : Memory
deriving Repr, DecidableEq

namespace Router

/-- A router before its first block. -/
def create (config : RouterConfig) (tokens : TokenList) (overwritesEnabled : Bool)
    (overwrites : OverwriteStore) : Except RouterError Router :=
  match config.validate with
  | .error e => .error (.invalidConfig e)
  | .ok () =>
    .ok {
      config := config
      tokens := tokens
      overwritesEnabled := overwritesEnabled
      generation := Generation.empty
      overwrites := overwrites
      memory := Memory.empty }

/-- What routes attach to. -/
def market (r : Router) : Market where
  snapshot := r.generation.snapshot
  fees := r.generation.fees
  defaultFee := r.config.defaultTakerFee

/-- The router with the generation of a block. Both caches stay as they are. -/
def applyBlock (r : Router) (block : Block) (whitelist : CodeWhitelist) : Router :=
  { r with generation := Generation.build block r.config whitelist }

/-- Pins routes for a denom. -/
def overwriteRoutes (r : Router) (denomIn : Denom) (routes : List CandidateRoute) :
    Except RouterError Unit × Router :=
  if !r.overwritesEnabled then (.error .overwritesDisabled, r)
  else
    let result := r.overwrites.overwrite r.generation.snapshot denomIn routes
    (result.1, { r with overwrites := result.2 })

/-- Pins what the files of the store hold and counts it. -/
def loadOverwrites (r : Router) : Except RouterError Nat × Router :=
  if !r.overwritesEnabled then (.ok 0, r)
  else
    let result := r.overwrites.load r.generation.snapshot
    (result.1, { r with overwrites := result.2 })

/-- A new router with the same settings over the same files. The journal goes on. -/
def reopened (r : Router) : Router :=
  { r with
    generation := Generation.empty
    overwrites := r.overwrites.reopened
    memory := { Memory.empty with journal := r.memory.journal } }

/-! ## Answers that need no search -/

/-- The pool with this identifier. -/
def pool (r : Router) (id : Nat) : Except RouterError Pool :=
  orError (.poolNotFound id) (r.generation.snapshot.get? id)

/-- Every two denoms of a list, in its order. -/
def denomPairs : List Denom → List (Denom × Denom)
  | [] => []
  | a :: r => r.map (fun b => (a, b)) ++ denomPairs r

/-- The taker fee of every pair that the pool trades. -/
def takerFees (r : Router) (id : Nat) : Except RouterError (List TakerFee) := do
  let p ← r.pool id
  .ok ((denomPairs p.denoms).map fun (a, b) =>
    let pair := DenomPair.of a b
    ⟨pair.first, pair.second, r.market.takerFee a b⟩)

/-- The price of `base` in `quote` in one pool, less the taker fee of the pair. -/
def spotPrice (r : Router) (id : Nat) (quote base : Denom) : Except RouterError Decimal := do
  let p ← r.pool id
  if !p.holds quote then .error (.denomNotInPool quote id)
  else if !p.holds base then .error (.denomNotInPool base id)
  else do
    let spot ← liftSwap (p.curve.spotPrice base quote)
    let share ← orError .decimalRange (Decimal.one.sub? (r.market.takerFee quote base))
    .ok (spot.mulSaturating share)

/-- The liquidity that a search between two denoms asks for by default: that of the denom with less
liquidity. -/
def liquidityFilter (r : Router) (a b : Denom) : Nat :=
  r.config.liquidityFilter (min (r.generation.index.liquidity a) (r.generation.index.liquidity b))

end Router

end SwapRouting
