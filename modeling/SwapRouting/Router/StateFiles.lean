import SwapRouting.Router.Basic

/-! The state of a router as files: its pools, the order of the pools of every denom, and the taker
fees. -/
namespace SwapRouting
set_option autoImplicit false

open Json

/-- A denom with its pools in the order of the index. -/
def denomOrderJson (e : Denom × DenomPools) : Value :=
  Value.record [("denom", .ofString e.1),
    ("pool_ids", .ofList (fun p => .ofNat p.id) e.2.sorted)]

/-- Texts by file name. -/
def Generation.stateFiles (g : Generation) : Dict String String :=
  Dict.ofList [
    ("pools.json",
      (Value.ofList (fun p : Pool => p.toPoolRecord.toJson) g.snapshot.pools.values).pretty),
    ("candidate_route_search_data.json",
      (Value.ofList denomOrderJson g.index.byDenom.entries).pretty),
    ("taker_fees.json", (Value.ofList TakerFee.toJson g.fees.entries).pretty)]

end SwapRouting
