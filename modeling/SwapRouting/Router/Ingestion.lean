import SwapRouting.Router.Basic

/-! Following a chain: blocks are fetched one after the other, and every one that is newer than the
current generation replaces it and is announced. Height zero stands for no block at all, so a router at
zero takes any block. -/
namespace SwapRouting
set_option autoImplicit false

namespace Router

/-- Whether a block replaces the current generation. -/
def accepts (r : Router) (block : Block) : Bool :=
  r.generation.height == 0 || decide (r.generation.height < block.height)

/-- A block as it was fetched, with the codes that may be routed through at that time. -/
structure Fetched where
  block : Block
  whitelist : CodeWhitelist

/-- The router after these blocks, and the heights it announced. -/
def follow (r : Router) : List Fetched → Router × List Nat
  | [] => (r, [])
  | f :: rest =>
    if r.accepts f.block then
      let after := follow (r.applyBlock f.block f.whitelist) rest
      (after.1, f.block.height :: after.2)
    else follow r rest

/-- Blocks of a source whose codes stay the same. -/
def ingest (whitelist : CodeWhitelist) (r : Router) (blocks : List Block) : Router × List Nat :=
  r.follow (blocks.map fun b => ⟨b, whitelist⟩)

end Router

end SwapRouting
