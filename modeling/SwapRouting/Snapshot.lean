import SwapRouting.Pool.Basic
import SwapRouting.TakerFee

/-! Pool snapshots: the pools of one block by their identifiers.

Among the order books that trade the same pair of denoms one is canonical: the deepest, and of equally
deep ones the one with the smallest identifier. -/
namespace SwapRouting
set_option autoImplicit false

/-- The pools of one block. -/
structure PoolSnapshot where
  height : Nat
  pools : Dict Nat Pool
  /-- Identifiers of the canonical order books, in ascending order. -/
  canonicalOrderbooks : List Nat
deriving Repr, DecidableEq

namespace PoolSnapshot

/-- The pair of denoms an order book is filed under: its first two. -/
def orderbookPair? (p : Pool) : Option DenomPair :=
  if p.kind.isOrderbook then
    match p.denoms with
    | a :: b :: _ => some (DenomPair.of a b)
    | _ => none
  else none

/-- Whether `p` comes before `q` among the order books of a pair. -/
def deeper (p q : Pool) : Bool :=
  decide (q.liquidityCap < p.liquidityCap) || (p.liquidityCap == q.liquidityCap && decide (p.id < q.id))

/-- Files an order book under its pair unless a deeper one is there. -/
def fileOrderbook (best : Dict DenomPair Pool) (p : Pool) : Dict DenomPair Pool :=
  match orderbookPair? p with
  | none => best
  | some pair =>
    match best.get? pair with
    | some q => if deeper p q then best.insert pair p else best
    | none => best.insert pair p

/-- The deepest order book of every pair. -/
def deepestOrderbooks (pools : List Pool) : Dict DenomPair Pool :=
  pools.foldl fileOrderbook Dict.empty

/-- The snapshot of these pools; of several with one identifier the last stays. -/
def ofPools (height : Nat) (pools : List Pool) : PoolSnapshot :=
  let byId := Dict.ofList (pools.map fun p => (p.id, p))
  { height := height
    pools := byId
    canonicalOrderbooks := ascending ((deepestOrderbooks byId.values).values.map fun p => p.id) }

def empty : PoolSnapshot where
  height := 0
  pools := Dict.empty
  canonicalOrderbooks := []

instance : Inhabited PoolSnapshot := ⟨empty⟩

def get? (s : PoolSnapshot) (id : Nat) : Option Pool := s.pools.get? id

def size (s : PoolSnapshot) : Nat := s.pools.size

def isEmpty (s : PoolSnapshot) : Bool := s.pools.isEmpty

def isCanonicalOrderbook (s : PoolSnapshot) (id : Nat) : Bool := s.canonicalOrderbooks.contains id

end PoolSnapshot

end SwapRouting
