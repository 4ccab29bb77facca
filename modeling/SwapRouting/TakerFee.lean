import SwapRouting.Amount
import SwapRouting.Dict

/-! Taker fees: what the protocol charges on the input of a trade between two denoms.

A fee belongs to the unordered pair, so both directions of a trade pay the same. -/
namespace SwapRouting
set_option autoImplicit false

/-- Two denoms, the lesser first. -/
structure DenomPair where
  first : Denom
  second : Denom
deriving DecidableEq, Repr, Inhabited

namespace DenomPair

/-- The pair of two denoms in either order. -/
def of (a b : Denom) : DenomPair := if b < a then ⟨b, a⟩ else ⟨a, b⟩

instance : LT DenomPair :=
  ⟨fun p q => p.first < q.first ∨ (p.first = q.first ∧ p.second < q.second)⟩

instance : DecidableLT DenomPair := fun p q =>
  inferInstanceAs (Decidable (p.first < q.first ∨ (p.first = q.first ∧ p.second < q.second)))

end DenomPair

/-- The fee of one pair of denoms. -/
structure TakerFee where
  first : Denom
  second : Denom
  fee : Decimal
deriving DecidableEq, Repr, Inhabited

/-- The fees of all pairs that have one of their own. -/
structure FeeTable where
  fees : Dict DenomPair Decimal
deriving DecidableEq, Repr

namespace FeeTable

def empty : FeeTable := ⟨Dict.empty⟩

instance : Inhabited FeeTable := ⟨empty⟩

/-- Sets the fee of a pair, given in either order. -/
def set (t : FeeTable) (a b : Denom) (fee : Decimal) : FeeTable :=
  ⟨t.fees.insert (DenomPair.of a b) fee⟩

def get? (t : FeeTable) (a b : Denom) : Option Decimal := t.fees.get? (DenomPair.of a b)

/-- The fee of the pair, or the default where it has none of its own. -/
def feeOr (t : FeeTable) (a b : Denom) (default : Decimal) : Decimal := (t.get? a b).getD default

def size (t : FeeTable) : Nat := t.fees.size

def isEmpty (t : FeeTable) : Bool := t.fees.isEmpty

/-- All fees, in ascending order of their pairs. -/
def entries (t : FeeTable) : List TakerFee :=
  t.fees.entries.map fun e => ⟨e.1.first, e.1.second, e.2⟩

/-- The table in which each fee is set in turn. -/
def ofEntries (es : List TakerFee) : FeeTable :=
  es.foldl (fun t e => t.set e.first e.second e.fee) empty

end FeeTable

end SwapRouting
