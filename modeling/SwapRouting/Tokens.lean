import SwapRouting.Amount
import SwapRouting.Dict

/-! Token metadata: which denoms are known, and how many decimal places the unit of each has. -/
namespace SwapRouting
set_option autoImplicit false

/-- A denom with the decimal places of its smallest unit. -/
structure Token where
  denom : Denom
  precision : Nat
deriving DecidableEq, Repr, Inhabited

/-- The precisions of the known denoms. -/
structure TokenList where
  precisions : Dict Denom Nat
deriving DecidableEq, Repr, Inhabited

/-- Ten to the power `n`, held below 2 ^ 64. -/
def displayPower (n : Nat) : Nat := if n ≤ 19 then tenPow n else 18446744073709551615

namespace TokenList

/-- The list of these tokens; of several with one denom the last stays. -/
def ofTokens (ts : List Token) : TokenList :=
  ⟨Dict.ofList (ts.map fun t => (t.denom, t.precision))⟩

def precision? (l : TokenList) (denom : Denom) : Option Nat := l.precisions.get? denom

/-- Whether the denom may be traded; an empty list accepts every denom. -/
def accepts (l : TokenList) (denom : Denom) : Bool :=
  l.precisions.isEmpty || l.precisions.contains denom

/-- The factor from a price in smallest units to a price in display units; one if either precision is
unknown. -/
def scaling (l : TokenList) (base quote : Denom) : Decimal :=
  match l.precision? base, l.precision? quote with
  | some b, some q =>
    let power := (Decimal.ofNat? (displayPower (if q ≤ b then b - q else q - b))).getD Decimal.one
    if q ≤ b then power else (Decimal.one.div? power).getD Decimal.one
  | _, _ => Decimal.one

end TokenList

end SwapRouting
