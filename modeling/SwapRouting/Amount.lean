import SwapRouting.Decimal.Text

/-! Token amounts: whole numbers below 2 ^ 128, and the coins that carry them.

`mulFloor` applies a fee to an amount without losing a unit, `ratio` turns two amounts into a price,
and `magnitude` is the power of ten an amount has reached. -/
namespace SwapRouting
set_option autoImplicit false

/-- An opaque name of an asset. -/
abbrev Denom := String

namespace Amount

/-- One more than the largest amount: 2 ^ 128. -/
abbrev bound : Nat := 340282366920938463463374607431768211456

/-- The amount `n`, if it is in range. -/
def checked (n : Nat) : Option Nat := if n < bound then some n else none

/-- The whole part of `amount * factor`; none for a negative factor. Where the product itself is out
of range the whole multiples of the divisor are taken first, and none is left if that does not fit
either. -/
def mulFloor (amount : Nat) (factor : Decimal) : Option Nat :=
  if factor.isNegative then none
  else
    let f := factor.normalize
    let divisor := tenPow f.scale
    match checked (amount * f.mantissa) with
    | some product => some (product / divisor)
    | none => do
      let whole ← checked (amount / divisor * f.mantissa)
      let rest ← checked (amount % divisor * f.mantissa)
      checked (whole + rest / divisor)

/-- How many binary digits `n` has. -/
def bitLength (n : Nat) : Nat := if n = 0 then 0 else Nat.log2 n + 1

/-- How many low bits both amounts give up so that the wider one fits a decimal. -/
def excessBits (numerator denominator : Nat) : Nat := bitLength (max numerator denominator) - 96

/-- The quotient of two amounts as a decimal; zero over a zero denominator, none where the
denominator or the quotient is lost. -/
def ratio (numerator denominator : Nat) : Option Decimal :=
  if denominator = 0 then some Decimal.zero
  else
    let shift := excessBits numerator denominator
    let n := numerator >>> shift
    let d := denominator >>> shift
    if d = 0 then none
    else do
      let a ← Decimal.ofNat? n
      let b ← Decimal.ofNat? d
      a.div? b

/-- The largest `k` with `10 ^ k ≤ n`, and zero for zero. -/
def magnitude (n : Nat) : Nat := if n < 10 then 0 else magnitude (n / 10) + 1

end Amount

/-- An amount of one asset. -/
structure Coin where
  denom : Denom
  amount : Nat
deriving DecidableEq, Repr, Inhabited

/-- The amount directly followed by its denom. -/
def Coin.display (c : Coin) : String := c.amount.repr ++ c.denom

end SwapRouting
