import SwapRouting.Decimal.Text

/-! Binary floating point with 53 significant bits, in exact arithmetic.

`nearest?` rounds a quotient of natural numbers to a double, a half going to the even neighbour.
`shortest` finds the fewest decimal digits that round to a given double, and among those the ones
nearest to it; `plainText` writes them without an exponent. -/
namespace SwapRouting
set_option autoImplicit false

/-- The `n`-th power of two. -/
def twoPow (n : Nat) : Nat := Nat.pow 2 n

/-- The size of a finite double, `mantissa * 2 ^ exponent`, with `mantissa < 2 ^ 53`. -/
structure Double where
  mantissa : Nat
  exponent : Int
deriving DecidableEq, Repr

namespace Double

/-- Numerator and denominator of `num / den / 2 ^ e`. -/
def scaled (num den : Nat) (e : Int) : Nat × Nat :=
  if 0 ≤ e then (num, den * twoPow e.toNat) else (num * twoPow (-e).toNat, den)

/-- The double nearest to `num / den`, for a positive `den`; none past the largest one. -/
def nearest? (num den : Nat) : Option Double :=
  if num = 0 then some ⟨0, -1074⟩
  else
    let low := max ((Nat.log2 num : Int) - (Nat.log2 den : Int) - 53) (-1074)
    let (a, b) := scaled num den low
    let e := if a / b < 9007199254740992 then low else low + 1
    let (c, d) := scaled num den e
    let m := halfEven c d
    let r : Double := if m = 9007199254740992 then ⟨4503599627370496, e + 1⟩ else ⟨m, e⟩
    if 971 < r.exponent then none else some r

/-- The double as a quotient of natural numbers. -/
def fraction (x : Double) : Nat × Nat :=
  if 0 ≤ x.exponent then (x.mantissa * twoPow x.exponent.toNat, 1)
  else (x.mantissa, twoPow (-x.exponent).toNat)

def isZero (x : Double) : Bool := x.mantissa == 0

/-- The rounded product; none past the largest double. -/
def mul? (x y : Double) : Option Double :=
  nearest? (x.fraction.1 * y.fraction.1) (x.fraction.2 * y.fraction.2)

/-- The rounded quotient by a double other than zero. -/
def div? (x y : Double) : Option Double :=
  nearest? (x.fraction.1 * y.fraction.2) (x.fraction.2 * y.fraction.1)

/-- The nearest whole number, a half going away from zero. -/
def round (x : Double) : Nat :=
  (2 * x.fraction.1 + x.fraction.2) / (2 * x.fraction.2)

/-! ## Shortest digits -/

/-- The power of ten of the leading digit of `num / den`, for a positive `num`. -/
def leadingPower (num den : Nat) : Int :=
  if den ≤ num then ((Nat.toDigits 10 (num / den)).length : Int) - 1
  else
    match (List.range 400).find? fun j => decide (den ≤ num * tenPow j) with
    | some j => -(j : Int)
    | none => 0

/-- Numerator and denominator of `num / den / 10 ^ t`. -/
def onGrid (num den : Nat) (t : Int) : Nat × Nat :=
  if 0 ≤ t then (num, den * tenPow t.toNat) else (num * tenPow (-t).toNat, den)

/-- The double nearest to `c * 10 ^ t`. -/
def ofDigits? (c : Nat) (t : Int) : Option Double :=
  if 0 ≤ t then nearest? (c * tenPow t.toNat) 1 else nearest? c (tenPow (-t).toNat)

/-- The multiple of `10 ^ t` next to `x` that rounds to `x`, the nearer one if both neighbours do. -/
def digitsAt? (x : Double) (t : Int) : Option Nat :=
  let (a, b) := onGrid x.fraction.1 x.fraction.2 t
  let low := a / b
  let lowHits := ofDigits? low t == some x
  let highHits := ofDigits? (low + 1) t == some x
  if lowHits && highHits then some (if 2 * (a % b) ≤ b then low else low + 1)
  else if lowHits then some low
  else if highHits then some (low + 1)
  else none

/-- The fewest digits `c` and the power `t` with `c * 10 ^ t` rounding to `x`. The first grid lies one
power above the leading digit, since a row of nines may round up to it. -/
def shortest (x : Double) : Nat × Int :=
  let k := leadingPower x.fraction.1 x.fraction.2
  let hit := (List.range 18).findSome? fun (n : Nat) =>
    (digitsAt? x (k + 1 - n)).map fun c => (c, k + 1 - (n : Int))
  hit.getD (0, 0)

/-- The shortest digits without an exponent; a whole number has no point. -/
def plainChars (x : Double) : List Char :=
  if x.isZero then ['0']
  else
    let (c, t) := x.shortest
    if 0 ≤ t then Nat.toDigits 10 c ++ List.replicate t.toNat '0' else Decimal.placed c (-t).toNat

/-- The decimal that the shortest digits of a double spell. -/
def toDecimal? (negative : Bool) (x : Double) : Option Decimal :=
  Decimal.parse? (if negative then '-' :: x.plainChars else x.plainChars)

end Double

end SwapRouting
