/-! Decimals with at most 28 places and a coefficient below 2 ^ 96, as fees, spreads and prices use.

`Decimal` keeps its number of places, so `0.50` and `0.5` are two decimals of one value.
Sums and products are exact as long as they fit; `fit` gives up places, rounding a half to the even
neighbour, and fails only when the whole part is too large. `div?` carries as many digits as fit and
then drops zeros that the division brought in. -/
namespace SwapRouting
set_option autoImplicit false

/-- One more than the largest coefficient: 2 ^ 96. -/
abbrev Decimal.bound : Nat := 79228162514264337593543950336

/-- The most places a decimal can have. -/
abbrev Decimal.maxScale : Nat := 28

/-- The value `coefficient / 10 ^ scale`, together with its number of places. -/
structure Decimal where
  coefficient : Int
  scale : Nat
  coefficient_lt : coefficient.natAbs < Decimal.bound := by decide
  scale_le : scale ≤ Decimal.maxScale := by decide
deriving DecidableEq, Repr

/-- The power of ten with `n` zeros. -/
def tenPow (n : Nat) : Nat := Nat.pow 10 n

/-- The quotient `m / p`, a half going to the even neighbour. -/
def halfEven (m p : Nat) : Nat :=
  if p < 2 * (m % p) ∨ (2 * (m % p) = p ∧ m / p % 2 = 1) then m / p + 1 else m / p

namespace Decimal

def zero : Decimal where
  coefficient := 0
  scale := 0

def one : Decimal where
  coefficient := 1
  scale := 0

/-- One thousandth. -/
def thousandth : Decimal where
  coefficient := 1
  scale := 3

instance : Inhabited Decimal := ⟨zero⟩

/-- The decimal with this coefficient and scale, if both are in range. -/
def make? (c : Int) (s : Nat) : Option Decimal :=
  if h : c.natAbs < bound ∧ s ≤ maxScale then some ⟨c, s, h.1, h.2⟩ else none

/-- A whole number as a decimal without places. -/
def ofNat? (n : Nat) : Option Decimal := make? n 0

def isZero (a : Decimal) : Bool := a.coefficient == 0

def isNegative (a : Decimal) : Bool := decide (a.coefficient < 0)

/-- The size of the coefficient. -/
def mantissa (a : Decimal) : Nat := a.coefficient.natAbs

def neg (a : Decimal) : Decimal where
  coefficient := -a.coefficient
  scale := a.scale
  coefficient_lt := by have h := a.coefficient_lt; omega
  scale_le := a.scale_le

/-- The largest decimal, 2 ^ 96 - 1. -/
def largest : Decimal where
  coefficient := 79228162514264337593543950335
  scale := 0

/-- `m` with the sign of `c`. -/
def signed (c : Int) (m : Nat) : Int := if c < 0 then -(m : Int) else m

/-! ## Fitting a coefficient -/

/-- The fewest trailing digits whose removal brings `m`, with `s` places, into range. -/
def surplus? (m s : Nat) : Option Nat :=
  (List.range (s + 1)).find? fun k => decide (s - maxScale ≤ k) && decide (m / tenPow k < bound)

/-- The decimal nearest to `c / 10 ^ s`, a half going to the even neighbour; none if its whole part
is out of range. -/
def fit (c : Int) (s : Nat) : Option Decimal := do
  let k ← surplus? c.natAbs s
  let q := halfEven c.natAbs (tenPow k)
  if q < bound then make? (signed c q) (s - k)
  else if s - k < 1 then none
  else make? (signed c (halfEven q 10)) (s - (k + 1))

/-! ## Sum, difference and product -/

/-- The coefficient of `a` written with `s` places, for `s` at least its own number of places. -/
def aligned (a : Decimal) (s : Nat) : Int := a.coefficient * (tenPow (s - a.scale) : Nat)

/-- The sum. A zero operand leaves the other as it is. -/
def add? (a b : Decimal) : Option Decimal :=
  if a.isZero then some b
  else if b.isZero then some a
  else
    let s := max a.scale b.scale
    fit (a.aligned s + b.aligned s) s

def sub? (a b : Decimal) : Option Decimal := a.add? b.neg

/-- The product. Two factors below 2 ^ 32 with more than 47 places together give zero. -/
def mul? (a b : Decimal) : Option Decimal :=
  if a.isZero || b.isZero then some zero
  else if a.mantissa < 4294967296 ∧ b.mantissa < 4294967296 ∧ 47 < a.scale + b.scale then some zero
  else fit (a.coefficient * b.coefficient) (a.scale + b.scale)

/-- The sum, or the largest decimal on the side where it leaves the range. -/
def addSaturating (a b : Decimal) : Decimal :=
  (a.add? b).getD (if a.isNegative then largest.neg else largest)

/-- The product, or the largest decimal on the side where it leaves the range. -/
def mulSaturating (a b : Decimal) : Decimal :=
  (a.mul? b).getD (if a.isNegative == b.isNegative then largest else largest.neg)

/-! ## Order -/

/-- The order of the values, whatever the numbers of places. -/
def compare (a b : Decimal) : Ordering :=
  let s := max a.scale b.scale
  Ord.compare (a.aligned s) (b.aligned s)

/-! ## Trailing zeros -/

/-- Removes zeros at the end of the fraction from a coefficient `c` with `s` places. -/
def stripZeros (c : Int) : Nat → Int × Nat
  | 0 => (c, 0)
  | s + 1 => if c % 10 = 0 then stripZeros (c / 10) s else (c, s + 1)

theorem stripZeros_natAbs_le (c : Int) (s : Nat) : (stripZeros c s).1.natAbs ≤ c.natAbs := by
  induction s generalizing c with
  | zero => simp [stripZeros]
  | succ s ih =>
    rw [stripZeros]
    split
    · have h := ih (c / 10)
      omega
    · exact Nat.le_refl _

theorem stripZeros_scale_le (c : Int) (s : Nat) : (stripZeros c s).2 ≤ s := by
  induction s generalizing c with
  | zero => simp [stripZeros]
  | succ s ih =>
    rw [stripZeros]
    split
    · have h := ih (c / 10)
      omega
    · exact Nat.le_refl _

/-- The same value without zeros at the end of its fraction. -/
def normalize (a : Decimal) : Decimal where
  coefficient := (stripZeros a.coefficient a.scale).1
  scale := (stripZeros a.coefficient a.scale).2
  coefficient_lt := by
    have h := stripZeros_natAbs_le a.coefficient a.scale
    have h' := a.coefficient_lt
    omega
  scale_le := by
    have h := stripZeros_scale_le a.coefficient a.scale
    have h' := a.scale_le
    omega

/-! ## Quotient -/

/-- A quotient under way: the digits so far, the remainder, the places so far, and whether a
remainder was ever carried on. -/
structure Division where
  quotient : Nat
  remainder : Nat
  scale : Int
  inexact : Bool
deriving DecidableEq, Repr

/-- The most digits, nine at most and none past the last place, that can be added to `q`. -/
def roomFor (q : Nat) (s : Int) : Nat :=
  if s < 28 then
    (((List.range (min 9 (28 - s).toNat + 1)).reverse).find? fun x =>
      decide (q * tenPow x < bound)).getD 0
  else 0

/-- The last digit of `q` rounded away, a half going to the even neighbour unless a remainder `r`
lies above it. -/
def dropDigit (q r : Nat) : Nat :=
  if 5 < q % 10 ∨ (q % 10 = 5 ∧ (r ≠ 0 ∨ q / 10 % 2 = 1)) then q / 10 + 1 else q / 10

/-- A quotient with no room for another digit, rounded by its remainder. -/
def Division.round (d : Division) (divisor : Nat) : Option Division :=
  let up := divisor < 2 * d.remainder ∨ (2 * d.remainder = divisor ∧ d.quotient % 2 = 1)
  let q := if up then d.quotient + 1 else d.quotient
  if q < bound then some { d with quotient := q }
  else if d.scale = 0 then none
  else some { d with quotient := halfEven q 10, scale := d.scale - 1 }

theorem lt_of_roomFor_ne_zero {q : Nat} {s : Int} (h : roomFor q s ≠ 0) : s < 28 := by
  rw [roomFor] at h
  split at h
  · assumption
  · exact absurd rfl h

/-- Takes digits from the remainder until the quotient is exact or full; none once the whole digits
leave the range. -/
def Division.run (divisor : Nat) (d : Division) : Option Division :=
  if d.remainder = 0 then
    if _ : 0 ≤ d.scale then some d
    else
      let x := min 9 (-d.scale).toNat
      let q := d.quotient * tenPow x
      if q < bound then Division.run divisor ⟨q, 0, d.scale + x, d.inexact⟩ else none
  else
    let x := roomFor d.quotient d.scale
    if x < 9 ∧ x + d.scale < 0 then none
    else if _ : x = 0 then ({ d with inexact := true } : Division).round divisor
    else
      let q := d.quotient * tenPow x + d.remainder * tenPow x / divisor
      let r := d.remainder * tenPow x % divisor
      let s := d.scale + x
      if q < bound then Division.run divisor ⟨q, r, s, true⟩
      else if s - 1 < 0 then none
      else some ⟨dropDigit q r, r, s - 1, true⟩
termination_by (28 - d.scale).toNat
decreasing_by
  · simp_wf
    omega
  · have h := lt_of_roomFor_ne_zero (q := d.quotient) (s := d.scale) (by assumption)
    simp_wf
    omega

/-- Drops eight zeros at a time while the last 32 bits of the coefficient are clear. -/
def dropEights (q s : Nat) : Nat × Nat :=
  if _ : q % 4294967296 = 0 ∧ 8 ≤ s ∧ q % 100000000 = 0 then dropEights (q / 100000000) (s - 8)
  else (q, s)
termination_by s

/-- Drops `k` zeros once, if there are as many. -/
def dropOnce (k : Nat) (a : Nat × Nat) : Nat × Nat :=
  if k ≤ a.2 ∧ a.1 % tenPow k = 0 then (a.1 / tenPow k, a.2 - k) else a

/-- The quotient, to as many places as fit; none for a zero divisor or a quotient out of range. -/
def div? (a b : Decimal) : Option Decimal :=
  if b.isZero then none
  else if a.isZero then some zero
  else
    let start : Division :=
      ⟨a.mantissa / b.mantissa, a.mantissa % b.mantissa, (a.scale : Int) - b.scale, false⟩
    match start.run b.mantissa with
    | none => none
    | some d =>
      let plain := (d.quotient, d.scale.toNat)
      let (q, s) :=
        if d.inexact then dropOnce 1 (dropOnce 2 (dropOnce 4 (dropEights plain.1 plain.2))) else plain
      make? (if a.isNegative == b.isNegative then (q : Int) else -(q : Int)) s

end Decimal

end SwapRouting
