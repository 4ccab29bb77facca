import SwapRouting.Decimal.Basic
import SwapRouting.Digits

/-! The text of a decimal.

`text` writes every place, so `0.0100` keeps its two zeros. `parse?` reads plain notation: digits
that no longer fit are rounded away by the first of them, a five going up. `scientific?` reads a power
of ten behind a plain decimal, and `read?` takes either notation. -/
namespace SwapRouting
set_option autoImplicit false

namespace Decimal

/-! ## Writing -/

/-- The digits of `m` with a point before the last `s` of them. -/
def placed (m s : Nat) : List Char :=
  let ds := Nat.toDigits 10 m
  let padded := List.replicate (s + 1 - ds.length) '0' ++ ds
  if s = 0 then ds else padded.take (padded.length - s) ++ '.' :: padded.drop (padded.length - s)

def chars (a : Decimal) : List Char :=
  if a.isNegative then '-' :: placed a.mantissa a.scale else placed a.mantissa a.scale

/-- All places of the decimal, zeros included. -/
def text (a : Decimal) : String := String.ofList a.chars

/-- The value alone: no zeros at the end of the fraction. -/
def valueText (a : Decimal) : String := a.normalize.text

/-! ## Reading plain notation -/

/-- The coefficient `m` with `s` places, raised by one in its last place; a place is given up where
it would leave the range. -/
def raiseLast (m s : Nat) : Option (Nat × Nat) :=
  if m + 1 < bound then some (m + 1, s)
  else if s = 0 then none
  else some ((m + 5) / 10, s - 1)

/-- Rounds the coefficient `m` by the first digit of the text that no longer fits. That text holds
digits and underscores only. -/
def roundBy (m s : Nat) (excess : List Char) : Option (Nat × Nat) :=
  if excess.all fun c => c.isDigit || c == '_' then
    match excess.find? Char.isDigit with
    | some c => if '5' ≤ c then raiseLast m s else some (m, s)
    | none => some (m, s)
  else none

/-- Reads digits behind the coefficient `m` with `s` places; `point` and `seen` tell whether a point
and a digit came before. -/
def scan (point seen : Bool) (m s : Nat) : List Char → Option (Nat × Nat)
  | [] => if seen then some (m, s) else none
  | c :: rest =>
    match digitValue? c with
    | some d =>
      let m' := 10 * m + d
      if bound ≤ m' then (if point then roundBy m s (c :: rest) else none)
      else if point = false then scan false true m' s rest
      else if maxScale ≤ s + 1 then roundBy m' (s + 1) rest
      else scan true true m' (s + 1) rest
    | none =>
      if c = '.' ∧ point = false then scan true seen m s rest
      else if c = '_' ∧ seen = true then scan point seen m s rest
      else none

/-- Reads plain notation: a sign, then digits with at most one point and with underscores behind
the first of them. -/
def parse? : List Char → Option Decimal
  | '-' :: r => (scan false false 0 0 r).bind fun (m, s) => make? (-(m : Int)) s
  | '+' :: r => (scan false false 0 0 r).bind fun (m, s) => make? m s
  | r => (scan false false 0 0 r).bind fun (m, s) => make? m s

/-! ## Reading a power of ten -/

/-- A count below 2 ^ 32 in digits, a plus sign allowed. -/
def exponent? (cs : List Char) : Option Nat :=
  let ds := match cs with
    | '+' :: r => r
    | r => r
  if ds.isEmpty || ds.any (fun c => !c.isDigit) then none
  else
    let n := Nat.ofDigitChars 10 ds 0
    if n < 4294967296 then some n else none

/-- The product with ten to the power `n`, taken nineteen zeros at a time. -/
def timesTenPow (a : Decimal) (n : Nat) : Option Decimal := do
  if n < 19 then
    let p ← make? (tenPow n : Nat) 0
    a.mul? p
  else
    let p ← make? (tenPow 19 : Nat) 0
    let b ← a.mul? p
    if n = 19 then some b
    else
      let q ← make? (tenPow (n - 19) : Nat) 0
      b.mul? q

/-- The decimal `a` times ten to the power `n`: fewer places as long as there are any. -/
def scaleUp (a : Decimal) (n : Nat) : Option Decimal :=
  if n ≤ a.scale then make? a.coefficient (a.scale - n)
  else if maxScale < n then none
  else (a.timesTenPow n).map normalize

/-- The decimal `a` divided by ten to the power `n`. Places past the last one are rounded away
first, a half going away from zero. -/
def scaleDown (a : Decimal) (n : Nat) : Option Decimal :=
  if maxScale < n then none
  else if a.scale + n ≤ maxScale then make? a.coefficient (a.scale + n)
  else
    let p := tenPow (a.scale + n - maxScale)
    make? (signed a.coefficient ((2 * a.mantissa + p) / (2 * p))) maxScale

/-- Reads `<decimal>e<exponent>`. -/
def scientific? (cs : List Char) : Option Decimal := do
  let isMark := fun c => c == 'e' || c == 'E'
  let a ← parse? (cs.takeWhile fun c => !isMark c)
  match cs.dropWhile (fun c => !isMark c) with
  | [] => none
  | _ :: '-' :: r => do
    let n ← exponent? r
    a.scaleDown n
  | _ :: r => do
    let n ← exponent? r
    a.scaleUp n

/-- Reads plain notation, or else a power of ten. -/
def read? (s : String) : Option Decimal :=
  (parse? s.toList).orElse fun _ => scientific? s.toList

end Decimal

end SwapRouting
