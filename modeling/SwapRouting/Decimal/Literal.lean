import SwapRouting.Decimal.Double

/-! Numbers in floating point as texts spell them: a sign, digits with at most one point among them, and a
power of ten. -/
namespace SwapRouting.Double
set_option autoImplicit false

/-- The digits before and behind the point of a number, of which there is at least one, and the
rest. -/
def pointed? (cs : List Char) : Option (List Char × List Char × List Char) :=
  let whole := cs.takeWhile Char.isDigit
  let rest := cs.dropWhile Char.isDigit
  let (fraction, rest) := match rest with
    | '.' :: r => (r.takeWhile Char.isDigit, r.dropWhile Char.isDigit)
    | r => ([], r)
  if whole.isEmpty && fraction.isEmpty then none else some (whole, fraction, rest)

/-- A power of ten behind a number. -/
def power? : List Char → Option Int
  | [] => some 0
  | c :: r =>
    if c = 'e' ∨ c = 'E' then
      let (isNegative, digits) := unsigned r
      (inBase? 10 digits).map fun k => if isNegative then -(k : Int) else k
    else none

/-- The double nearest to `m * 10 ^ e`; none past the largest one. Powers that no digits of `m` make up
for are not computed. -/
def ofPower? (m : Nat) (e : Int) : Option Double :=
  let top := e + (Nat.toDigits 10 m).length
  if m = 0 ∨ top < -400 then some ⟨0, -1074⟩
  else if 400 < top then none
  else ofDigits? m e

/-- Reads a number: whether it is negative, and its size unless that lies past the largest double. -/
def read? (cs : List Char) : Option (Bool × Option Double) := do
  let (isNegative, body) := unsigned cs
  let (whole, fraction, rest) ← pointed? body
  let k ← power? rest
  some (isNegative, ofPower? (Nat.ofDigitChars 10 (whole ++ fraction) 0) (k - fraction.length))

end SwapRouting.Double
