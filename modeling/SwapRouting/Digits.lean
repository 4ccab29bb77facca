/-! Digits and the numbers and characters that they spell. -/
namespace SwapRouting
set_option autoImplicit false

/-- The value of a decimal digit. -/
def digitValue? (c : Char) : Option Nat :=
  if c.isDigit then some (c.toNat - 48) else none

/-- The value of a hexadecimal digit. -/
def hexValue? (c : Char) : Option Nat :=
  if c.isDigit then some (c.toNat - 48)
  else if 97 ≤ c.toNat ∧ c.toNat ≤ 102 then some (c.toNat - 87)
  else if 65 ≤ c.toNat ∧ c.toNat ≤ 70 then some (c.toNat - 55)
  else none

/-- The number that one or more digits spell in a base of up to 16. -/
def inBase? (base : Nat) (cs : List Char) : Option Nat :=
  if cs.isEmpty then none
  else
    cs.foldlM (fun n c =>
      (hexValue? c).bind fun d => if d < base then some (base * n + d) else none) 0

/-- The text without a plus sign in front. -/
def withoutPlus : List Char → List Char
  | '+' :: r => r
  | cs => cs

/-- The text without a sign in front, and whether that was a minus sign. -/
def unsigned : List Char → Bool × List Char
  | '-' :: r => (true, r)
  | cs => (false, withoutPlus cs)

/-- The whole number of 64 bits that digits with a sign in front spell in a base. -/
def int64? (base : Nat) (cs : List Char) : Option Int :=
  let (isNegative, digits) := unsigned cs
  (inBase? base digits).bind fun m =>
    let n : Int := if isNegative then -(m : Int) else m
    if -9223372036854775808 ≤ n ∧ n < 9223372036854775808 then some n else none

/-- The character with a code point, which no surrogate is. -/
def charAt? (n : Nat) : Option Char := if n.isValidChar then some (Char.ofNat n) else none

end SwapRouting
