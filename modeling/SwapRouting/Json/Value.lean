import SwapRouting.Decimal.Double

/-! Documents: what a text in JavaScript Object Notation stands for.

A document keeps the order and the repetitions of its fields, and a number keeps its digits, so that
each reader decides what it makes of them. A string literal may hold half of a surrogate pair; such a
literal stands for no text and is kept as `none`. -/
namespace SwapRouting.Json
set_option autoImplicit false

/-- A number as written: sign, digits before and after the point, and a power of ten with its sign. -/
structure Number where
  negative : Bool
  whole : List Char
  fraction : List Char
  exponent : Option (Bool × List Char)
deriving DecidableEq, Repr

/-- The text of a string literal, if it stands for one. -/
abbrev Literal := Option String

inductive Value where
  | null
  | bool (b : Bool)
  | number (n : Number)
  | string (s : Literal)
  | array (items : List Value)
  | object (fields : List (Literal × Value))
deriving Inhabited

/-! ## Numbers -/

namespace Number

/-- A natural number as written. -/
def ofNat (n : Nat) : Number where
  negative := false
  whole := Nat.toDigits 10 n
  fraction := []
  exponent := none

/-- The whole number written without point and power, sign apart. -/
def magnitude? (n : Number) : Option Nat :=
  if n.fraction.isEmpty && n.exponent.isNone then some (Nat.ofDigitChars 10 n.whole 0) else none

/-- The number as a count below `bound`; a sign, a point or a power is refused. -/
def below? (bound : Nat) (n : Number) : Option Nat :=
  if n.negative then none
  else n.magnitude?.bind fun m => if m < bound then some m else none

/-- Digits gathered into a significand that stays below 2 ^ 64: the value, the number of digits
taken, and the digits left over. -/
def gather (m taken : Nat) : List Char → Nat × Nat × List Char
  | [] => (m, taken, [])
  | c :: r =>
    let m' := 10 * m + (c.toNat - 48)
    if m' < 18446744073709551616 then gather m' (taken + 1) r else (m, taken, c :: r)

/-- The significand of the number and the power of ten behind it. Digits that no longer fit the
significand are dropped: those before the point still raise the power. -/
def significand (n : Number) : Nat × Int :=
  let (m, _, left) := gather 0 0 n.whole
  let (m', taken, _) := gather m 0 n.fraction
  (m', (left.length : Int) - taken)

/-- The written power of ten, held below 2 ^ 31; none where it is larger. -/
def power? (n : Number) : Option Int :=
  match n.exponent with
  | none => some 0
  | some (negative, ds) =>
    let k := Nat.ofDigitChars 10 ds 0
    if k < 2147483648 then some (if negative then -(k : Int) else k) else none

/-- A significand raised by a power of ten in floating point: one rounding for the significand, one
for each product or quotient. -/
def raise? (x : Double) (p : Int) : Option Double :=
  if 0 ≤ p then
    if 308 < p then (if x.isZero then some x else none)
    else (Double.nearest? (tenPow p.toNat) 1).bind fun t => x.mul? t
  else if p < -308 then
    if x.isZero then some x
    else (Double.nearest? (tenPow 308) 1).bind fun t => (x.div? t).bind fun y => raise? y (p + 308)
  else (Double.nearest? (tenPow (-p).toNat) 1).bind fun t => x.div? t
termination_by (-p).toNat
decreasing_by omega

/-- The number in floating point; none past the largest double. -/
def double? (n : Number) : Option Double :=
  let (m, p) := n.significand
  match n.power? with
  | some k => (Double.nearest? m 1).bind fun x => raise? x (p + k)
  | none =>
    match n.exponent with
    | some (false, _) => if m = 0 then some ⟨0, -1074⟩ else none
    | _ => some ⟨0, -1074⟩

/-- The number as a decimal: whole numbers of up to 64 bits exactly, all others through floating
point and its shortest digits. -/
def decimal? (n : Number) : Option Decimal :=
  let exact := n.magnitude?.bind fun m =>
    if n.negative then
      if 0 < m ∧ m ≤ 9223372036854775808 then Decimal.make? (-(m : Int)) 0 else none
    else if m < 18446744073709551616 then Decimal.make? m 0 else none
  exact.orElse fun _ => n.double?.bind (Double.toDecimal? n.negative)

end Number

/-! ## Fields -/

def Value.ofNat (n : Nat) : Value := .number (Number.ofNat n)

def Value.ofString (s : String) : Value := .string (some s)

/-- An object with these fields. -/
def Value.record (fields : List (String × Value)) : Value :=
  .object (fields.map fun f => (some f.1, f.2))

/-- A decimal as the string of its digits. -/
def Value.ofDecimal (d : Decimal) : Value := .string (some d.text)

def Value.ofList {α : Type} (f : α → Value) (xs : List α) : Value := .array (xs.map f)

end SwapRouting.Json
