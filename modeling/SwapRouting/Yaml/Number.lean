import SwapRouting.Digits

/-! Whole numbers as scalars spell them: in base ten, or in base 16, 8 or 2 behind `0x`, `0o` or `0b`.
Digits behind a zero spell no number. -/
namespace SwapRouting.Yaml
set_option autoImplicit false

/-- Whether there are only digits and the first of several is a zero. -/
def isPadded (cs : List Char) : Bool :=
  decide (1 < cs.length) && cs.head? == some '0' && cs.all Char.isDigit

/-- A whole number without a sign. -/
def magnitude? : List Char → Option Nat
  | '0' :: 'x' :: r => inBase? 16 r
  | '0' :: 'o' :: r => inBase? 8 r
  | '0' :: 'b' :: r => inBase? 2 r
  | cs => if isPadded cs then none else inBase? 10 cs

/-- A whole number that may have a plus sign. -/
def natural? (cs : List Char) : Option Nat := magnitude? (withoutPlus cs)

/-- The size of a whole number behind a minus sign. -/
def negative? : List Char → Option Nat
  | '-' :: r => magnitude? r
  | _ => none

end SwapRouting.Yaml
