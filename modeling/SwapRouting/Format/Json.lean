import SwapRouting.Format.Source
import SwapRouting.Json.Document
import SwapRouting.Json.Printer

/-! Documents as a source of records: numbers are never taken for text nor text for numbers, except
that a decimal may be written either way. -/
namespace SwapRouting.Json
set_option autoImplicit false

/-- The fields of an object whose keys all stand for texts. -/
def textFields? : List (Literal × Value) → Option (List (String × Value))
  | [] => some []
  | (some k, v) :: r => (textFields? r).map ((k, v) :: ·)
  | (none, _) :: _ => none

namespace Value

def fields? : Value → Option (List (String × Value))
  | object fields => textFields? fields
  | _ => none

def items? : Value → Option (List Value)
  | array items => some items
  | _ => none

def text? : Value → Option String
  | string s => s
  | _ => none

def flag? : Value → Option Bool
  | bool b => some b
  | _ => none

def count? (bound : Nat) : Value → Option Nat
  | number n => n.below? bound
  | _ => none

def decimal? : Value → Option Decimal
  | string s => s.bind Decimal.read?
  | number n => n.decimal?
  | _ => none

def isNull : Value → Bool
  | null => true
  | _ => false

instance : Format.Source Value where
  fields? := fields?
  items? := items?
  text? := text?
  flag? := flag?
  count? := count?
  amount? := count? Amount.bound
  decimal? := decimal?
  isNull := isNull
  isSound around v := v.sound && decide (around + v.depth ≤ 127)
  isRow n v := (v.items?).any fun items => decide (items.length ≤ n)

end Value

end SwapRouting.Json
