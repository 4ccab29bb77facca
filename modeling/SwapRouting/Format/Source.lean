import SwapRouting.Amount

/-! Reading records from structured text.

A `Source` is a value of some format, seen as a reader sees it: it may have fields, items, or be a
scalar of one of a few sorts. A record is read either from fields, in any order and among others, or,
in some formats, from a list of its values in order. A reader gives nothing if any part is missing or of the wrong
sort. -/
namespace SwapRouting.Format
set_option autoImplicit false

class Source (V : Type) where
  fields? : V → Option (List (String × V))
  items? : V → Option (List V)
  text? : V → Option String
  flag? : V → Option Bool
  /-- A count below the bound. -/
  count? : Nat → V → Option Nat
  /-- A token amount. -/
  amount? : V → Option Nat
  decimal? : V → Option Decimal
  isNull : V → Bool
  /-- Whether each part of the value stands for itself, whatever a reader expects in its place, and
  whether the parts may lie so deep where so many containers lie around the value. -/
  isSound : Nat → V → Bool
  /-- Whether a list may stand for a record with so many fields. -/
  isRow : Nat → V → Bool

variable {V : Type} [Source V] {α : Type}

/-- The value under a name, if any; a name given twice spoils the record. -/
def fieldNamed? (fields : List (String × V)) (name : String) : Option (Option V) :=
  match fields.filter fun f => f.1 == name with
  | [] => some none
  | [f] => some (some f.2)
  | _ => none

/-- The results for all elements of a list, if each has one. -/
def readAll {β : Type} (f : β → Option α) : List β → Option (List α)
  | [] => some []
  | b :: r =>
    match f b, readAll f r with
    | some a, some as => some (a :: as)
    | _, _ => none

/-- The values of a record in the order of its names, nothing for one that is left out. -/
def record? (names : List String) (v : V) : Option (List (Option V)) :=
  match Source.fields? v with
  | some fields => readAll (fieldNamed? fields) names
  | none =>
    if Source.isRow names.length v then
      (Source.items? v).map fun items => (List.range names.length).map fun i => items[i]?
    else none

/-- A value that has to be there. -/
def required (f : V → Option α) (v : Option V) : Option α := v.bind f

/-- A value with a default for when it is left out. -/
def optional (f : V → Option α) (default : α) : Option V → Option α
  | none => some default
  | some v => f v

/-- A list of values. -/
def list? (f : V → Option α) (v : V) : Option (List α) := (Source.items? v).bind (readAll f)

/-- A count below 2 ^ 64. -/
def word64? (v : V) : Option Nat := Source.count? 18446744073709551616 v

/-- A count below 2 ^ 32. -/
def word32? (v : V) : Option Nat := Source.count? 4294967296 v

end SwapRouting.Format
