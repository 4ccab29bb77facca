import SwapRouting.Decimal.Literal
import SwapRouting.Format.Source
import SwapRouting.Yaml.Document
import SwapRouting.Yaml.Number

/-! Indented documents as a source of records. Every scalar can be taken for text; only one without
quotes can be taken for a number, a truth value or nothing, and where nothing is written for a list or a
record, it is empty. -/
namespace SwapRouting.Yaml
set_option autoImplicit false

/-! ## Scalars without quotes -/

def isNullText (s : String) : Bool := ["", "~", "null", "Null", "NULL"].contains s

def flagOf? (s : String) : Option Bool :=
  if ["true", "True", "TRUE"].contains s then some true
  else if ["false", "False", "FALSE"].contains s then some false
  else none

/-- A number in floating point as a decimal, or else what the text of a decimal stands for, as which
digits behind a zero are read, too. -/
def approximate? (cs : List Char) : Option Decimal :=
  match (if isPadded (unsigned cs).2 then none else Double.read? cs) with
  | some (isNegative, some x) => Double.toDecimal? isNegative x
  | _ => Decimal.read? (String.ofList cs)

/-- A whole number of more than 64 and up to 128 bits. -/
def isWide (cs : List Char) : Bool :=
  (natural? cs).any (fun m => decide (18446744073709551616 ≤ m) && decide (m < Amount.bound))
    || (negative? cs).any fun m =>
      decide (9223372036854775808 < m) && decide (m ≤ 170141183460469231731687303715884105728)

/-- The decimal that a scalar stands for: whole numbers of up to 64 bits exactly, and others through
floating point; whole numbers of up to 128 bits beyond those are refused. -/
def decimalOf? (s : String) : Option Decimal :=
  let cs := s.toList
  if isNullText s || (flagOf? s).isSome || isWide cs then none
  else
    match natural? cs, negative? cs with
    | some m, _ => if m < 18446744073709551616 then Decimal.make? m 0 else approximate? cs
    | none, some m => if m ≤ 9223372036854775808 then Decimal.make? (-(m : Int)) 0 else approximate? cs
    | none, none => approximate? cs

/-! ## Tags -/

/-- Whether a tag is one of the document's own, which no reader knows. -/
def isOwnTag (tag : String) : Bool := tag.toList.head? == some '!'

def numberTag : String := "tag:yaml.org,2002:int"

def realTag : String := "tag:yaml.org,2002:float"

def flagTag : String := "tag:yaml.org,2002:bool"

def nullTag : String := "tag:yaml.org,2002:null"

/-- The decimal that a scalar with a tag stands for. -/
def taggedDecimal? (tag s : String) : Option Decimal :=
  if isOwnTag tag || tag = flagTag || tag = nullTag then none
  else if tag = numberTag then
    if isWide s.toList || ((natural? s.toList).isNone && (negative? s.toList).isNone) then none
    else decimalOf? s
  else if tag = realTag then
    match Double.read? s.toList with
    | some (isNegative, some x) => Double.toDecimal? isNegative x
    | _ => none
  else Decimal.read? s

/-! ## Nodes -/

mutual

/-- Whether no scalar in the node is a whole number of more than 64 and up to 128 bits, and no tag is the
document's own. -/
def Node.isSound : Node → Bool
  | .scalar s style => !(style == .plain && isWide s.toList)
  | .sequence items => areSoundItems items
  | .mapping entries => areSoundEntries entries
  | .tagged tag v => !isOwnTag tag && v.isSound
  | .anchored _ v => v.isSound
  | .alias _ => true

def areSoundItems : List Node → Bool
  | [] => true
  | v :: r => v.isSound && areSoundItems r

def areSoundEntries : List (Node × Node) → Bool
  | [] => true
  | (k, v) :: r => k.isSound && v.isSound && areSoundEntries r

end

namespace Node

/-- The node without a tag. -/
def untagged : Node → Node
  | tagged _ v => v
  | v => v

def text? (v : Node) : Option String :=
  match v.untagged with
  | scalar s _ => some s
  | _ => none

/-- The entries of a mapping whose keys are all scalars. -/
def fields? (v : Node) : Option (List (String × Node)) :=
  match v.untagged with
  | mapping entries => entries.mapM fun e => (text? e.1).map fun k => (k, e.2)
  | scalar "" .plain => some []
  | _ => none

def items? (v : Node) : Option (List Node) :=
  match v.untagged with
  | sequence items => some items
  | scalar "" .plain => some []
  | _ => none

/-- The text of a scalar that can be taken for something else: one without quotes, or a literal block with
the tag of what it is taken for. -/
def word? (tag : String) : Node → Option String
  | scalar s .plain => some s
  | tagged _ (scalar s .plain) => some s
  | tagged t (scalar s .literal) => if t = tag then some s else none
  | _ => none

def flag? (v : Node) : Option Bool := (v.word? flagTag).bind flagOf?

def count? (bound : Nat) (v : Node) : Option Nat :=
  ((v.word? numberTag).bind fun s => natural? s.toList).bind fun m => if m < bound then some m else none

def decimal? : Node → Option Decimal
  | scalar s .plain => decimalOf? s
  | scalar s _ => Decimal.read? s
  | tagged tag (scalar s _) => taggedDecimal? tag s
  | _ => none

def isNull : Node → Bool
  | scalar s .plain => isNullText s
  | _ => false

instance : Format.Source Node where
  fields? := fields?
  items? := items?
  text? := text?
  flag? := flag?
  count? := count?
  amount? := count? Amount.bound
  decimal? := decimal?
  isNull := isNull
  isSound around v := v.isSound && decide (around + v.depth ≤ 128)
  isRow _ _ := false

end Node

end SwapRouting.Yaml
