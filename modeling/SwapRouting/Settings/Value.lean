import SwapRouting.Decimal.Double
import SwapRouting.Settings.Path

/-! Settings as trees of tables. A tree is built from a document and from single values put at a path;
keys are stored in small letters. As a source of records it converts freely between scalars: numbers and
truth values may be written as text, and the other way round. -/
namespace SwapRouting
set_option autoImplicit false

inductive Setting where
  | nothing
  | flag (b : Bool)
  /-- A whole number of 64 bits with a sign. -/
  | whole (n : Int)
  /-- A number in floating point, whose size may lie past the largest double. -/
  | real (negative : Bool) (size : Option Double)
  | text (s : String)
  | list (items : List Setting)
  | table (entries : List (String × Setting))
deriving Inhabited

namespace Setting

/-! ## Tables -/

/-- The entries of a table; none of anything else. -/
def entries : Setting → List (String × Setting)
  | table es => es
  | _ => []

/-- The entries with a value stored under a key. -/
def store (k : String) (v : Setting) : List (String × Setting) → List (String × Setting)
  | [] => [(k, v)]
  | e :: r => if e.1 = k then (k, v) :: r else e :: store k v r

/-- The value stored under a key. -/
def lookup? (k : String) (es : List (String × Setting)) : Option Setting :=
  (es.find? fun e => e.1 == k).map (·.2)

mutual

/-- The setting `old`, if there is one, overlaid by a new one: tables entry by entry, anything else as a
whole. A table without entries leaves the old setting as it is. -/
def overlay (old : Option Setting) : Setting → Setting
  | table [] => old.getD (table [])
  | table (e :: es) => table (overlayAll ((old.map entries).getD []) (e :: es))
  | nothing => nothing
  | flag b => flag b
  | whole n => whole n
  | real negative size => real negative size
  | text s => text s
  | list items => list items

/-- The entries of a table overlaid by new ones. -/
def overlayAll (old : List (String × Setting)) : List (String × Setting) → List (String × Setting)
  | [] => old
  | (k, v) :: r => overlayAll (store (lower k) (overlay (lookup? (lower k) old) v) old) r

end

/-! ## Paths -/

/-- The items of a list; none of anything else. -/
def items : Setting → List Setting
  | list vs => vs
  | _ => []

/-- The place of an index in a list of `n` items; none for one that counts back past the first. -/
def position? (n : Nat) (i : Int) : Option Nat :=
  if 0 ≤ i then some i.toNat
  else if i.natAbs ≤ n then some (n - i.natAbs)
  else none

/-- The items with one replaced, behind as many items without content as it takes. -/
def storeAt (n : Nat) (v : Setting) (vs : List Setting) : List Setting :=
  (vs ++ List.replicate (n + 1 - vs.length) nothing).set n v

/-- The setting with a value put at a path. At a key the value overlays what is there, and at an index it
replaces it; whatever else stands in the way of the path is replaced by tables and lists. None if an index
counts back past the first item of its list. -/
def put? (v root : Setting) : List Step → Option Setting
  | [] => some v
  | [.key k] => some (table (store (lower k) (overlay (lookup? (lower k) root.entries) v) root.entries))
  | .key k :: path =>
    (put? v ((lookup? (lower k) root.entries).getD nothing) path).map fun c =>
      table (store (lower k) c root.entries)
  | .index i :: path => do
    let n ← position? root.items.length i
    let c ← put? v (root.items[n]?.getD nothing) path
    some (list (storeAt n c root.items))

/-! ## Conversions -/

/-- The truth value that a word stands for. -/
def wordFlag? (s : String) : Option Bool :=
  if ["1", "true", "on", "yes"].contains (lower s) then some true
  else if ["0", "false", "off", "no"].contains (lower s) then some false
  else none

def flag? : Setting → Option Bool
  | flag b => some b
  | whole n => some (n != 0)
  | real _ size => some (!(size.any Double.isZero))
  | text s => wordFlag? s
  | _ => none

/-- One past the largest word of 64 bits. -/
abbrev wordBound : Nat := 18446744073709551616

/-- Digits of a word of 64 bits, a plus sign allowed. -/
def digitsWord? (cs : List Char) : Option Nat :=
  let ds := match cs with
    | '+' :: r => r
    | r => r
  if ds.isEmpty || !ds.all Char.isDigit then none
  else
    let n := Nat.ofDigitChars 10 ds 0
    if n < wordBound then some n else none

/-- The word of 64 bits that a scalar stands for: a number in floating point is rounded and held in
range. -/
def word? : Setting → Option Nat
  | flag b => some (if b then 1 else 0)
  | whole n => if 0 ≤ n then some n.toNat else none
  | real negative size =>
    some (if negative then 0 else ((size.map Double.round).map (min (wordBound - 1))).getD (wordBound - 1))
  | text s =>
    if ["true", "on", "yes"].contains (lower s) then some 1
    else if ["false", "off", "no"].contains (lower s) then some 0
    else digitsWord? s.toList
  | _ => none

/-- The text of a scalar. -/
def text? : Setting → Option String
  | text s => some s
  | flag b => some (if b then "true" else "false")
  | whole n => some (if n < 0 then "-" ++ n.natAbs.repr else n.natAbs.repr)
  | real negative size =>
    let cs := (size.map Double.plainChars).getD ['i', 'n', 'f']
    some (String.ofList (if negative then '-' :: cs else cs))
  | _ => none

def decimal? : Setting → Option Decimal
  | whole n => Decimal.make? n 0
  | real negative size => size.bind (Double.toDecimal? negative)
  | text s => Decimal.read? s
  | _ => none

def fields? : Setting → Option (List (String × Setting))
  | table es => some es
  | _ => none

def items? : Setting → Option (List Setting)
  | list items => some items
  | _ => none

def isNothing : Setting → Bool
  | nothing => true
  | _ => false

/-- Settings hold no amounts of 128 bits. Counts are taken from words of 64 bits. -/
instance : Format.Source Setting where
  fields? := fields?
  items? := items?
  text? := text?
  flag? := flag?
  count? bound v := v.word?.bind fun n => if n < bound then some n else none
  amount? _ := none
  decimal? := decimal?
  isNull := isNothing
  isSound _ _ := true
  isRow _ _ := true

end Setting

end SwapRouting
