import SwapRouting.Format.Source

/-! Paths into settings: keys divided by dots, each followed by indices in brackets, such as
`pools.codes[0]`. Keys stand for the same whether they are written in small or in capital letters. -/
namespace SwapRouting.Setting
set_option autoImplicit false

/-- A step from a setting to one inside it. -/
inductive Step where
  | key (k : String)
  /-- An item of a list; negative indices count from the end. -/
  | index (i : Int)
deriving DecidableEq, Repr

/-- The text in small letters. Beyond ASCII only the sign for Kelvin has a small letter within it. -/
def lower (s : String) : String :=
  String.ofList (s.toList.map fun c => if c = '\u212A' then 'k' else c.toLower)

/-! ## Keys and indices -/

def isKeyChar (c : Char) : Bool := c.isAlphanum || c == ' ' || c == '_' || c == '-'

def isGap (c : Char) : Bool := c == ' ' || c == '\t'

/-- The index that a text with its closing bracket stands for, such as `-1 ]`. -/
def index? (text : String) : Option Step :=
  let cs := text.toList.dropWhile isGap
  let isNegative := cs.head? == some '-'
  let cs := if isNegative then cs.tail else cs
  let digits := cs.takeWhile Char.isDigit
  let n : Int := Nat.ofDigitChars 10 digits 0
  let i := if isNegative then -n else n
  if digits.isEmpty || (cs.dropWhile Char.isDigit).dropWhile isGap != [']'] then none
  else if -9223372036854775808 ≤ i ∧ i < 9223372036854775808 then some (.index i)
  else none

/-- The steps of a key and the indices behind it. -/
def steps? (part : String) : Option (List Step) :=
  match part.splitOn "[" with
  | k :: indices =>
    if k.isEmpty || !k.toList.all isKeyChar then none
    else (Format.readAll index? indices).map (.key k :: ·)
  | [] => none

/-- The path that a name stands for; a name that is no path is a key itself. -/
def path (name : String) : List Step :=
  match Format.readAll steps? (name.splitOn ".") with
  | some parts => parts.flatten
  | none => [.key name]

end SwapRouting.Setting
