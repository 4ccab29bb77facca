import SwapRouting.Decimal.Literal

/-! Values of a document in tables, and the words that spell numbers and truth values. A number may have
underscores between its digits, and a zero in front only where it is the whole number before the point.
Dates are refused. -/
namespace SwapRouting.Toml
set_option autoImplicit false

inductive Value where
  | text (s : String)
  /-- A whole number of 64 bits with a sign. -/
  | whole (n : Int)
  /-- A number in floating point, whose size may be infinite. -/
  | real (negative : Bool) (size : Option Double)
  | flag (b : Bool)
  | array (items : List Value)
  | table (entries : List (String × Value))
deriving Inhabited

/-! ## Words -/

/-- The text without underscores, each of which has to stand between two digits; `afterDigit` tells
whether a digit came before. -/
def joined? (isDigit : Char → Bool) (afterDigit : Bool) : List Char → Option (List Char)
  | [] => some []
  | c :: r =>
    if c = '_' then (if afterDigit && r.head?.any isDigit then joined? isDigit false r else none)
    else (joined? isDigit (isDigit c) r).map (c :: ·)

/-- Whether digits stand for a whole number in base ten: no zero comes before others. -/
def isPlain (digits : List Char) : Bool :=
  digits == ['0'] || (!digits.isEmpty && digits.head? != some '0' && digits.all Char.isDigit)

/-- A whole number. Only in base ten it may have a sign. -/
def whole? (cs : List Char) : Option Int :=
  match cs with
  | '0' :: 'x' :: '+' :: _ => none
  | '0' :: 'x' :: '-' :: _ => none
  | '0' :: 'x' :: r => int64? 16 r
  | '0' :: 'o' :: '+' :: _ => none
  | '0' :: 'o' :: '-' :: _ => none
  | '0' :: 'o' :: r => int64? 8 r
  | '0' :: 'b' :: '+' :: _ => none
  | '0' :: 'b' :: '-' :: _ => none
  | '0' :: 'b' :: r => int64? 2 r
  | cs => if isPlain (unsigned cs).2 then int64? 10 cs else none

/-- A number in floating point: digits stand on both sides of a point. -/
def real? (cs : List Char) : Option Value :=
  let body := (unsigned cs).2
  let rest := body.dropWhile Char.isDigit
  let isPointed := rest.head? == some '.'
  if body = ['i', 'n', 'f'] then some (.real (unsigned cs).1 none)
  else if rest.isEmpty || !isPlain (body.takeWhile Char.isDigit) then none
  else if isPointed && !((rest.tail.head?).any Char.isDigit) then none
  else
    match Double.read? cs with
    | some (isNegative, some x) => some (.real isNegative (some x))
    | _ => none

def isWordChar (c : Char) : Bool :=
  c.isAlphanum || c == '_' || c == '+' || c == '-' || c == '.' || c == ':'

/-- The value that a word stands for. -/
def ofWord? (cs : List Char) : Option Value :=
  if cs = ['t', 'r', 'u', 'e'] then some (.flag true)
  else if cs = ['f', 'a', 'l', 's', 'e'] then some (.flag false)
  else
    let isDigit := if cs.take 2 = ['0', 'x'] then fun c => (hexValue? c).isSome else Char.isDigit
    (joined? isDigit false cs).bind fun cs =>
      match whole? cs with
      | some n => some (.whole n)
      | none => real? cs

end SwapRouting.Toml
