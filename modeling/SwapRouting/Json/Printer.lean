import SwapRouting.Json.Value

/-! Writing a document.

`compact` leaves out all blanks. `pretty` puts every member on a line of its own, two blanks deeper
than its container, and keeps an empty container on one line. Both escape only the quote, the
backslash and the control characters below the blank. -/
namespace SwapRouting.Json
set_option autoImplicit false

/-! ## Literals -/

/-- The lower-case hexadecimal digit of a number below sixteen. -/
def hexDigit (n : Nat) : Char := Char.ofNat (if n < 10 then n + 48 else n + 87)

/-- A character inside a string literal. -/
def escaped (c : Char) : List Char :=
  if c = '"' then ['\\', '"']
  else if c = '\\' then ['\\', '\\']
  else if c = '\x08' then ['\\', 'b']
  else if c = '\x0c' then ['\\', 'f']
  else if c = '\n' then ['\\', 'n']
  else if c = '\r' then ['\\', 'r']
  else if c = '\t' then ['\\', 't']
  else if c.toNat < 32 then
    ['\\', 'u', '0', '0', hexDigit (c.toNat / 16), hexDigit (c.toNat % 16)]
  else [c]

def quoted (s : String) : List Char := '"' :: s.toList.flatMap escaped ++ ['"']

/-- A literal; one that stands for no text is written empty. -/
def literal (s : Literal) : List Char := quoted (s.getD "")

def Number.chars (n : Number) : List Char :=
  (if n.negative then ['-'] else []) ++ n.whole
    ++ (if n.fraction.isEmpty then [] else '.' :: n.fraction)
    ++ (match n.exponent with
      | none => []
      | some (negative, ds) => 'e' :: (if negative then ['-'] else []) ++ ds)

def boolChars (b : Bool) : List Char :=
  if b then ['t', 'r', 'u', 'e'] else ['f', 'a', 'l', 's', 'e']

/-! ## Without blanks -/

mutual

def Value.compactChars : Value → List Char
  | .null => ['n', 'u', 'l', 'l']
  | .bool b => boolChars b
  | .number n => n.chars
  | .string s => literal s
  | .array items => '[' :: compactItems items ++ [']']
  | .object fields => '\x7b' :: compactFields fields ++ ['\x7d']

def compactItems : List Value → List Char
  | [] => []
  | [v] => v.compactChars
  | v :: r => v.compactChars ++ ',' :: compactItems r

def compactFields : List (Literal × Value) → List Char
  | [] => []
  | [(k, v)] => literal k ++ ':' :: v.compactChars
  | (k, v) :: r => literal k ++ ':' :: v.compactChars ++ ',' :: compactFields r

end

def Value.compact (v : Value) : String := String.ofList v.compactChars

/-! ## One member a line -/

/-- A new line at depth `n`. -/
def newLine (n : Nat) : List Char := '\n' :: List.replicate (2 * n) ' '

mutual

/-- The text of a value whose own line lies at depth `n`. -/
def Value.prettyChars (n : Nat) : Value → List Char
  | .array [] => ['[', ']']
  | .array items => '[' :: prettyItems (n + 1) items ++ newLine n ++ [']']
  | .object [] => ['\x7b', '\x7d']
  | .object fields => '\x7b' :: prettyFields (n + 1) fields ++ newLine n ++ ['\x7d']
  | .null => ['n', 'u', 'l', 'l']
  | .bool b => boolChars b
  | .number m => m.chars
  | .string s => literal s

def prettyItems (n : Nat) : List Value → List Char
  | [] => []
  | [v] => newLine n ++ v.prettyChars n
  | v :: r => newLine n ++ v.prettyChars n ++ ',' :: prettyItems n r

def prettyFields (n : Nat) : List (Literal × Value) → List Char
  | [] => []
  | [(k, v)] => newLine n ++ literal k ++ ':' :: ' ' :: v.prettyChars n
  | (k, v) :: r => newLine n ++ literal k ++ ':' :: ' ' :: v.prettyChars n ++ ',' :: prettyFields n r

end

def Value.pretty (v : Value) : String := String.ofList (v.prettyChars 0)

end SwapRouting.Json
