/-! The characters of an indented document, each with its place.

Columns tell how blocks nest, and lines and distances tell whether a scalar can still be a key, so every
character carries its place. A line break is one character in whatever way it is written.

A document is read with more or less `Rigor`; what the two differ in is said where it matters. -/
namespace SwapRouting.Yaml
set_option autoImplicit false

/-- How strictly a document is read. A strict reader takes printable characters alone. -/
inductive Rigor where
  | strict
  | lenient
deriving DecidableEq, Repr

structure Place where
  /-- How many characters stand before it in the text. -/
  index : Nat
  line : Nat
  column : Nat
deriving DecidableEq, Repr

def Place.start : Place := ⟨0, 0, 0⟩

/-- The place behind `n` characters of one line. -/
def Place.right (p : Place) (n : Nat) : Place := ⟨p.index + n, p.line, p.column + n⟩

/-- The start of the next line, behind a break of `n` characters. -/
def Place.down (p : Place) (n : Nat) : Place := ⟨p.index + n, p.line + 1, 0⟩

structure Cell where
  char : Char
  place : Place
deriving DecidableEq, Repr

/-! ## Sorts of characters -/

def isBlank (c : Char) : Bool := c == ' ' || c == '\t'

/-- Line breaks: that of a line, and the separators of lines and paragraphs. -/
def isBreak (c : Char) : Bool := c == '\n' || c == '\u2028' || c == '\u2029'

/-- The marks that brackets bring with them. -/
def isFlowMark (c : Char) : Bool := c == ',' || c == '[' || c == ']' || c == '{' || c == '}'

/-- The mark that may stand before the first character of a text. -/
def byteOrderMark : Char := '\uFEFF'

/-- Tabs, breaks and whatever can be printed. -/
def isPrintable (c : Char) : Bool :=
  c == '\t' || c == '\n' || c == '\r' || c == '\x85'
    || (decide (0x20 ≤ c.toNat) && decide (c.toNat ≤ 0x7E))
    || (decide (0xA0 ≤ c.toNat) && decide (c.toNat ≤ 0xFFFD)) || decide (0x10000 ≤ c.toNat)

/-! ## Places -/

/-- The characters of a text from a place on. -/
def cellsFrom (p : Place) : List Char → List Cell
  | [] => []
  | '\r' :: '\n' :: r => ⟨'\n', p⟩ :: cellsFrom (p.down 2) r
  | c :: r =>
    if c = '\n' ∨ c = '\r' ∨ c = '\x85' then ⟨'\n', p⟩ :: cellsFrom (p.down 1) r
    else ⟨c, p⟩ :: cellsFrom (if isBreak c then p.down 1 else p.right 1) r

/-- The text without a mark before its first character. -/
def unmarked : List Char → List Char
  | c :: r => if c = byteOrderMark then r else c :: r
  | [] => []

/-- The characters of a text; none if it holds any that a document may not hold. -/
def cells? (rigor : Rigor) (s : String) : Option (List Cell) :=
  if rigor = .lenient ∨ s.toList.all isPrintable then some (cellsFrom .start (unmarked s.toList))
  else none

/-! ## What stands at a place -/

/-- Whether the text ends here or goes on with a blank or a break. -/
def atBlank : List Cell → Bool
  | [] => true
  | c :: _ => isBlank c.char || isBreak c.char

/-- Whether a line starts here with the three hyphens or points between documents. -/
def atDocumentMark : List Cell → Bool
  | a :: b :: c :: r =>
    a.place.column == 0 && (a.char == '-' || a.char == '.') && b.char == a.char && c.char == a.char
      && atBlank r
  | _ => false

end SwapRouting.Yaml
