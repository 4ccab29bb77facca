import SwapRouting.Yaml.Block
import SwapRouting.Yaml.Name
import SwapRouting.Yaml.Scalar

/-! Marks of an indented document: scalars, brackets, names, and the starts and ends of blocks.

`Scanner.step?` reads one mark. Columns are turned into marks on the way: a block starts where a key or a
dash stands further right than the block around it and ends where the text returns to the left. Only a
colon tells that what stands before it was a key, so the scanner remembers for each pair of brackets around
it where a key may have started. Such a start is given up at the end of its line and after 1024
characters; a lenient reader does so outside brackets alone. -/
namespace SwapRouting.Yaml
set_option autoImplicit false

/-- How a scalar is written. -/
inductive Style where
  | plain
  | quoted
  /-- As a block whose breaks stay. -/
  | literal
deriving DecidableEq, Repr

inductive Mark where
  | directive (d : Directive)
  /-- A line that opens a document. -/
  | opening
  /-- A line that closes a document. -/
  | closing
  | openSequence
  | openMapping
  | closeBlock
  /-- An item of a block follows. -/
  | dash
  | openItems
  | closeItems
  | openEntries
  | closeEntries
  | comma
  /-- A key follows. -/
  | key
  /-- The value of a key follows. -/
  | value
  /-- A name for the node that follows. -/
  | anchor (name : String)
  /-- The node with a name. -/
  | alias (name : String)
  /-- The tag of the node that follows: a handle and the rest of its name. -/
  | tag (handle rest : String)
  | scalar (text : List Char) (style : Style)
deriving DecidableEq, Repr

/-- A place where a key may have started. -/
structure KeyStart where
  /-- How many marks stand before it. -/
  before : Nat
  place : Place
  /-- Whether nothing but a key can stand here. -/
  required : Bool
deriving DecidableEq, Repr

/-- Whether what started here can no longer be a key at the place `p`. -/
def KeyStart.isLost (k : KeyStart) (p : Place) : Bool :=
  decide (k.place.line < p.line) || decide (k.place.index + 1024 < p.index)

/-- The start of a key as it stands at a later place; none if a key is missing. -/
def KeyStart.kept? (p : Place) : Option KeyStart → Option (Option KeyStart)
  | none => some none
  | some k => if !k.isLost p then some (some k) else if k.required then none else some none

structure Scanner where
  rigor : Rigor
  /-- The marks so far, last one first. -/
  marks : List Mark
  /-- The number of marks so far. -/
  count : Nat
  /-- The columns of the open blocks, innermost first. -/
  columns : List Nat
  /-- Where a key may have started inside the innermost brackets. -/
  key : Option KeyStart
  /-- The same for each pair of brackets around, innermost first; empty outside all brackets. -/
  outer : List (Option KeyStart)
  /-- Whether a key may start here. -/
  keyAllowed : Bool
deriving Repr

namespace Scanner

def start (rigor : Rigor) : Scanner where
  rigor := rigor
  marks := []
  count := 0
  columns := []
  key := none
  outer := []
  keyAllowed := true

def inFlow (s : Scanner) : Bool := !s.outer.isEmpty

/-- The least column of a scalar inside the innermost block. -/
def least (s : Scanner) : Nat :=
  match s.columns with
  | [] => 0
  | c :: _ => c + 1

/-! ## Marks and blocks -/

def push (s : Scanner) (m : Mark) : Scanner := { s with marks := m :: s.marks, count := s.count + 1 }

/-- The scanner with marks put in behind the first `n`. -/
def insert (s : Scanner) (n : Nat) (ms : List Mark) : Scanner :=
  { s with
    marks := s.marks.take (s.count - n) ++ ms.reverse ++ s.marks.drop (s.count - n)
    count := s.count + ms.length }

/-- Whether a block at a column would lie inside those that are open. -/
def opensBlock (s : Scanner) (column : Nat) : Bool :=
  !s.inFlow && decide (s.least ≤ column)

/-- Opens a block at a column, unless one is open there. -/
def openBlock (s : Scanner) (column : Nat) (m : Mark) : Scanner :=
  if s.opensBlock column then { s.push m with columns := column :: s.columns } else s

/-- Closes the blocks right of a column, or all of them. Brackets keep their blocks open. -/
def closeBlocks (s : Scanner) (column : Option Nat) : Scanner :=
  if s.inFlow then s
  else
    let isRight := fun c => column.all fun k => decide (k < c)
    let closed := s.columns.takeWhile isRight
    { s with
      marks := closed.map (fun _ => Mark.closeBlock) ++ s.marks
      count := s.count + closed.length
      columns := s.columns.dropWhile isRight }

/-! ## Keys -/

/-- The starts of keys as they stand at a place. -/
def keepKeys? (s : Scanner) (p : Place) : Option Scanner :=
  if s.rigor = .lenient ∧ s.inFlow then some s
  else do
    let key ← KeyStart.kept? p s.key
    let outer ← s.outer.mapM (KeyStart.kept? p)
    some { s with key := key, outer := outer }

/-- Gives up the start of a key. -/
def dropKey? (s : Scanner) : Option Scanner :=
  if s.key.any KeyStart.required then none else some { s with key := none }

/-- Remembers that a key may start at a place. -/
def saveKey? (s : Scanner) (p : Place) : Option Scanner :=
  if s.keyAllowed then
    s.dropKey?.map fun s =>
      { s with key := some ⟨s.count, p, !s.inFlow && s.columns.head? == some p.column⟩ }
  else some s

/-! ## One mark -/

/-- A bracket is opened. -/
def openFlow? (s : Scanner) (p : Place) (m : Mark) : Option Scanner :=
  (s.saveKey? p).map fun s =>
    { s.push m with key := none, outer := s.key :: s.outer, keyAllowed := true }

/-- A bracket is closed. -/
def closeFlow? (s : Scanner) (m : Mark) : Option Scanner :=
  s.dropKey?.map fun s =>
    { s.push m with
      key := s.outer.head?.getD none
      outer := s.outer.tail
      keyAllowed := false }

def comma? (s : Scanner) : Option Scanner :=
  s.dropKey?.map fun s => { s.push .comma with keyAllowed := true }

/-- The mark `m` of an item or of a key that stands in front of it; the block `block` starts here if none
is open. -/
def entry? (s : Scanner) (p : Place) (m block : Mark) (thenAllowed : Bool) : Option Scanner :=
  if !s.inFlow && !s.keyAllowed then none
  else
    (s.openBlock p.column block).dropKey?.map fun s => { s.push m with keyAllowed := thenAllowed }

/-- A colon: what started last was a key, or else nothing is the key. -/
def value? (s : Scanner) (p : Place) : Option Scanner :=
  match s.key with
  | some k =>
    let opens := s.opensBlock k.place.column
    let s := s.insert k.before (if opens then [.openMapping, .key] else [.key])
    let columns := if opens then k.place.column :: s.columns else s.columns
    some { s.push .value with columns := columns, key := none, keyAllowed := false }
  | none =>
    if !s.inFlow && !s.keyAllowed then none
    else
      let s := s.openBlock p.column .openMapping
      some { s.push .value with keyAllowed := !s.inFlow }

/-- A scalar or a name starts at `p`; `thenAllowed` tells whether a key may start behind it. -/
def word? (s : Scanner) (p : Place) (m : Mark) (thenAllowed : Bool) : Option Scanner :=
  (s.saveKey? p).map fun s => { s.push m with keyAllowed := thenAllowed }

/-- A block of text, which is no key. -/
def block? (s : Scanner) (text : List Char) (folded : Bool) : Option Scanner :=
  s.dropKey?.map fun s =>
    { s.push (.scalar text (if folded then .quoted else .literal)) with keyAllowed := true }

/-- A line between documents or before one. -/
def between? (s : Scanner) (m : Mark) : Option Scanner :=
  (s.closeBlocks none).dropKey?.map fun s => { s.push m with keyAllowed := false }

/-- Characters that no scalar without quotes starts with. -/
def isReserved (c : Char) : Bool :=
  isBlank c || isFlowMark c
    || ['-', '?', ':', '#', '&', '*', '!', '|', '>', '\'', '"', '%', '@', '\x60'].contains c

/-- Whether a scalar without quotes starts with `c`, with `r` behind it. -/
def startsPlain (inFlow : Bool) (c : Char) (r : List Cell) : Bool :=
  !isReserved c || (c == '-' && !(r.head?.any fun d => isBlank d.char))
    || (!inFlow && (c == '?' || c == ':') && !atBlank r)

/-- The mark that starts with the cell `c`, with `r` behind it: the scanner behind the mark and what
follows. -/
def mark? (s : Scanner) (c : Cell) (r : List Cell) : Option (Scanner × List Cell) :=
  let p := c.place
  if c.char = '%' ∧ p.column = 0 then do
    let (d, rest) ← directive? r
    (s.between? (.directive d)).map (·, ← afterLine? rest)
  else if atDocumentMark (c :: r) then
    (s.between? (if c.char = '-' then .opening else .closing)).map (·, r.drop 2)
  else if c.char = '[' then (s.openFlow? p .openItems).map (·, r)
  else if c.char = '{' then (s.openFlow? p .openEntries).map (·, r)
  else if c.char = ']' then (s.closeFlow? .closeItems).map (·, r)
  else if c.char = '}' then (s.closeFlow? .closeEntries).map (·, r)
  else if c.char = ',' then s.comma?.map (·, r)
  else if c.char = '-' ∧ atBlank r then (s.entry? p .dash .openSequence true).map (·, r)
  else if c.char = '?' ∧ (s.inFlow || atBlank r) then
    (s.entry? p .key .openMapping !s.inFlow).map (·, r)
  else if c.char = ':' ∧ (s.inFlow || atBlank r) then (s.value? p).map (·, r)
  else if c.char = '&' then do
    let (name, rest) ← anchorName? r
    (s.word? p (.anchor name) false).map (·, rest)
  else if c.char = '*' then do
    let (name, rest) ← anchorName? r
    (s.word? p (.alias name) false).map (·, rest)
  else if c.char = '!' then do
    let (handle, name, rest) ← tagName? s.inFlow r
    (s.word? p (.tag handle name) false).map (·, rest)
  else if (c.char = '|' ∨ c.char = '>') ∧ s.inFlow = false then do
    let (text, rest) ← Yaml.block? (c.char == '>') s.least r
    (s.block? text (c.char == '>')).map (·, rest)
  else if c.char = '\'' then do
    let (text, rest) ← singleQuoted? .empty r
    (s.word? p (.scalar text .quoted) false).map (·, rest)
  else if c.char = '"' then do
    let (text, rest) ← doubleQuoted? (.gap .empty) r
    (s.word? p (.scalar text .quoted) false).map (·, rest)
  else if startsPlain s.inFlow c.char r then do
    let (text, broken, rest) ← plain? s.rigor s.inFlow s.least .empty (c :: r)
    (s.word? p (.scalar text .plain) broken).map (·, rest)
  else none

/-- Whether what stands in brackets is left of the block around them. A closing bracket may stand in the
first column of the block. -/
def isOutside (s : Scanner) (c : Cell) : Bool :=
  s.inFlow && decide (c.place.column < if isReserved c.char then s.least - 1 else s.least)

/-- Reads one mark at a place behind blanks, comments and breaks. A lenient reader keeps brackets inside
the block around them. -/
def step? (s : Scanner) (c : Cell) (r : List Cell) : Option (Scanner × List Cell) := do
  let s ← s.keepKeys? c.place
  if s.rigor = .lenient ∧ s.isOutside c then none
  else (s.closeBlocks (some c.place.column)).mark? c r

/-! ## All marks -/

/-- Goes over blanks, comments and breaks. Outside brackets a key may start behind a break, and for a
strict reader tabs are blanks only where no key may start. -/
def skip (inComment : Bool) (s : Scanner) : List Cell → Scanner × List Cell
  | [] => (s, [])
  | c :: r =>
    if isBreak c.char then skip false { s with keyAllowed := s.keyAllowed || !s.inFlow } r
    else if inComment then skip true s r
    else if c.char = ' ' ∨ (c.char = '\t' ∧ (s.rigor = .lenient ∨ s.inFlow ∨ s.keyAllowed = false))
        ∨ (c.char = byteOrderMark ∧ c.place.column = 0) then skip false s r
    else if c.char = '#' then skip true s r
    else (s, c :: r)

/-- The scanner at the end of the text. -/
def finish? (s : Scanner) : Option Scanner := (s.closeBlocks none).dropKey?

/-- Reads the marks of at most `n` cells. -/
def run? (n : Nat) (s : Scanner) (cs : List Cell) : Option Scanner :=
  match n, s.skip false cs with
  | _, (s, []) => s.finish?
  | 0, _ => none
  | n + 1, (s, c :: r) => (s.step? c r).bind fun (s, rest) => run? n s rest

end Scanner

/-- The marks of a text. -/
def marks? (rigor : Rigor) (s : String) : Option (List Mark) := do
  let cs ← cells? rigor s
  let scanner ← (Scanner.start rigor).run? cs.length cs
  some scanner.marks.reverse

end SwapRouting.Yaml
