import SwapRouting.Yaml.Cell

/-! Blocks of text in an indented document: a mark for how the lines are joined, then lines that are all
indented alike.

A literal block keeps its breaks and a folded one turns those between two lines of words to spaces. The
header may say how far the lines are indented, which else the first of them tells, and what becomes of the
breaks at the end. -/
namespace SwapRouting.Yaml
set_option autoImplicit false

/-- What becomes of the breaks at the end of a block: one stays, none, or all. -/
inductive Chomp where
  | clip
  | strip
  | keep
deriving DecidableEq, Repr

/-- The rest of a line on which there are only blanks and perhaps a comment is skipped. -/
def afterLine? (cs : List Cell) : Option (List Cell) :=
  match cs.dropWhile fun c => isBlank c.char with
  | [] => some []
  | c :: r =>
    if isBreak c.char then some r
    else if c.char = '#' then some ((r.dropWhile fun d => !isBreak d.char).drop 1)
    else none

/-- The sign in a header. -/
def chomp? (cs : List Cell) : Option (Chomp × List Cell) :=
  match cs with
  | c :: r => if c.char = '+' then some (.keep, r) else if c.char = '-' then some (.strip, r) else none
  | [] => none

/-- The digit in a header, which is not zero. -/
def increment? (cs : List Cell) : Option (Nat × List Cell) :=
  match cs with
  | c :: r => if c.char.isDigit && c.char != '0' then some (c.char.toNat - 48, r) else none
  | [] => none

/-- Reads the header of a block: what becomes of its last breaks, how much further than the block around it
its lines are indented, zero if that is not said, and what follows. -/
def blockHeader? (cs : List Cell) : Option (Chomp × Nat × List Cell) := do
  let (chomp, r) := (chomp? cs).getD (.clip, cs)
  let (increment, r) := (increment? r).getD (0, r)
  let (chomp, r) := if chomp = .clip then (chomp? r).getD (.clip, r) else (chomp, r)
  some (chomp, increment, ← afterLine? r)

/-- Goes over spaces up to a column, or over all of them for column zero, and over breaks: the furthest
column that was reached, the breaks, and what follows. No tab may stand among those spaces. -/
def indentation? (column furthest : Nat) (breaks : List Char) : List Cell →
    Option (Nat × List Char × List Cell)
  | [] => some (furthest, breaks, [])
  | c :: r =>
    let most := max furthest c.place.column
    let isLeft := column == 0 || decide (c.place.column < column)
    if isBreak c.char then indentation? column most (breaks ++ [c.char]) r
    else if isLeft && c.char == ' ' then indentation? column most breaks r
    else if isLeft && c.char == '\t' then none
    else some (most, breaks, c :: r)

/-- The lines of a block whose first character stands at a column: their text, the breaks at their end, the
first of them apart, and what follows. `first` and `more` are the breaks before the lines, and `afterBlank`
tells whether the line before starts with a blank. -/
def blockLines? (n : Nat) (folded : Bool) (column : Nat) (first more : List Char) (afterBlank : Bool)
    (cs : List Cell) : Option (List Char × List Char × List Char × List Cell) :=
  match n, cs with
  | n + 1, c :: r =>
    if c.place.column ≠ column then some ([], first, more, c :: r)
    else
      let isFolded := folded && first == ['\n'] && !afterBlank && !isBlank c.char
      let joint := if isFolded then (if more.isEmpty then [' '] else more) else first ++ more
      let line := (c :: r).takeWhile fun d => !isBreak d.char
      let rest := (c :: r).dropWhile fun d => !isBreak d.char
      match indentation? column 0 [] (rest.drop 1) with
      | none => none
      | some (_, breaks, next) =>
        (blockLines? n folded column ((rest.take 1).map Cell.char) breaks (isBlank c.char) next).map
          fun (text, tail) => (joint ++ line.map Cell.char ++ text, tail)
  | _, cs => some ([], first, more, cs)

/-- The text of a block behind its mark, and what follows; `least` is the least column inside the block
around it. -/
def block? (folded : Bool) (least : Nat) (cs : List Cell) : Option (List Char × List Cell) := do
  let (chomp, increment, r) ← blockHeader? cs
  let given := if increment = 0 then 0 else (least - 1) + increment
  let (furthest, breaks, r) ← indentation? given 0 [] r
  let column := if given = 0 then max furthest (max least 1) else given
  let (text, first, more, rest) ← blockLines? (r.length + 1) folded column [] breaks false r
  let last := match chomp with
    | .strip => []
    | .clip => first
    | .keep => first ++ more
  some (text ++ last, rest)

end SwapRouting.Yaml
