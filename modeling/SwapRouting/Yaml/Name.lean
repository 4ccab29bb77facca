import SwapRouting.Yaml.Cell

/-! Names in an indented document: those of anchors and tags, and the directives that stand before a
document. -/
namespace SwapRouting.Yaml
set_option autoImplicit false

def isNameChar (c : Char) : Bool := c.isAlphanum || c == '_' || c == '-'

/-- Characters of a tag behind its handle. -/
def isTagChar (c : Char) : Bool :=
  isNameChar c || [';', '/', '?', ':', '@', '&', '=', '+', '$', '.', '!', '~', '*', '\'', '(', ')'].contains c

/-- The characters at the front of a text that are of one sort, and what follows. -/
def spanOf (p : Char → Bool) (cs : List Cell) : List Char × List Cell :=
  ((cs.takeWhile fun c => p c.char).map Cell.char, cs.dropWhile fun c => p c.char)

/-- The name of an anchor, and what follows. -/
def anchorName? (cs : List Cell) : Option (String × List Cell) :=
  let (name, r) := spanOf isNameChar cs
  let isEnd := atBlank r || r.head?.any fun c => ['?', ':', ',', ']', '}', '%', '@', '\x60'].contains c.char
  if name.isEmpty || !isEnd then none else some (String.ofList name, r)

/-- A tag behind its exclamation mark: its handle, the rest of its name, and what follows. A tag in angle
brackets has no handle, and neither has the mark alone. -/
def tagName? (inFlow : Bool) (cs : List Cell) : Option (String × String × List Cell) := do
  let (handle, rest, r) ← match cs with
    | ⟨'<', _⟩ :: r =>
      match spanOf (fun c => isTagChar c || c == ',' || c == '[' || c == ']') r with
      | (c :: name, ⟨'>', _⟩ :: r) => some ([], c :: name, r)
      | _ => none
    | cs =>
      let (name, r) := spanOf isNameChar cs
      match r with
      | ⟨'!', _⟩ :: r =>
        let (rest, r) := spanOf isTagChar r
        if rest.isEmpty then none else some (['!'] ++ name ++ ['!'], rest, r)
      | r =>
        let (rest, r) := spanOf isTagChar r
        if name.isEmpty && rest.isEmpty then some ([], ['!'], r) else some (['!'], name ++ rest, r)
  if atBlank r || (inFlow && r.head?.any fun c => c.char == ',') then
    some (String.ofList handle, String.ofList rest, r)
  else none

/-- What a line before a document says. -/
inductive Directive where
  | version (major minor : List Char)
  /-- What the handle of a tag stands for. -/
  | handle (name stem : String)
deriving DecidableEq, Repr

/-- Reads a directive behind its percent sign. -/
def directive? (cs : List Cell) : Option (Directive × List Cell) := do
  let skip := fun (cs : List Cell) => cs.dropWhile fun c => isBlank c.char
  let (name, r) := spanOf isNameChar cs
  if name = ['Y', 'A', 'M', 'L'] then
    let (major, r) := spanOf Char.isDigit (skip r)
    match r with
    | ⟨'.', _⟩ :: r =>
      let (minor, r) := spanOf Char.isDigit r
      if major.isEmpty || minor.isEmpty then none else some (.version major minor, r)
    | _ => none
  else if name = ['T', 'A', 'G'] then
    match skip r with
    | ⟨'!', _⟩ :: r =>
      let (inner, r) := spanOf isNameChar r
      let (handle, r) ← match r with
        | ⟨'!', _⟩ :: r => some (['!'] ++ inner ++ ['!'], r)
        | r => if inner.isEmpty then some (['!'], r) else none
      let (stem, rest) := spanOf (fun c => isTagChar c || c == ',' || c == '[' || c == ']') (skip r)
      if (skip r).length = r.length || stem.isEmpty then none
      else some (.handle (String.ofList handle) (String.ofList stem), rest)
    | _ => none
  else none

end SwapRouting.Yaml
