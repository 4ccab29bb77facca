import SwapRouting.Digits
import SwapRouting.Yaml.Cell

/-! Scalars of an indented document.

A scalar may go on over several lines. Between two words there is a `Gap`: blanks on one line stay as
they are, while breaks are folded, a single one to a space and of several all but the first staying.
Blanks around a break are dropped. -/
namespace SwapRouting.Yaml
set_option autoImplicit false

/-! ## Gaps -/

/-- What has been read since the last word of a scalar. -/
inductive Gap where
  | blanks (cs : List Char)
  /-- Breaks, of which the first is folded unless it was escaped and is missing here. -/
  | breaks (first : Option Char) (more : List Char)
deriving DecidableEq, Repr

namespace Gap

def empty : Gap := blanks []

/-- The gap behind a break that a backslash takes out of the text. -/
def escaped : Gap := breaks none []

def addBlank (c : Char) : Gap → Gap
  | blanks cs => blanks (cs ++ [c])
  | breaks first more => breaks first more

def addBreak (c : Char) : Gap → Gap
  | blanks _ => breaks (some c) []
  | breaks first more => breaks first (more ++ [c])

def isEmpty : Gap → Bool
  | blanks cs => cs.isEmpty
  | breaks _ _ => false

def isBroken : Gap → Bool
  | blanks _ => false
  | breaks _ _ => true

/-- The text that stands for the gap. -/
def text : Gap → List Char
  | blanks cs => cs
  | breaks none more => more
  | breaks (some c) more => if c = '\n' then (if more.isEmpty then [' '] else more) else c :: more

end Gap

/-! ## Scalars without quotes -/

/-- Whether a bracket or a comma starts the text. -/
def atFlowMark (cs : List Cell) : Bool := cs.head?.any fun c => isFlowMark c.char

/-- Whether a scalar without quotes ends before this text, with a gap before it. It ends at a colon that
stands apart, inside brackets at a mark, and behind a gap also at a comment, at the end of its document
and left of its least column. For a lenient reader a colon stands apart before a mark, too. -/
def endsPlain (rigor : Rigor) (inFlow : Bool) (least : Nat) (g : Gap) : List Cell → Bool
  | [] => true
  | c :: r =>
    (c.char == ':' && (atBlank r || (rigor == .lenient && inFlow && atFlowMark r)))
      || (inFlow && isFlowMark c.char)
      || (!g.isEmpty && (c.char == '#' || atDocumentMark (c :: r)
        || (!inFlow && decide (c.place.column < least))))

/-- The text of a scalar without quotes, whether a break lies behind it, and what follows. A tab may not
stand for the indentation of a line, nor for a strict reader may a colon join a word to a mark inside
brackets. -/
def plain? (rigor : Rigor) (inFlow : Bool) (least : Nat) (g : Gap) :
    List Cell → Option (List Char × Bool × List Cell)
  | [] => some ([], g.isBroken, [])
  | c :: r =>
    if isBlank c.char then
      if g.isBroken && c.char == '\t' && decide (c.place.column < least) then none
      else plain? rigor inFlow least (g.addBlank c.char) r
    else if isBreak c.char then plain? rigor inFlow least (g.addBreak c.char) r
    else if endsPlain rigor inFlow least g (c :: r) then some ([], g.isBroken, c :: r)
    else if rigor == .strict && inFlow && c.char == ':'
        && (atFlowMark r || r.head?.any fun d => d.char == '?') then none
    else (plain? rigor inFlow least .empty r).map fun (s, rest) => (g.text ++ c.char :: s, rest)

/-! ## Scalars in quotes -/

/-- The text up to the closing single quote, of which a doubled one stands for itself, and what
follows. -/
def singleQuoted? (g : Gap) : List Cell → Option (List Char × List Cell)
  | [] => none
  | c :: r =>
    if isBlank c.char then singleQuoted? (g.addBlank c.char) r
    else if isBreak c.char then singleQuoted? (g.addBreak c.char) r
    else if atDocumentMark (c :: r) then none
    else if c.char = '\'' then
      match r with
      | [] => some (g.text, [])
      | d :: r' =>
        if d.char = '\'' then (singleQuoted? .empty r').map fun (s, rest) => (g.text ++ '\'' :: s, rest)
        else some (g.text, d :: r')
    else (singleQuoted? .empty r).map fun (s, rest) => (g.text ++ c.char :: s, rest)

/-- The character that an escape of one letter stands for. -/
def shortEscape? (c : Char) : Option Char :=
  match c with
  | '0' => some '\x00'
  | 'a' => some '\x07'
  | 'b' => some '\x08'
  | 't' => some '\t'
  | '\t' => some '\t'
  | 'n' => some '\n'
  | 'v' => some '\x0b'
  | 'f' => some '\x0c'
  | 'r' => some '\r'
  | 'e' => some '\x1b'
  | ' ' => some ' '
  | '"' => some '"'
  | '/' => some '/'
  | '\\' => some '\\'
  | 'N' => some '\x85'
  | '_' => some '\xa0'
  | 'L' => some '\u2028'
  | 'P' => some '\u2029'
  | _ => none

/-- How many hexadecimal digits follow the letter of an escape. -/
def escapeWidth? (c : Char) : Option Nat :=
  match c with
  | 'x' => some 2
  | 'u' => some 4
  | 'U' => some 8
  | _ => none

/-- What has been read of a scalar in double quotes since its last word: a gap, or an escape with some
digits left and the value of those before. -/
inductive Pending where
  | gap (g : Gap)
  | digits (left value : Nat)
deriving DecidableEq, Repr

/-- The text up to the closing double quote, with its escapes resolved, and what follows. -/
def doubleQuoted? (p : Pending) : List Cell → Option (List Char × List Cell)
  | [] => none
  | c :: r =>
    match p with
    | .digits left value =>
      match hexValue? c.char with
      | none => none
      | some d =>
        if 1 < left then doubleQuoted? (.digits (left - 1) (16 * value + d)) r
        else
          match charAt? (16 * value + d) with
          | none => none
          | some x => (doubleQuoted? (.gap .empty) r).map fun (s, rest) => (x :: s, rest)
    | .gap g =>
      if isBlank c.char then doubleQuoted? (.gap (g.addBlank c.char)) r
      else if isBreak c.char then doubleQuoted? (.gap (g.addBreak c.char)) r
      else if atDocumentMark (c :: r) then none
      else if c.char = '"' then some (g.text, r)
      else if c.char = '\\' then
        match r with
        | [] => none
        | e :: r' =>
          if isBreak e.char then
            (doubleQuoted? (.gap .escaped) r').map fun (s, rest) => (g.text ++ s, rest)
          else
            match shortEscape? e.char, escapeWidth? e.char with
            | some x, _ => (doubleQuoted? (.gap .empty) r').map fun (s, rest) => (g.text ++ x :: s, rest)
            | none, some n => (doubleQuoted? (.digits n 0) r').map fun (s, rest) => (g.text ++ s, rest)
            | none, none => none
      else (doubleQuoted? (.gap .empty) r).map fun (s, rest) => (g.text ++ c.char :: s, rest)

end SwapRouting.Yaml
