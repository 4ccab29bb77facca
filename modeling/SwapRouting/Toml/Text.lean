import SwapRouting.Digits

/-! The text around and inside the values of a document in tables: blanks, comments, the ends of lines,
and strings.

A string stands in single or double quotes and keeps to one line, or in three of either and may go over
several. Double quotes know escapes, and over several lines also a backslash that takes out all breaks and
blanks behind it. -/
namespace SwapRouting.Toml
set_option autoImplicit false

def isBlank (c : Char) : Bool := c == ' ' || c == '\t'

/-- Characters that a comment or a string may hold: all but those for control, of which only the tab may
stand in a text. -/
def isText (c : Char) : Bool :=
  c == '\t' || (decide (0x20 ≤ c.toNat) && decide (c.toNat ≠ 0x7F))

def skipBlanks (cs : List Char) : List Char := cs.dropWhile isBlank

/-! ## Lines -/

/-- What follows the end of a line. -/
def afterBreak? : List Char → Option (List Char)
  | [] => some []
  | '\n' :: r => some r
  | '\r' :: '\n' :: r => some r
  | _ => none

/-- What follows the rest of a line on which there are only blanks and perhaps a comment. -/
def afterLine? (cs : List Char) : Option (List Char) :=
  match skipBlanks cs with
  | '#' :: r => afterBreak? (r.dropWhile isText)
  | r => afterBreak? r

/-- What follows blanks, breaks and comments; none if a comment holds what it may not. -/
def skipLines? (inComment : Bool) : List Char → Option (List Char)
  | [] => some []
  | '\n' :: r => skipLines? false r
  | '\r' :: '\n' :: r => skipLines? false r
  | c :: r =>
    if inComment then (if isText c then skipLines? true r else none)
    else if isBlank c then skipLines? false r
    else if c = '#' then skipLines? true r
    else some (c :: r)

/-! ## Strings -/

/-- The character that an escape of one letter stands for. -/
def shortEscape? (c : Char) : Option Char :=
  match c with
  | 'b' => some '\x08'
  | 't' => some '\t'
  | 'n' => some '\n'
  | 'f' => some '\x0c'
  | 'r' => some '\r'
  | '"' => some '"'
  | '\\' => some '\\'
  | _ => none

/-- What has been read of a string since its last character. -/
inductive Pending where
  | nothing
  /-- An escape, with some digits left and the value of those before. -/
  | digits (left value : Nat)
  /-- A backslash and blanks behind it, and whether there was a break among them. -/
  | trim (broken : Bool)
deriving DecidableEq, Repr

/-- The quotes that belong to a string over several lines, and what follows it, where the three quotes
that close it come before `cs`: of a longer row of quotes the last three close the string. -/
def closing (q : Char) (cs : List Char) : List Char × List Char :=
  match cs with
  | a :: b :: r => if a = q then (if b = q then ([q, q], r) else ([q], b :: r)) else ([], a :: b :: r)
  | [a] => if a = q then ([q], []) else ([], [a])
  | [] => ([], [])

/-- Whether two quotes start the text. -/
def atTwo (q : Char) (cs : List Char) : Bool := cs.take 2 == [q, q]

/-- The text of a string up to its closing quotes, and what follows. -/
def quoted? (q : Char) (overLines : Bool) (p : Pending) : List Char → Option (List Char × List Char)
  | [] => none
  | c :: r =>
    let isBreak := c == '\n' || (c == '\r' && r.head? == some '\n')
    match p with
    | .digits left value =>
      match hexValue? c with
      | none => none
      | some d =>
        if 1 < left then quoted? q overLines (.digits (left - 1) (16 * value + d)) r
        else
          match charAt? (16 * value + d) with
          | none => none
          | some x => (quoted? q overLines .nothing r).map fun (s, rest) => (x :: s, rest)
    | p =>
      if p ≠ .nothing ∧ (isBlank c || isBreak) then
        quoted? q overLines (.trim (p == .trim true || isBreak)) r
      else if p = .trim false then none
      else if c = q then
        if !overLines then some ([], r)
        else if atTwo q r then some (closing q (r.drop 2))
        else (quoted? q overLines .nothing r).map fun (s, rest) => (q :: s, rest)
      else if c = '\\' ∧ q = '"' then
        match r with
        | [] => none
        | e :: r' =>
          if e = 'u' then quoted? q overLines (.digits 4 0) r'
          else if e = 'U' then quoted? q overLines (.digits 8 0) r'
          else
            match shortEscape? e with
            | some x => (quoted? q overLines .nothing r').map fun (s, rest) => (x :: s, rest)
            | none =>
              if overLines && (isBlank e || e == '\n' || e == '\r') then
                quoted? q overLines (.trim false) (e :: r')
              else none
      else if isBreak then
        if !overLines then none
        else if c = '\r' then quoted? q overLines .nothing r
        else (quoted? q overLines .nothing r).map fun (s, rest) => ('\n' :: s, rest)
      else if isText c then (quoted? q overLines .nothing r).map fun (s, rest) => (c :: s, rest)
      else none

/-- The string that starts with the quote `q`, with `cs` behind it. A break right behind three quotes does
not belong to the string. -/
def string? (q : Char) (cs : List Char) : Option (String × List Char) :=
  let found :=
    if atTwo q cs then
      let body := cs.drop 2
      quoted? q true .nothing ((afterBreak? body).getD body)
    else quoted? q false .nothing cs
  found.map fun (s, rest) => (String.ofList s, rest)

end SwapRouting.Toml
