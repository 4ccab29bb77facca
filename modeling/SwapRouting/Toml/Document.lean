import SwapRouting.Toml.Table
import SwapRouting.Toml.Text

/-! Reading a document in tables: lines with a key and its value, under headers that say which table they
belong to. -/
namespace SwapRouting.Toml
set_option autoImplicit false

/-! ## Keys -/

def isKeyChar (c : Char) : Bool := c.isAlphanum || c == '_' || c == '-'

/-- A single key, in quotes or without, and what follows. -/
def simpleKey? : List Char → Option (String × List Char)
  | '"' :: r => if atTwo '"' r then none else string? '"' r
  | '\'' :: r => if atTwo '\'' r then none else string? '\'' r
  | cs =>
    let k := cs.takeWhile isKeyChar
    if k.isEmpty then none else some (String.ofList k, cs.dropWhile isKeyChar)

/-- A key of at most `n` parts divided by dots: the parts before the last one, the last one, and what
follows behind blanks. -/
def key? (n : Nat) (cs : List Char) : Option (List String × String × List Char) :=
  match n with
  | 0 => none
  | n + 1 => do
    let (k, r) ← simpleKey? (skipBlanks cs)
    match skipBlanks r with
    | '.' :: r => do
      let (path, last, r) ← key? n r
      some (k :: path, last, r)
    | r => some ([], k, r)

/-! ## Values -/

mutual

/-- The value at the front of a text, in at most `n` steps. -/
def value? (n : Nat) (cs : List Char) : Option (Value × List Char) :=
  match n, cs with
  | _ + 1, '"' :: r => (string? '"' r).map fun (s, r) => (.text s, r)
  | _ + 1, '\'' :: r => (string? '\'' r).map fun (s, r) => (.text s, r)
  | n + 1, '[' :: r => items? n [] r
  | n + 1, '{' :: r =>
    match skipBlanks r with
    | '}' :: r => some (.table [], r)
    | r => fields? n (.empty .header) r
  | _ + 1, cs => (ofWord? (cs.takeWhile isWordChar)).map fun v => (v, cs.dropWhile isWordChar)
  | 0, _ => none

/-- The items behind those already read, up to their closing bracket. -/
def items? (n : Nat) (before : List Value) (cs : List Char) : Option (Value × List Char) :=
  match n, skipLines? false cs with
  | _ + 1, some (']' :: r) => some (.array before.reverse, r)
  | n + 1, some cs =>
    match value? n cs with
    | none => none
    | some (v, r) =>
      match skipLines? false r with
      | some (',' :: r) => items? n (v :: before) r
      | some (']' :: r) => some (.array (v :: before).reverse, r)
      | _ => none
  | _, _ => none

/-- The fields of a table on one line behind those already read, up to its closing brace. -/
def fields? (n : Nat) (before : Table) (cs : List Char) : Option (Value × List Char) :=
  match n, key? cs.length cs with
  | n + 1, some (path, k, '=' :: r) =>
    match value? n (skipBlanks r) with
    | none => none
    | some (v, r) =>
      match before.insert? path k (.value v), skipBlanks r with
      | some t, ',' :: r => fields? n t r
      | some t, '}' :: r => some (t.toEntry.toValue, r)
      | _, _ => none
  | _, _ => none

end

/-! ## Lines -/

/-- A document under construction: all of its tables, and the path of the open one. -/
structure Reading where
  root : Table
  path : List String

/-- Reads a header: the path of its table, and what follows. -/
def header? (cs : List Char) : Option (List String × String × List Char) := do
  match ← key? cs.length cs with
  | (path, k, ']' :: r) => some (path, k, r)
  | _ => none

/-- Reads one statement: a header, or a key with its value. -/
def statement? (d : Reading) (cs : List Char) : Option (Reading × List Char) :=
  match cs with
  | '[' :: '[' :: r =>
    match header? r with
    | some (path, k, ']' :: r) => (d.root.append? path k).map fun t => (⟨t, path ++ [k]⟩, r)
    | _ => none
  | '[' :: r => do
    let (path, k, r) ← header? r
    let t ← d.root.open? path k
    some (⟨t, path ++ [k]⟩, r)
  | cs =>
    match key? cs.length cs with
    | some (path, k, '=' :: r) => do
      let (v, r) ← value? cs.length (skipBlanks r)
      let t ← d.root.update? false (Table.insert? path k (.value v)) d.path
      some (⟨t, d.path⟩, r)
    | _ => none

/-- Reads at most `n` statements, each on a line of its own. -/
def statements? (n : Nat) (d : Reading) (cs : List Char) : Option Reading :=
  match n, skipLines? false cs with
  | _, some [] => some d
  | n + 1, some cs => do
    let (d, r) ← statement? d cs
    statements? n d (← afterLine? r)
  | _, _ => none

/-- The entries of a document. -/
def parse? (s : String) : Option (List (String × Value)) := do
  let d ← statements? s.length ⟨.empty .header, []⟩ s.toList
  some (valuesOf d.root.entries)

end SwapRouting.Toml
