import SwapRouting.Toml.Value

/-! Tables under construction. A table stands under a header, or is only implied by the headers of tables
inside it, or comes from a key with dots; a header may complete a table that is implied, and keys with dots
go on with each other's tables, but no other table is ever opened twice. -/
namespace SwapRouting.Toml
set_option autoImplicit false

/-- How a table came to be. -/
inductive Origin where
  | header
  | implied
  | dotted
deriving DecidableEq, Repr, Inhabited

inductive Entry where
  | value (v : Value)
  | table (origin : Origin) (entries : List (String × Entry))
  /-- The tables of an array, of which the last is the open one. -/
  | tables (last : List (String × Entry)) (before : List (List (String × Entry)))
deriving Inhabited

structure Table where
  origin : Origin
  entries : List (String × Entry)
deriving Inhabited

namespace Table

def empty (origin : Origin) : Table := ⟨origin, []⟩

def find? (t : Table) (k : String) : Option Entry :=
  (t.entries.find? fun e => e.1 == k).map (·.2)

/-- The table with an entry in place of the one under its key, if there is any. -/
def store (t : Table) (k : String) (e : Entry) : Table :=
  { t with entries := (k, e) :: t.entries.filter fun e => e.1 != k }

def toEntry (t : Table) : Entry := .table t.origin t.entries

/-- The table with the one at a path changed. Tables that are missing on the way are made: from a key
with dots if `dotted`, else implied. A key with dots does not lead through tables under headers. -/
def update? (dotted : Bool) (f : Table → Option Table) : List String → Table → Option Table
  | [], t => f t
  | k :: path, t =>
    match t.find? k with
    | none =>
      (update? dotted f path (empty (if dotted then .dotted else .implied))).map fun c =>
        t.store k c.toEntry
    | some (.value _) => none
    | some (.table origin entries) =>
      if dotted && origin == .header then none
      else (update? dotted f path ⟨origin, entries⟩).map fun c => t.store k c.toEntry
    | some (.tables last before) =>
      (update? dotted f path ⟨.header, last⟩).map fun c => t.store k (.tables c.entries before)

/-- A new entry under a key with dots, whose own table is at the path. -/
def insert? (path : List String) (k : String) (e : Entry) (t : Table) : Option Table :=
  t.update? true (fun t =>
    if (t.origin == .dotted) == path.isEmpty || (t.find? k).isSome then none else some (t.store k e)) path

/-- The table opened under a header. -/
def open? (path : List String) (k : String) (t : Table) : Option Table :=
  t.update? false (fun t =>
    match t.find? k with
    | none => some (t.store k (.table .header []))
    | some (.table .implied entries) => some (t.store k (.table .header entries))
    | _ => none) path

/-- One more table in the array under a header. -/
def append? (path : List String) (k : String) (t : Table) : Option Table :=
  t.update? false (fun t =>
    match t.find? k with
    | none => some (t.store k (.tables [] []))
    | some (.tables last before) => some (t.store k (.tables [] (last :: before)))
    | _ => none) path

end Table

/-! ## Values of tables -/

mutual

def Entry.toValue : Entry → Value
  | .value v => v
  | .table _ entries => .table (valuesOf entries)
  | .tables last before => .array (.table (valuesOf last) :: tableValues before).reverse

def valuesOf : List (String × Entry) → List (String × Value)
  | [] => []
  | (k, e) :: r => (k, e.toValue) :: valuesOf r

def tableValues : List (List (String × Entry)) → List Value
  | [] => []
  | entries :: r => .table (valuesOf entries) :: tableValues r

end

end SwapRouting.Toml
