/-! Dictionaries: lists of entries in ascending order of their keys.

`insert` keeps the order and replaces the entry of a key it meets, so a dictionary built by `insert`
depends only on what was inserted last under each key. -/
namespace SwapRouting
set_option autoImplicit false

/-- Entries in ascending order of their keys. -/
structure Dict (κ α : Type) where
  entries : List (κ × α)
deriving DecidableEq, Repr

namespace Dict

variable {κ α β : Type}

def empty : Dict κ α := ⟨[]⟩

instance : Inhabited (Dict κ α) := ⟨empty⟩

def size (d : Dict κ α) : Nat := d.entries.length

def isEmpty (d : Dict κ α) : Bool := d.entries.isEmpty

def keys (d : Dict κ α) : List κ := d.entries.map (·.1)

def values (d : Dict κ α) : List α := d.entries.map (·.2)

/-- The value stored under a key. -/
def get? [DecidableEq κ] (d : Dict κ α) (k : κ) : Option α :=
  (d.entries.find? fun e => decide (e.1 = k)).map (·.2)

def contains [DecidableEq κ] (d : Dict κ α) (k : κ) : Bool := (d.get? k).isSome

/-- Puts an entry in its place among ascending entries, instead of one with its key. -/
def insertEntry [LT κ] [DecidableLT κ] [DecidableEq κ] (k : κ) (a : α) :
    List (κ × α) → List (κ × α)
  | [] => [(k, a)]
  | e :: r =>
    if k < e.1 then (k, a) :: e :: r
    else if k = e.1 then (k, a) :: r
    else e :: insertEntry k a r

/-- Stores a value under a key. -/
def insert [LT κ] [DecidableLT κ] [DecidableEq κ] (d : Dict κ α) (k : κ) (a : α) : Dict κ α :=
  ⟨insertEntry k a d.entries⟩

def erase [DecidableEq κ] (d : Dict κ α) (k : κ) : Dict κ α :=
  ⟨d.entries.filter fun e => decide (e.1 ≠ k)⟩

/-- The dictionary of these entries; of several with one key the last stays. -/
def ofList [LT κ] [DecidableLT κ] [DecidableEq κ] (es : List (κ × α)) : Dict κ α :=
  es.foldl (fun d e => d.insert e.1 e.2) empty

/-- The same keys with other values. -/
def map (f : α → β) (d : Dict κ α) : Dict κ β := ⟨d.entries.map fun e => (e.1, f e.2)⟩

end Dict

/-- Puts a number in its place in an ascending list without repetitions. -/
def insertAscending (n : Nat) : List Nat → List Nat
  | [] => [n]
  | m :: r => if n < m then n :: m :: r else if n = m then m :: r else m :: insertAscending n r

/-- The numbers of a list in ascending order, each once. -/
def ascending (ns : List Nat) : List Nat := ns.foldr insertAscending []

/-! ## Stable sorting -/

/-- Puts an element before the first one it may precede. -/
def insertBy {α : Type} (le : α → α → Bool) (a : α) : List α → List α
  | [] => [a]
  | b :: r => if le a b then a :: b :: r else b :: insertBy le a r

/-- Sorts by `le`; elements that precede each other keep their order. -/
def sortBy {α : Type} (le : α → α → Bool) : List α → List α
  | [] => []
  | a :: r => insertBy le a (sortBy le r)

end SwapRouting
