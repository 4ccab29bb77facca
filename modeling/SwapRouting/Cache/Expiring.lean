/-! A cache whose entries expire. Time is a count that the caller reads off a clock. An entry stored at
time `s` for `ttl` is there until, not including, time `s + ttl`. Expired entries are removed when
they are read, and count until then.

A clock ends: it can tell no time behind its last one. An entry that would expire behind it is not
stored, and the call that was to store it fails (`insert?`). Where lifetimes end while the clock still
tells the time, storing does not fail (`insert`). -/
namespace SwapRouting
set_option autoImplicit false

/-- The last second, 2 ^ 63 - 1, of a clock that counts them in signed words of 64 bits. -/
def lastSecond : Nat := 9223372036854775807

/-- A value with the time from which it counts as expired. -/
structure Timed (α : Type) where
  value : α
  expiresAt : Nat
deriving Repr, DecidableEq

/-- Entries by key, the latest first. -/
structure ExpiringCache (κ α : Type) where
  entries : List (κ × Timed α)
deriving Repr, DecidableEq

namespace ExpiringCache

variable {κ α : Type} [DecidableEq κ]

def empty : ExpiringCache κ α := ⟨[]⟩

def size (c : ExpiringCache κ α) : Nat := c.entries.length

def isEmpty (c : ExpiringCache κ α) : Bool := c.entries.isEmpty

/-- The cache without the entry of a key. -/
def erase (c : ExpiringCache κ α) (k : κ) : ExpiringCache κ α :=
  ⟨c.entries.filter fun e => decide (e.1 ≠ k)⟩

/-- Stores a value at time `now` for `ttl`. -/
def insert (c : ExpiringCache κ α) (now ttl : Nat) (k : κ) (a : α) : ExpiringCache κ α :=
  ⟨(k, ⟨a, now + ttl⟩) :: (c.erase k).entries⟩

/-- The cache with a value stored at time `now` for `ttl`, by a clock that ends at `last`; none if the
value would expire behind that. -/
def insert? (c : ExpiringCache κ α) (last now ttl : Nat) (k : κ) (a : α) :
    Option (ExpiringCache κ α) :=
  if now + ttl ≤ last then some (c.insert now ttl k a) else none

/-- The entry of a key, expired or not. -/
def entry? (c : ExpiringCache κ α) (k : κ) : Option (Timed α) :=
  (c.entries.find? fun e => decide (e.1 = k)).map (·.2)

/-- The value of a key at time `now`. -/
def get? (c : ExpiringCache κ α) (now : Nat) (k : κ) : Option α :=
  (c.entry? k).bind fun e => if now < e.expiresAt then some e.value else none

/-- The cache after a key was read at time `now`. -/
def afterGet (c : ExpiringCache κ α) (now : Nat) (k : κ) : ExpiringCache κ α :=
  match c.entry? k with
  | some e => if now < e.expiresAt then c else c.erase k
  | none => c

end ExpiringCache

end SwapRouting
