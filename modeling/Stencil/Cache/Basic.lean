import Stencil.Op

/-!
# A bounded cache

A cache maps keys to slots. A slot is empty while its value is being made and then holds the value
for good; a slot may live on after the cache has dropped it, for those who still wait for it. When
the cache is full, the entry that was inserted first makes room for a new one.

The operations here are the steps that happen at once: `reserve`, `fill`, `discard`, `invalidate`
and `clear`. `Cache.fetch` puts them together for one fetch at a time.
-/

namespace Stencil

/-- A bounded cache of values. -/
structure Cache (α : Type) where
  /-- How many entries there may be. -/
  limit : Nat
  /-- The keys with the numbers of their slots, in the order of insertion. -/
  entries : List (String × Nat)
  /-- The contents of all slots ever made. -/
  cells : Array (Option α)
  hits : Nat
  misses : Nat
deriving Inhabited

namespace Cache

variable {α : Type}

/-- The number of entries of a cache that no limit is given for. -/
def defaultLimit : Nat := 100

/-- A cache without entries; it may hold at least one. -/
def empty (limit : Nat) : Cache α := ⟨max limit 1, [], #[], 0, 0⟩

/-- The slot of a key. -/
def slot? (c : Cache α) (key : String) : Option Nat := c.entries.lookup key

/-- The value in a slot. -/
def value? (c : Cache α) (slot : Nat) : Option α := (c.cells[slot]?).bind id

/-- The keys, the oldest first. -/
def keys (c : Cache α) : List String := c.entries.map (·.1)

/-- How many entries there are, empty slots included. -/
def size (c : Cache α) : Nat := c.entries.length

/-- The key has a value. -/
def contains (c : Cache α) (key : String) : Bool := ((c.slot? key).bind c.value?).isSome

/-- The entries that stay when one more comes in. -/
def trimmed (c : Cache α) : List (String × Nat) := c.entries.drop (c.entries.length + 1 - c.limit)

/-- The slot of a key: the one it has, else a new one. -/
def reserve (c : Cache α) (key : String) : Nat × Cache α :=
  match c.slot? key with
  | some slot => (slot, if (c.value? slot).isSome then { c with hits := c.hits + 1 } else c)
  | none =>
    (c.cells.size, { c with
      entries := c.trimmed ++ [(key, c.cells.size)]
      cells := c.cells.push none
      misses := c.misses + 1 })

/-- Puts a value into a slot. -/
def fill (c : Cache α) (slot : Nat) (a : α) : Cache α :=
  { c with cells := c.cells.setIfInBounds slot (some a) }

/-- Drops a slot that got no value, unless the key has another slot by now. -/
def discard (c : Cache α) (key : String) (slot : Nat) : Cache α :=
  if c.slot? key = some slot ∧ (c.value? slot).isNone then
    { c with entries := c.entries.filter (·.1 != key) }
  else c

/-- Drops the entry of a key. -/
def invalidate (c : Cache α) (key : String) : Cache α :=
  { c with entries := c.entries.filter (·.1 != key) }

/-- Drops all entries; the counts go on. -/
def clear (c : Cache α) : Cache α := { c with entries := [] }

/-- The value of a key, made by `make` unless the cache has it. A failure leaves no entry. -/
def fetch {σ : Type} (l : Lens σ (Cache α)) (key : String) (make : Op σ α) : Op σ α := do
  Op.requireKey "key" key
  let (slot, c) := (l.get (← get)).reserve key
  modify (l.set c)
  match c.value? slot with
  | some a => pure a
  | none =>
    match ← Op.attempt make with
    | .ok a =>
      Op.change l (·.fill slot a)
      pure a
    | .error e =>
      Op.change l (·.discard key slot)
      throw e

end Cache

end Stencil
