import Stencil.Cache.Flight
import Stencil.NameMap

/-!
# A cache of two containers

A bounded cache in which a map finds the slots of the keys, and a row beside it tells in which order
the keys came in. Both are kept in step by every operation. `IndexedCache.toCache` puts them together
again.
-/

namespace Stencil

/-- A bounded cache of values, with a map to find the slots and a row to find the oldest key. -/
structure IndexedCache (α : Type) where
  /-- How many entries there may be. -/
  limit : Nat
  /-- The numbers of the slots. -/
  entries : NameMap Nat
  /-- The keys in the order of insertion; the front is dropped first. -/
  order : List String
  /-- The contents of all slots ever made. -/
  cells : Array (Option α)
  hits : Nat
  misses : Nat

namespace IndexedCache

variable {α : Type}

/-- A cache without entries; it may hold at least one. -/
def empty (limit : Nat) : IndexedCache α := ⟨max limit 1, [], [], #[], 0, 0⟩

/-- The value in a slot. -/
def value? (c : IndexedCache α) (slot : Nat) : Option α := (c.cells[slot]?).bind id

/-- Drops the oldest keys as long as there is no room for one more. -/
def makeRoom (limit : Nat) : List String → NameMap Nat → List String × NameMap Nat
  | [], entries => ([], entries)
  | oldest :: rest, entries =>
    if limit ≤ entries.length then makeRoom limit rest (NameMap.erase entries oldest)
    else (oldest :: rest, entries)

/-- The slot of a key: the one it has, else a new one. -/
def reserve (c : IndexedCache α) (key : String) : Nat × IndexedCache α :=
  match NameMap.get? c.entries key with
  | some slot => (slot, if (c.value? slot).isSome then { c with hits := c.hits + 1 } else c)
  | none =>
    let (order, entries) := makeRoom c.limit c.order c.entries
    (c.cells.size, { c with
      entries := NameMap.insert entries key c.cells.size
      order := order ++ [key]
      cells := c.cells.push none
      misses := c.misses + 1 })

/-- Puts a value into a slot. -/
def fill (c : IndexedCache α) (slot : Nat) (a : α) : IndexedCache α :=
  { c with cells := c.cells.setIfInBounds slot (some a) }

/-- The cache without the entry of a key. -/
def drop (c : IndexedCache α) (key : String) : IndexedCache α :=
  { c with entries := NameMap.erase c.entries key, order := c.order.filter (· != key) }

/-- Drops a slot that got no value, unless the key has another slot by now. -/
def discard (c : IndexedCache α) (key : String) (slot : Nat) : IndexedCache α :=
  if NameMap.get? c.entries key = some slot ∧ (c.value? slot).isNone then c.drop key else c

/-- Drops the entry of a key. -/
def invalidate (c : IndexedCache α) (key : String) : IndexedCache α :=
  if NameMap.has c.entries key then c.drop key else c

/-- Drops all entries; the counts go on. -/
def clear (c : IndexedCache α) : IndexedCache α := { c with entries := [], order := [] }

instance : Caching IndexedCache where
  value? := value?
  reserve := reserve
  fill := fill
  discard := discard
  invalidate := invalidate
  clear := clear

/-- The cache with both containers in one. -/
def toCache (c : IndexedCache α) : Cache α where
  limit := c.limit
  entries := c.order.map fun key => (key, (NameMap.get? c.entries key).getD 0)
  cells := c.cells
  hits := c.hits
  misses := c.misses

end IndexedCache

end Stencil
