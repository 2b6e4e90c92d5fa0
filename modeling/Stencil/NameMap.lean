/-!
# Maps from names

A map from strings is a list of pairs in rising order of the names, the order of their code points.
Equal maps are equal lists, so a map can be compared, listed and hashed as it stands.
-/

namespace Stencil

/-- A map from names: pairs in strictly rising order. -/
abbrev NameMap (α : Type) := List (String × α)

namespace NameMap

variable {α : Type}

/-- The value under a name. -/
def get? (m : NameMap α) (name : String) : Option α := m.lookup name

/-- The map has a value under a name. -/
def has (m : NameMap α) (name : String) : Bool := (get? m name).isSome

/-- The names, in order. -/
def names (m : NameMap α) : List String := m.map (·.1)

/-- Puts a value under a name. -/
def insert : NameMap α → String → α → NameMap α
  | [], name, a => [(name, a)]
  | (k, b) :: rest, name, a =>
    if name < k then (name, a) :: (k, b) :: rest
    else if name = k then (name, a) :: rest
    else (k, b) :: insert rest name a

/-- The map without a name. -/
def erase (m : NameMap α) (name : String) : NameMap α := m.filter (·.1 != name)

/-- The map of a list of pairs, the last one of each name counting. -/
def ofList (pairs : List (String × α)) : NameMap α :=
  pairs.foldl (fun m p => insert m p.1 p.2) []

/-- The names rise. -/
def Sorted (m : NameMap α) : Prop := m.Pairwise fun a b => a.1 < b.1

end NameMap

/-- A set of names: a list in strictly rising order. -/
abbrev NameSet := List String

namespace NameSet

/-- Adds a name. -/
def insert : NameSet → String → NameSet
  | [], name => [name]
  | k :: rest, name =>
    if name < k then name :: k :: rest else if name = k then k :: rest else k :: insert rest name

/-- The set of the names of a list. -/
def ofList (names : List String) : NameSet := names.foldl insert []

end NameSet

end Stencil
