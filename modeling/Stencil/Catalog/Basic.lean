import Stencil.Cache.Basic
import Stencil.Template.Engine
import Stencil.Text.Similar

/-!
# Catalogs

A catalog finds templates by their full names, a set and a template with a slash between them, and
compiles them. A `Workshop` is what every catalog keeps: the compiled templates, and the fragments
of all schema files, which are loaded once.

The fragments are in numbered cells. `Workshop.reload` goes on to a fresh cell, so fragments that
are still being loaded end up in the old one and are not used again.
-/

namespace Stencil

/-- The operations of a catalog over a state. -/
structure Catalog (σ : Type) where
  /-- The compiled template of a full name. -/
  fetch : String → Op σ Engine
  /-- The full names of all templates. -/
  list : Op σ (List String)
  /-- The names of all sets. -/
  listSets : Op σ (List String)
  hasSet : String → Op σ Bool
  /-- A set as a whole. -/
  setData : String → Op σ Bundle
  removeSet : String → Op σ Unit
  /-- Drops all compiled templates. -/
  invalidate : Op σ Unit

namespace Catalog

/-- The catalog over a larger state. -/
def lift {σ τ : Type} (l : Lens τ σ) (c : Catalog σ) : Catalog τ where
  fetch name := (c.fetch name).zoom l
  list := c.list.zoom l
  listSets := c.listSets.zoom l
  hasSet set := (c.hasSet set).zoom l
  setData set := (c.setData set).zoom l
  removeSet set := (c.removeSet set).zoom l
  invalidate := c.invalidate.zoom l

/-- Cuts a text at its first slash. -/
def cutSlash : List Char → Option (List Char × List Char)
  | [] => none
  | c :: rest => if c = '/' then some ([], rest) else (cutSlash rest).map fun (a, b) => (c :: a, b)

/-- The set and the template that a full name consists of. -/
def splitName (name : String) : Option (String × String) :=
  (cutSlash name.toList).bind fun (set, template) =>
    if set.isEmpty || template.isEmpty || template.contains '/' then none
    else some (String.ofList set, String.ofList template)

/-- The full name of a template. -/
def fullName (set template : String) : String := set ++ "/" ++ template

/-- The full names of the templates of a set. -/
def fullNames (set : String) (b : Bundle) : List String := (NameMap.names b.templates).map (fullName set)

/-- The problem that there is no template of a name. -/
def notFound (name : String) (names : List String) : Problem :=
  .templateNotFound name (Text.similar name names)

end Catalog

/-- What a catalog keeps. -/
structure Workshop where
  /-- The compiled templates. -/
  engines : Cache Engine
  /-- The fragments of each cell, once they are loaded. -/
  cells : Array (Option Fragments)
  /-- The cell in use. -/
  current : Nat
deriving Inhabited

namespace Workshop

/-- A workshop that keeps so many compiled templates. -/
def empty (limit : Nat) : Workshop := ⟨Cache.empty limit, #[none], 0⟩

/-- The cache of compiled templates. -/
def enginesLens : Lens Workshop (Cache Engine) := ⟨(·.engines), fun c w => { w with engines := c }⟩

/-- The fragments of a cell. -/
def fragments? (w : Workshop) (cell : Nat) : Option Fragments := (w.cells[cell]?).bind id

/-- Puts fragments into a cell. -/
def fillCell (w : Workshop) (cell : Nat) (f : Fragments) : Workshop :=
  { w with cells := w.cells.setIfInBounds cell (some f) }

/-- Goes on to a fresh cell. -/
def renew (w : Workshop) : Workshop := { w with cells := w.cells.push none, current := w.cells.size }

/-- Forgets all compiled templates. -/
def invalidate (w : Workshop) : Workshop := { w with engines := w.engines.clear }

/-- Forgets the fragments and all templates compiled with them. -/
def reload (w : Workshop) : Workshop := w.renew.invalidate

/-- The full name is one of a set. -/
def belongsTo (set name : String) : Bool := (set.toList ++ ['/']).isPrefixOf name.toList

/-- Forgets the compiled templates of a set. -/
def invalidateSet (w : Workshop) (set : String) : Workshop :=
  { w with engines := (w.engines.keys.filter (belongsTo set)).foldl Cache.invalidate w.engines }

variable {σ : Type} (l : Lens σ Workshop)

/-- The compiled template of a name, made by `make` unless it is there. -/
def engine (name : String) (make : Op σ Engine) : Op σ Engine := Cache.fetch (l.comp enginesLens) name make

/-- The fragments, loaded unless they were before. -/
def fragments (load : Op σ Fragments) : Op σ Fragments := do
  let w := l.get (← get)
  let cell := w.current
  match w.fragments? cell with
  | some f => pure f
  | none =>
    let f ← load
    Op.change l (·.fillCell cell f)
    pure f

/-- Compiles the template of a name from its text and the fragments. -/
def build (name : String) (read : Op σ String) (load : Op σ Fragments) : Op σ Engine :=
  engine l name do
    let text ← read
    let f ← fragments l load
    Op.ofExcept (Engine.compile name text f)

end Workshop

end Stencil
