import Stencil.Catalog.Basic
import Stencil.Store.Basic

/-!
# The catalog of a store

Each value of the store is a set, kept under its name. An upload or a removal changes the store,
makes the change durable, and then forgets the fragments and every compiled template, since schema
files may have come or gone.
-/

namespace Stencil

/-- A store of template sets over a state. -/
structure StoredSets (σ : Type) where
  store : Store σ
  /-- What the catalog keeps. -/
  workshop : Lens σ Workshop
  known : KnownHashes

namespace StoredSets

variable {σ : Type} (c : StoredSets σ)

/-- The names of all sets. -/
def setNames : Op σ (List String) := do
  return (← c.store.keys).mergeSort fun a b => a ≤ b

/-- The set of a name. -/
def readSet (set : String) : Op σ Bundle := do
  match ← c.store.get set with
  | some value => Op.ofExcept (Bundle.ofJson set value)
  | none => Op.fail (.setNotFound set)

/-- The fragments of all sets. -/
def loadFragments : Op σ Fragments := do
  let bundles ← (← c.setNames).mapM c.readSet
  Op.ofExcept (Fragments.ofBundles bundles)

/-- The full names of all templates. -/
def listTemplates : Op σ (List String) := do
  let names ← (← c.setNames).mapM fun set => do return Catalog.fullNames set (← c.readSet set)
  return names.flatten

/-- The problem that there is no template of a name. -/
def failNotFound (name : String) : Op σ String := do
  let names ← c.listTemplates
  Op.fail (Catalog.notFound name names)

/-- The text of a template. -/
def readTemplate (name : String) : Op σ String := do
  match Catalog.splitName name with
  | none => c.failNotFound name
  | some (set, template) =>
    match ← c.store.get set with
    | none => c.failNotFound name
    | some value =>
      let b ← Op.ofExcept (Bundle.ofJson set value)
      match NameMap.get? b.templates template with
      | some text => return text
      | none => c.failNotFound name

/-- Stores a set under its name. -/
def upload (b : Bundle) : Op σ Unit := do
  c.store.set b.name b.toJson
  c.store.persist
  Op.change c.workshop Workshop.reload

/-- Removes a set from the store. -/
def remove (set : String) : Op σ Unit := do
  if ← c.store.delete set then
    c.store.persist
    Op.change c.workshop Workshop.reload
  else Op.fail (.setNotFound set)

/-- Another catalog has the set with another hash. -/
def differs (source : Catalog σ) (b : Bundle) (set : String) : Op σ Bool := do
  if ← source.hasSet set then return (← source.setData set).hash != b.hash
  else return false

/-- What is known about a set, compared with another catalog if one is given. -/
def status (set : String) (source : Option (Catalog σ)) : Op σ SetStatus := do
  let b ← c.readSet set
  let updateAvailable ← match source with
    | some source => differs source b set
    | none => pure false
  return ⟨b.name, b.hash, c.known.supports b.name b.hash, updateAvailable⟩

/-- What is known about all sets. -/
def statuses (source : Option (Catalog σ)) : Op σ (List SetStatus) := do
  (← c.setNames).mapM fun set => c.status set source

/-- The catalog of the store. -/
def catalog : Catalog σ where
  fetch name := Workshop.build c.workshop name (c.readTemplate name) c.loadFragments
  list := c.listTemplates
  listSets := c.setNames
  hasSet set := c.store.has set
  setData set := c.readSet set
  removeSet set := c.remove set
  invalidate := Op.change c.workshop Workshop.invalidate

/-- What is asked of a catalog. -/
inductive Request where
  | upload (b : Bundle)
  | remove (set : String)
  | fetch (name : String)
  | invalidate

/-- The request is to change the store. -/
def Request.writes : Request → Bool
  | .upload _ | .remove _ => true
  | .fetch _ | .invalidate => false

/-- Does what is asked. -/
def perform (c : StoredSets σ) : Request → Op σ Unit
  | .upload b => c.upload b
  | .remove set => c.catalog.removeSet set
  | .fetch name => do let _ ← c.catalog.fetch name
  | .invalidate => c.catalog.invalidate

/-- The catalog over a store, with its workshop beside the state of the store. -/
def ofStore (st : Store σ) (known : KnownHashes) : StoredSets (σ × Workshop) :=
  ⟨st.lift Lens.fst, Lens.snd, known⟩

end StoredSets

end Stencil
