import Stencil.Catalog.Stored
import Stencil.Task

/-!
# A catalog that is shared

Many may use the catalog of a store in memory at once. Each request is a task, and between any two of
its steps the others may take theirs: every access to the store is a step of its own, and so are the
changes that a write makes to the workshop one after another. Slots and cells are filled at most once: who
comes to one that is being filled waits, and takes over if that fails.

Beside what the program keeps, a `Shared` state notes when everything was made. The writes are counted;
what is read is noted with the number of writes before, and so is what was compiled from it. No step
looks at the notes of others to decide what to do.
-/

namespace Stencil

/-! ### Cells that are filled at most once -/

/-- Numbered cells in a state, with the numbers of those that are being filled. -/
structure Cells (σ α : Type) where
  busy : Lens σ (List Nat)
  get? : Nat → σ → Option α
  fill : Nat → α → σ → σ

namespace Cells

variable {σ α : Type} (c : Cells σ α)

/-- The value of a cell, if it has one; else the cell is taken, to be filled. -/
def takeUp (n : Nat) : Op σ (Option α) := do
  let s ← get
  match c.get? n s with
  | some a => return some a
  | none =>
    Op.change c.busy (n :: ·)
    return none

/-- The cell is free for the next one. -/
def release (n : Nat) : Op σ Unit := Op.change c.busy (·.erase n)

/-- The value of a cell, which is filled with what `make` gives unless it has a value. Only one at a time
makes a value for a cell; others wait. -/
def obtain (n : Nat) (make : Task σ α) : Task σ α := do
  match ← Task.when (fun s => (c.get? n s).isSome || !(c.busy.get s).contains n) (c.takeUp n) with
  | some a => return a
  | none =>
    match ← make.attempt with
    | .ok a =>
      Task.once do
        modify (c.fill n a)
        c.release n
      return a
    | .error e =>
      Task.once (c.release n)
      Task.ofExcept (.error e)

end Cells

/-! ### The state -/

/-- What a compiled template was made from: how many writes there had been when its text was read, and
when the names of the sets and each of the sets were read for its fragments. -/
structure Origin where
  text : Nat
  sets : List Nat
deriving DecidableEq, Repr

/-- What is noted of a slot of the cache. -/
structure SlotNote where
  key : String
  /-- The birth of the cell of fragments that was in use when the slot was made. -/
  born : Nat
  origin : Origin

/-- What is noted of a cell of fragments. -/
structure CellNote where
  /-- How many writes there had been when the cell was made. -/
  born : Nat
  origin : List Nat

/-- The state of a shared catalog. -/
structure Shared where
  /-- What the store held before each of the writes so far. -/
  past : List (NameMap Json)
  /-- What the store holds. -/
  items : NameMap Json
  workshop : Workshop
  /-- The slots whose values are being made. -/
  making : List Nat
  /-- The cells whose fragments are being loaded. -/
  loading : List Nat
  slotNotes : Nat → SlotNote
  cellNotes : Nat → CellNote

namespace Shared

/-- A catalog over a store with some values. -/
def start (items : NameMap Json) (limit : Nat) : Shared :=
  ⟨[], items, Workshop.empty limit, [], [], fun _ => ⟨"", 0, ⟨0, []⟩⟩, fun _ => ⟨0, []⟩⟩

def itemsPart : Lens Shared (NameMap Json) := ⟨(·.items), fun x s => { s with items := x }⟩
def workshopPart : Lens Shared Workshop := ⟨(·.workshop), fun x s => { s with workshop := x }⟩
def makingPart : Lens Shared (List Nat) := ⟨(·.making), fun x s => { s with making := x }⟩
def loadingPart : Lens Shared (List Nat) := ⟨(·.loading), fun x s => { s with loading := x }⟩

/-- How many writes there have been. -/
def version (s : Shared) : Nat := s.past.length

/-- What the store held after so many writes. -/
def contents? (s : Shared) (version : Nat) : Option (NameMap Json) := (s.past ++ [s.items])[version]?

/-- The birth of the cell in use. -/
def currentBorn (s : Shared) : Nat := (s.cellNotes s.workshop.current).born

/-- Puts a note at a number. -/
def noteAt {α : Type} (notes : Nat → α) (n : Nat) (note : α) : Nat → α :=
  fun i => if i = n then note else notes i

/-- The slots of the cache. -/
def slots : Cells Shared (Engine × Origin) where
  busy := makingPart
  get? n s := (s.workshop.engines.value? n).map fun e => (e, (s.slotNotes n).origin)
  fill n a s := { s with
    workshop := { s.workshop with engines := s.workshop.engines.fill n a.1 }
    slotNotes := noteAt s.slotNotes n { s.slotNotes n with origin := a.2 } }

/-- The cells of fragments. -/
def cells : Cells Shared (Fragments × List Nat) where
  busy := loadingPart
  get? n s := (s.workshop.fragments? n).map fun f => (f, (s.cellNotes n).origin)
  fill n a s := { s with
    workshop := s.workshop.fillCell n a.1
    cellNotes := noteAt s.cellNotes n { s.cellNotes n with origin := a.2 } }

/-! ### Reading -/

/-- Reads from the store, and says how many writes there have been. -/
def reading {α : Type} (op : Op (NameMap Json) α) : Task Shared (α × Nat) := Task.once do
  let a ← op.zoom itemsPart
  return (a, (← get).version)

/-- The names of all sets. -/
def setNames : Task Shared (List String × Nat) := do
  let (names, version) ← reading Store.memory.keys
  return (names.mergeSort fun a b => a ≤ b, version)

/-- The set of a name. -/
def readSet (set : String) : Task Shared (Bundle × Nat) := do
  match ← reading (Store.memory.get set) with
  | (some value, version) => do
    let b ← Task.ofExcept (Bundle.ofJson set value)
    return (b, version)
  | (none, _) => Task.ofExcept (.error (.problem (.setNotFound set)))

/-- The fragments of all sets. -/
def loadFragments : Task Shared (Fragments × List Nat) := do
  let (names, version) ← setNames
  let bundles ← names.mapM readSet
  let f ← Task.ofExcept (Fragments.ofBundles (bundles.map (·.1)))
  return (f, version :: bundles.map (·.2))

/-- The full names of all templates. -/
def listTemplates : Task Shared (List String) := do
  let (names, _) ← setNames
  let names ← names.mapM fun set => do return Catalog.fullNames set (← readSet set).1
  return names.flatten

/-- The problem that there is no template of a name. -/
def failNotFound (name : String) : Task Shared (String × Nat) := do
  let names ← listTemplates
  Task.ofExcept (.error (.problem (Catalog.notFound name names)))

/-- The text of a template. -/
def readTemplate (name : String) : Task Shared (String × Nat) := do
  match Catalog.splitName name with
  | none => failNotFound name
  | some (set, template) =>
    match ← reading (Store.memory.get set) with
    | (none, _) => failNotFound name
    | (some value, version) =>
      let b ← Task.ofExcept (Bundle.ofJson set value)
      match NameMap.get? b.templates template with
      | some text => return (text, version)
      | none => failNotFound name

/-! ### Requests -/

/-- The fragments, loaded unless they were before. -/
def fragments : Task Shared (Fragments × List Nat) := do
  let cell ← Task.once do return (← get).workshop.current
  cells.obtain cell loadFragments

/-- Compiles the template of a name. -/
def compile (name : String) : Task Shared (Engine × Origin) := do
  let (text, version) ← readTemplate name
  let (f, sets) ← fragments
  let e ← Task.ofExcept (Engine.compile name text f)
  return (e, ⟨version, sets⟩)

/-- The slot of a key. A new one is noted. -/
def reserve (key : String) : Op Shared Nat := do
  let s ← get
  let (slot, engines) := s.workshop.engines.reserve key
  set { s with
    workshop := { s.workshop with engines }
    slotNotes := match s.workshop.engines.slot? key with
      | some _ => s.slotNotes
      | none => noteAt s.slotNotes slot ⟨key, s.currentBorn, ⟨0, []⟩⟩ }
  return slot

/-- The compiled template of a name. -/
def fetch (name : String) : Task Shared (Engine × Origin) := do
  let slot ← Task.once do
    Op.requireKey "key" name
    reserve name
  match ← (slots.obtain slot (compile name)).attempt with
  | .ok a => return a
  | .error e =>
    Task.once (Op.change (workshopPart.comp Workshop.enginesLens) (·.discard name slot))
    Task.ofExcept (.error e)

/-- Goes on to a fresh cell. -/
def renew : Op Shared Unit :=
  modify fun s => { s with
    workshop := s.workshop.renew
    cellNotes := noteAt s.cellNotes s.workshop.cells.size ⟨s.version, []⟩ }

/-- Forgets all compiled templates. -/
def invalidate : Task Shared Unit := Task.once (Op.change workshopPart Workshop.invalidate)

/-- Changes the store, if the operation says that there is something to change. -/
def writing (op : Op (NameMap Json) Bool) : Op Shared Bool := do
  let s ← get
  let changed ← op.zoom itemsPart
  if changed then modify fun t => { t with past := t.past ++ [s.items] }
  return changed

/-- What follows a change of the store: it is made durable, and what was made from the old contents is
forgotten. Gives the number of the write. -/
def finishWrite (version : Nat) : Task Shared Nat := do
  Task.once (Store.memory.persist.zoom itemsPart)
  Task.once renew
  invalidate
  return version

/-- Stores a set under its name. -/
def upload (b : Bundle) : Task Shared Nat := do
  let version ← Task.once do
    let _ ← writing do
      Store.memory.set b.name b.toJson
      return true
    return (← get).version
  finishWrite version

/-- Removes a set from the store. -/
def remove (set : String) : Task Shared Nat := do
  match ← Task.once do
    let there ← writing (Store.memory.delete set)
    return (there, (← get).version) with
  | (true, version) => finishWrite version
  | (false, _) => Task.ofExcept (.error (.problem (.setNotFound set)))

/-- What a request gives. -/
inductive Answer where
  | engine (e : Engine) (o : Origin)
  /-- The number of a write. -/
  | written (number : Nat)
  | invalidated

/-- The task of a request. -/
def perform : StoredSets.Request → Task Shared Answer
  | .fetch name => do
    let (e, o) ← fetch name
    return .engine e o
  | .upload b => do return .written (← upload b)
  | .remove set => do return .written (← remove set)
  | .invalidate => do
    invalidate
    return .invalidated

/-- The catalog over a store, with requests that have not taken a step yet. -/
def crew (items : NameMap Json) (limit : Nat) (requests : List StoredSets.Request) :
    Crew Shared Answer :=
  ⟨start items limit, requests.map perform⟩

end Shared

end Stencil
