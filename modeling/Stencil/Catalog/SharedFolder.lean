import Stencil.Catalog.Folder
import Stencil.Catalog.Shared

/-!
# A catalog of a folder that is shared

Many may use the catalog of a folder at once, and the files may be changed meanwhile. Each request is a
task, and so is each change of the files; between any two steps of one task the others may take theirs.
Every access to the files is a step of its own, and so is every look at which sets are hidden. To hide a
set and to forget its compiled templates is one step.

Beside what the program keeps, a `SharedFolder` notes when everything was made. The changes are counted:
those of the files, the sets that are hidden one after another, and each time that all compiled templates
are forgotten. What is read is noted with the number of changes before, and so is what was compiled from
it. No step looks at the notes of others to decide what to do.
-/

namespace Stencil

/-- What is noted of a slot of the cache. -/
structure FolderNote where
  key : String
  /-- How many changes there had been when the slot was made. -/
  born : Nat
  /-- How many changes there had been when the text was read that its template was compiled from. -/
  read : Nat

/-- The state of a shared catalog of a folder. -/
structure SharedFolder where
  /-- The files and the hidden sets before each of the changes so far. -/
  past : List (Files × NameSet)
  files : Files
  kept : FolderState
  /-- The slots whose values are being made. -/
  making : List Nat
  /-- The cells whose fragments are being loaded. -/
  loading : List Nat
  slotNotes : Nat → FolderNote

namespace SharedFolder

/-- A catalog of a folder among some files. -/
def start (files : Files) (limit : Nat) : SharedFolder :=
  ⟨[], files, Folder.start limit, [], [], fun _ => ⟨"", 0, 0⟩⟩

def worldPart : Lens SharedFolder Folder.World :=
  ⟨fun s => (s.files, s.kept), fun w s => { s with files := w.1, kept := w.2 }⟩
def workshopPart : Lens SharedFolder Workshop := worldPart.comp Folder.workshopLens
def makingPart : Lens SharedFolder (List Nat) := ⟨(·.making), fun x s => { s with making := x }⟩
def loadingPart : Lens SharedFolder (List Nat) := ⟨(·.loading), fun x s => { s with loading := x }⟩

/-- What the catalog keeps of templates. -/
def workshop (s : SharedFolder) : Workshop := s.kept.workshop

/-- How many changes there have been. -/
def version (s : SharedFolder) : Nat := s.past.length

/-- The files and the hidden sets after so many changes. -/
def contents? (s : SharedFolder) (version : Nat) : Option (Files × NameSet) :=
  (s.past ++ [(s.files, s.kept.removed)])[version]?

/-- The slots of the cache. -/
def slots : Cells SharedFolder (Engine × Nat) where
  busy := makingPart
  get? n s := (s.workshop.engines.value? n).map fun e => (e, (s.slotNotes n).read)
  fill n a s := { workshopPart.set { s.workshop with engines := s.workshop.engines.fill n a.1 } s with
    slotNotes := Shared.noteAt s.slotNotes n { s.slotNotes n with read := a.2 } }

/-- The cells of fragments. -/
def cells : Cells SharedFolder Fragments where
  busy := loadingPart
  get? n s := s.workshop.fragments? n
  fill n a s := workshopPart.set (s.workshop.fillCell n a) s

variable (f : Folder)

/-! ### Reading -/

/-- Looks at the files. -/
def lookAt {α : Type} (look : Files → α) : Task SharedFolder α := Task.once do return look (← get).files

/-- Looks at the hidden sets. -/
def lookAtHidden {α : Type} (look : NameSet → α) : Task SharedFolder α :=
  Task.once do return look (← get).kept.removed

/-- The sets that are shown; a folder that is missing holds none. The names are those of one moment, and
for each of them it is looked at whether it is hidden. -/
def visibleSets : Task SharedFolder (List String) := do
  match ← lookAt (·.readDirectory f.root) with
  | .ok entries =>
    let listed ← entries.mapM fun entry => do
      return (entry.1, ← lookAtHidden fun removed => f.isListed removed entry)
    return (listed.filter (·.2)).map (·.1)
  | .error e =>
    if e.isMissing then return []
    else Task.ofExcept (.error (.context ("Failed to read templates directory: " ++ f.root) (.io e)))

/-- Reads the set in a directory, one file after another. -/
def readSet (set directory : String) : Task SharedFolder Bundle := do
  match ← lookAt (·.readDirectory directory) with
  | .error e => Task.ofExcept (.error (.context ("Failed to read template set: " ++ directory) (.io e)))
  | .ok entries =>
    let b ← entries.foldlM (fun b entry => do
      let r ← lookAt fun files => Folder.addFile files directory b entry
      Task.ofExcept r) (⟨set, "", [], []⟩ : Bundle)
    return Bundle.build set b.templates b.schemas

/-- The set of a name. -/
def loadSet (set : String) : Task SharedFolder Bundle := do
  if ← lookAtHidden fun removed => f.shows removed set then
    if ← lookAt (·.isDirectory (f.directory set)) then readSet set (f.directory set)
    else Task.ofExcept (.error (.problem (.setNotFound set)))
  else Task.ofExcept (.error (.problem (.setNotFound set)))

/-- The fragments of all sets that are shown. -/
def loadFragments : Task SharedFolder Fragments := do
  let bundles ← (← visibleSets f).mapM (loadSet f)
  Task.ofExcept (Fragments.ofBundles bundles)

/-- The full names of all templates. -/
def listTemplates : Task SharedFolder (List String) := do
  let names ← (← visibleSets f).mapM fun set => do return Catalog.fullNames set (← loadSet f set)
  return names.flatten

/-- The problem that there is no template of a name. -/
def failNotFound {α : Type} (name : String) : Task SharedFolder α := do
  let names ← listTemplates f
  Task.ofExcept (.error (.problem (Catalog.notFound name names)))

/-- The text of a template, and how many changes there had been when it was read. -/
def readTemplate (name : String) : Task SharedFolder (String × Nat) := do
  match ← lookAtHidden fun removed => f.templatePath removed name with
  | none => failNotFound f name
  | some path =>
    match ← Task.once do
      let s ← get
      return (s.files.readText path, s.version) with
    | (.ok text, version) => return (text, version)
    | (.error e, _) =>
      if e.isMissing then failNotFound f name
      else Task.ofExcept (.error (.context ("Failed to read template: " ++ path) (.io e)))

/-! ### Requests -/

/-- The fragments, loaded unless they were before. -/
def fragments : Task SharedFolder Fragments := do
  let cell ← Task.once do return (← get).workshop.current
  cells.obtain cell (loadFragments f)

/-- Compiles the template of a name. -/
def compile (name : String) : Task SharedFolder (Engine × Nat) := do
  let (text, version) ← readTemplate f name
  let loaded ← fragments f
  let e ← Task.ofExcept (Engine.compile name text loaded)
  return (e, version)

/-- The slot of a key. A new one is noted. -/
def reserve (key : String) : Op SharedFolder Nat := do
  let s ← get
  let (slot, engines) := s.workshop.engines.reserve key
  set { workshopPart.set { s.workshop with engines } s with
    slotNotes := match s.workshop.engines.slot? key with
      | some _ => s.slotNotes
      | none => Shared.noteAt s.slotNotes slot ⟨key, s.version, 0⟩ }
  return slot

/-- The compiled template of a name. -/
def fetch (name : String) : Task SharedFolder (Engine × Nat) := do
  let slot ← Task.once do
    Op.requireKey "key" name
    reserve name
  match ← (slots.obtain slot (compile f name)).attempt with
  | .ok a => return a
  | .error e =>
    Task.once (Op.change (workshopPart.comp Workshop.enginesLens) (·.discard name slot))
    Task.ofExcept (.error e)

/-- Makes a change, and gives its number. -/
def change (op : Op Folder.World Unit) : Op SharedFolder Nat := do
  let s ← get
  op.zoom worldPart
  modify fun t => { t with past := t.past ++ [(s.files, s.kept.removed)] }
  return s.version + 1

/-- Hides a set. -/
def remove (set : String) : Task SharedFolder Nat := do
  if (← visibleSets f).contains set then Task.once (change (Folder.hide set))
  else Task.ofExcept (.error (.problem (.setNotFound set)))

/-- Forgets all compiled templates. -/
def invalidate : Task SharedFolder Nat :=
  Task.once (change (Op.change Folder.workshopLens Workshop.invalidate))

/-- Others change the files. -/
def edit (act : Files → Files) : Task SharedFolder Nat := Task.once (change (Op.change Lens.fst act))

/-- What is asked of the catalog, or done to the files. -/
inductive Request where
  | ask (r : Folder.Request)
  | edit (act : Files → Files)

/-- What a request gives. -/
inductive Answer where
  /-- A compiled template, and how many changes there had been when its text was read. -/
  | engine (e : Engine) (read : Nat)
  /-- The number of a change. -/
  | changed (number : Nat)

/-- The task of a request. -/
def perform : Request → Task SharedFolder Answer
  | .ask (.fetch name) => do
    let (e, read) ← fetch f name
    return .engine e read
  | .ask (.remove set) => do return .changed (← remove f set)
  | .ask .invalidate => do return .changed (← invalidate)
  | .edit act => do return .changed (← edit act)

/-- The catalog of a folder, with requests that have not taken a step yet. -/
def crew (files : Files) (limit : Nat) (requests : List Request) : Crew SharedFolder Answer :=
  ⟨start files limit, requests.map (perform f)⟩

end SharedFolder

end Stencil
