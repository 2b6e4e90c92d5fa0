import Stencil.Catalog.Basic
import Stencil.Files.Tree

/-!
# The catalog of a folder

Each directory in the folder is a set: its files with the extension `mst` are templates, those with
the extension `json` are schema files. Directories whose name begins with a dot are no sets. A set
can be hidden, by a filter from the start or by removing it; its files stay.
-/

namespace Stencil

/-- What a catalog of a folder keeps. -/
structure FolderState where
  /-- The sets that were removed. -/
  removed : NameSet
  workshop : Workshop
deriving Inhabited

/-- A folder of template sets. -/
structure Folder where
  root : String
  /-- The only sets to show, if given. -/
  filter : Option (List String)
deriving DecidableEq, Repr

namespace Folder

/-- The extensions of the files that count. -/
def templateExtension : String := "mst"
def schemaExtension : String := "json"

/-- What a folder catalog starts with. -/
def start (limit : Nat) : FolderState := ⟨[], Workshop.empty limit⟩

/-- The files and what the catalog keeps. -/
abbrev World := Files × FolderState

/-- The workshop of the catalog. -/
def workshopLens : Lens World Workshop :=
  Lens.comp Lens.snd ⟨(·.workshop), fun w s => { s with workshop := w }⟩

variable (f : Folder)

/-- The set is not hidden. -/
def shows (removed : NameSet) (set : String) : Bool :=
  f.filter.all (·.contains set) && !removed.contains set

/-- The directory of a set. -/
def directory (set : String) : String := Path.join f.root set

/-- The name is one that a set can be listed under. -/
def isListed (removed : NameSet) (entry : String × Entry) : Bool :=
  entry.2 == .directory && entry.1.toList.head? != some '.' && f.shows removed entry.1

/-- The sets that are shown; a folder that is missing holds none. -/
def visibleSets : Op World (List String) := do
  let (fs, st) ← get
  match fs.readDirectory f.root with
  | .ok entries => return (entries.filter (f.isListed st.removed)).map (·.1)
  | .error e =>
    if e.isMissing then return []
    else throw (.context ("Failed to read templates directory: " ++ f.root) (.io e))

/-- Adds the text of a file to the set it is in, if it counts. -/
def addFile (fs : Files) (directory : String) (b : Bundle) (entry : String × Entry) :
    Except Fault Bundle :=
  match entry.2, Path.stemAndExtension entry.1 with
  | .file _, (stem, some extension) =>
    if extension = templateExtension ∨ extension = schemaExtension then
      match fs.readText (Path.join directory entry.1) with
      | .error e => .error (.context ("Failed to read " ++ Path.join directory entry.1) (.io e))
      | .ok text =>
        if extension = templateExtension then
          .ok { b with templates := NameMap.insert b.templates stem text }
        else .ok { b with schemas := NameMap.insert b.schemas stem text }
    else .ok b
  | _, _ => .ok b

/-- Reads the set in a directory. -/
def readSet (fs : Files) (set directory : String) : Except Fault Bundle :=
  match fs.readDirectory directory with
  | .error e => .error (.context ("Failed to read template set: " ++ directory) (.io e))
  | .ok entries =>
    (entries.foldlM (addFile fs directory) ⟨set, "", [], []⟩).map fun b =>
      Bundle.build set b.templates b.schemas

/-- The set of a name. -/
def loadSet (set : String) : Op World Bundle := do
  let (fs, st) ← get
  if f.shows st.removed set && fs.isDirectory (f.directory set) then
    Op.ofExcept (readSet fs set (f.directory set))
  else Op.fail (.setNotFound set)

/-- The sets of names, one after another. -/
def loadSets (sets : List String) : Op World (List Bundle) := sets.mapM f.loadSet

/-- The fragments of all sets that are shown. -/
def loadFragments : Op World Fragments := do
  let bundles ← f.loadSets (← f.visibleSets)
  Op.ofExcept (Fragments.ofBundles bundles)

/-- The full names of all templates. -/
def listTemplates : Op World (List String) := do
  let names ← (← f.visibleSets).mapM fun set => do return Catalog.fullNames set (← f.loadSet set)
  return names.flatten

/-- The path of a template file, if the name is one and its set is not hidden. -/
def templatePath (removed : NameSet) (name : String) : Option String :=
  ((Catalog.splitName name).filter fun p => f.shows removed p.1).map fun (set, template) =>
    Path.join (f.directory set) (template ++ "." ++ templateExtension)

/-- The problem that there is no template of a name. -/
def failNotFound (name : String) : Op World String := do
  let names ← f.listTemplates
  Op.fail (Catalog.notFound name names)

/-- The text of a template. -/
def readTemplate (name : String) : Op World String := do
  let (fs, st) ← get
  match f.templatePath st.removed name with
  | none => f.failNotFound name
  | some path =>
    match fs.readText path with
    | .ok text => return text
    | .error e =>
      if e.isMissing then f.failNotFound name
      else throw (.context ("Failed to read template: " ++ path) (.io e))

/-- Hides a set. -/
def hide (set : String) : Op World Unit :=
  modify fun (fs, st) =>
    (fs, { st with removed := NameSet.insert st.removed set, workshop := st.workshop.invalidateSet set })

/-- The catalog of the folder. -/
def catalog : Catalog World where
  fetch name := Workshop.build workshopLens name (f.readTemplate name) f.loadFragments
  list := f.listTemplates
  listSets := f.visibleSets
  hasSet set := do return (← f.visibleSets).contains set
  setData set := f.loadSet set
  removeSet set := do
    if (← f.visibleSets).contains set then hide set
    else Op.fail (.setNotFound set)
  invalidate := Op.change workshopLens Workshop.invalidate

/-- What is asked of the catalog, other than what it only looks up. -/
inductive Request where
  | fetch (name : String)
  | remove (set : String)
  | invalidate

/-- Does what is asked. -/
def perform : Request → Op World Unit
  | .fetch name => do let _ ← f.catalog.fetch name
  | .remove set => f.catalog.removeSet set
  | .invalidate => f.catalog.invalidate

end Folder

end Stencil
