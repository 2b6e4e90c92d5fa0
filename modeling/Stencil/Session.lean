import Stencil.Catalog.Folder
import Stencil.Catalog.Stored
import Stencil.Store.Appliance
import Stencil.Store.File

/-!
# Sessions

A session is the state behind a catalog of a folder and a catalog of a store that are used side by
side. Both see the same files, so what the store writes can be read at once. The state has room for
a store of each kind.
-/

namespace Stencil

/-- The state behind two catalogs; `τ` is the state of an appliance, if one takes part. -/
structure Session (τ : Type) where
  files : Files
  /-- The values of a store in memory. -/
  memory : NameMap Json
  /-- The values of a store in a file, once they were read. -/
  read : Option (NameMap Json)
  /-- The collection on the appliance is known to exist. -/
  provisioned : Bool
  appliance : τ
  folder : FolderState
  /-- What the catalog of the store keeps. -/
  stored : Workshop

namespace Session

variable {τ υ : Type}

/-- The session that begins with some files; each catalog keeps so many compiled templates. -/
def start (files : Files) (appliance : τ) (folderLimit storedLimit : Nat) : Session τ :=
  ⟨files, [], none, false, appliance, Folder.start folderLimit, Workshop.empty storedLimit⟩

/-! ### Parts -/

def filesPart : Lens (Session τ) Files := ⟨(·.files), fun x s => { s with files := x }⟩
def memoryPart : Lens (Session τ) (NameMap Json) := ⟨(·.memory), fun x s => { s with memory := x }⟩
def readPart : Lens (Session τ) (Option (NameMap Json)) := ⟨(·.read), fun x s => { s with read := x }⟩
def provisionedPart : Lens (Session τ) Bool := ⟨(·.provisioned), fun x s => { s with provisioned := x }⟩
def appliancePart : Lens (Session τ) τ := ⟨(·.appliance), fun x s => { s with appliance := x }⟩
def folderPart : Lens (Session τ) FolderState := ⟨(·.folder), fun x s => { s with folder := x }⟩
def storedPart : Lens (Session τ) Workshop := ⟨(·.stored), fun x s => { s with stored := x }⟩

/-! ### Stores and catalogs -/

/-- The store in memory. -/
def memoryStore : Store (Session τ) := Store.memory.lift memoryPart

/-- The store in a file. -/
def fileStore (path : String) : Store (Session τ) := (Store.file path).lift (readPart.both filesPart)

/-- The store on an appliance whose shell works on a part of the session. -/
def applianceStore (z : Compression) (l : Lens (Session τ) υ) (shell : Shell υ) (c : Collection) :
    Store (Session τ) :=
  (Store.appliance z shell c).lift (provisionedPart.both l)

/-- The catalog of a folder. -/
def folderCatalog (f : Folder) : Catalog (Session τ) := f.catalog.lift (filesPart.both folderPart)

/-- The sets of a store. -/
def setsOf (store : Store (Session τ)) (known : KnownHashes) : StoredSets (Session τ) :=
  ⟨store, storedPart, known⟩

/-- The session as it goes on with the store opened anew: what was not made durable is lost. -/
def reopened (s : Session τ) : Session τ := { s with read := none, provisioned := false }

end Session

end Stencil
