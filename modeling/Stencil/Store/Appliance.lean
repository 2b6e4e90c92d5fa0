import Stencil.Record.Group
import Stencil.Record.Listing
import Stencil.Store.Basic

/-!
# A store on an appliance

An appliance keeps named texts in collections and is spoken to through a command shell. The store
keeps all its values in one collection, as records: a read lists the collection and groups the
records by key, a write replaces the whole collection. Before the first command that needs it, the
folder and the collection are created; that they exist already is no failure.
-/

namespace Stencil

/-- A command shell: a command and what it prints. -/
abbrev Shell (τ : Type) := String → Op τ String

/-- Where the records are: a collection in a folder of the appliance. -/
structure Collection where
  folder : String
  name : String
deriving DecidableEq, Repr

namespace Collection

/-- The path of the folder. -/
def folderPath (c : Collection) : String := "/" ++ c.folder ++ "/"

/-- The path of the collection. -/
def path (c : Collection) : String := "/" ++ c.folder ++ "/" ++ c.name

/-- The commands that the store sends. -/
def createFolder (c : Collection) : String := "create sys folder " ++ c.folderPath
def create (c : Collection) : String := "create ltm data-group internal " ++ c.path ++ " type string"
def list (c : Collection) : String := "list ltm data-group internal " ++ c.path

/-- The new content of the collection, as a command gives it. -/
def recordsText : List Record → List Char
  | [] => "none".toList
  | r :: rest => "replace-all-with \x7b ".toList ++ r.entryText ++
      rest.flatMap (fun r => ' ' :: r.entryText) ++ " \x7d".toList

/-- The command that replaces the content of the collection. -/
def modify (c : Collection) (records : List Record) : String :=
  String.ofList (("modify ltm data-group internal " ++ c.path ++ " records ").toList ++ recordsText records)

end Collection

namespace ApplianceStore

/-- The command that makes changes durable. -/
def save : String := "save sys config"

/-- The punctuation of keys. -/
def keyPunctuation : String := "_.-/"

/-- The character may stand in a key. -/
def isKeyChar (c : Char) : Bool := c.isAlphanum || keyPunctuation.toList.contains c

/-- Refuses a key that no record name can hold. -/
def checkKey {σ : Type} (key : String) : Op σ Unit := do
  Op.requireKey "key" key
  match key.toList.find? fun c => !isKeyChar c with
  | none => pure ()
  | some c =>
    Op.fail (.invalidKey key "appliance" ("character " ++ Text.quotedChar c ++
      " is not allowed, use letters, digits or one of '" ++ keyPunctuation ++ "'"))

/-- Whether the collection is known to exist, and the state of the shell. -/
abbrev State (τ : Type) := Bool × τ

variable {τ : Type} (shell : Shell τ) (c : Collection)

/-- Sends a command. -/
def send (command : String) : Op (State τ) String := (shell command).zoom Lens.snd

/-- What the appliance says about a command that failed. -/
def reasonOf (e : Fault) : String :=
  match e.problem? with
  | some (.commandFailed _ output) => output
  | _ => e.inlineText

/-- Creates something unless it exists. -/
def createOnce (resource command : String) : Op (State τ) Unit := do
  match ← Op.attempt (send shell command) with
  | .ok _ => pure ()
  | .error e =>
    let reason := reasonOf e
    if Text.occursIn "already exists".toList reason.toList then pure ()
    else Op.fail (.backendConflict resource (Text.trimmed reason))

/-- Sees to it that the collection exists. -/
def provision : Op (State τ) Unit := do
  if !(← get).1 then
    createOnce shell c.folderPath c.createFolder
    createOnce shell c.path c.create
    modify fun s => (true, s.2)

/-- The records of the collection. -/
def readRecords : Op (State τ) (List Record) := do
  provision shell c
  return Record.ofListing (← send shell c.list)

/-- The records of the collection by key. -/
def readGroups : Op (State τ) (List RecordGroup) := do
  Op.ofExcept (RecordGroup.scan (← readRecords shell c))

/-- Replaces the records of the collection. -/
def writeRecords (records : List Record) : Op (State τ) Unit := do
  let _ ← send shell (c.modify records)

/-- The records of all keys but one. -/
def recordsExcept (groups : List RecordGroup) (key : String) : List Record :=
  (groups.filter (·.key != key)).flatMap (·.records)

/-- The value of a group. -/
def valueOf (z : Compression) (g : RecordGroup) : Op (State τ) Json :=
  Op.ofExcept (Record.load z g.records g.key g.offset)

end ApplianceStore

open ApplianceStore in
/-- The store in a collection that is reached through a shell. -/
def Store.appliance {τ : Type} (z : Compression) (shell : Shell τ) (c : Collection) :
    Store (ApplianceStore.State τ) where
  name := "appliance"
  keys := do
    return ((← readGroups shell c).map (·.key)).eraseDups
  has key := do
    checkKey key
    return (← readGroups shell c).any (·.key == key)
  get key := do
    checkKey key
    match (← readGroups shell c).find? (·.key == key) with
    | none => pure none
    | some g => return some (← valueOf z g)
  set key value := do
    checkKey key
    let groups ← readGroups shell c
    writeRecords shell c (recordsExcept groups key ++ Record.pack z key value 0)
  delete key := do
    checkKey key
    let groups ← readGroups shell c
    if groups.any (·.key == key) then
      writeRecords shell c (recordsExcept groups key)
      pure true
    else pure false
  persist := do
    provision shell c
    let _ ← send shell save

end Stencil
