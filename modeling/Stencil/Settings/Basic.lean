import Stencil.Cache.Basic
import Stencil.Fault
import Stencil.Files.Path
import Stencil.Store.Appliance
import Stencil.Template.Bundle

/-!
# Settings

The settings say where the template sets are, how many compiled templates are kept, where sets are
stored, and which hashes are known besides those known from the start. All of them have defaults.
-/

namespace Stencil

/-- The kinds of stores. -/
inductive StoreKind where
  | memory | file | appliance
deriving DecidableEq, Repr

namespace StoreKind

def name : StoreKind → String
  | .memory => "memory"
  | .file => "file"
  | .appliance => "appliance"

/-- All kinds. -/
def all : List StoreKind := [.memory, .file, .appliance]

/-- The kind of a name. -/
def ofName? (name : String) : Option StoreKind := all.find? fun k => k.name == name

end StoreKind

/-- The settings of the store. -/
structure StoreSettings where
  kind : StoreKind
  /-- The file of a store in a file. -/
  path : String
  /-- The collection of a store on an appliance. -/
  collection : Collection
  /-- The program that commands of the appliance are given to, with its arguments. -/
  shell : String
  shellArguments : List String
  /-- How many seconds a command may take. -/
  timeout : Nat
deriving DecidableEq, Repr

/-- The settings. -/
structure Settings where
  /-- How many compiled templates each catalog keeps. -/
  cacheLimit : Nat
  /-- The folder of the template sets. -/
  templates : String
  store : StoreSettings
  /-- The hashes of each set that are known in addition. -/
  hashes : NameMap (List String)
deriving DecidableEq, Repr

/-- The directory of the program's own files below a home directory. -/
def Settings.directory (home : String) : String := Path.join home ".declkit"

/-- The default settings of the store. -/
def StoreSettings.default (home : String) : StoreSettings :=
  { kind := .file
    path := Path.join (Settings.directory home) "store.json"
    collection := ⟨"declkit", "dataStore"⟩
    shell := "tmsh"
    shellArguments := []
    timeout := 60 }

namespace Settings

/-- The default settings. -/
def default (home : String) : Settings :=
  ⟨Cache.defaultLimit, "templates", StoreSettings.default home, []⟩

/-- What is wrong with settings that nothing can work with. -/
def problem? (s : Settings) : Option String :=
  if s.cacheLimit = 0 then some "cache_limit must be at least 1"
  else if s.store.timeout = 0 then some "store.command_timeout_secs must be at least 1"
  else if s.store.kind = .appliance ∧ (s.store.collection.folder = "" ∨ s.store.collection.name = "") then
    some "store.namespace and store.collection are required for the appliance store"
  else if s.store.kind = .file ∧ s.store.path = "" then some "store.path is required for the file store"
  else none

/-- The settings, if they can be worked with. -/
def checked (s : Settings) : Except Fault Settings :=
  match s.problem? with
  | some message => .error (.problem (.badSettings message))
  | none => .ok s

/-- The hashes known from the start, and those of the settings. -/
def known (s : Settings) : KnownHashes :=
  s.hashes.foldl (fun k (name, hashes) => k.extend name hashes) KnownHashes.builtin

end Settings

end Stencil
