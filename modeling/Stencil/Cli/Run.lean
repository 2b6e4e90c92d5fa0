import Stencil.Cli.Commands
import Stencil.Cli.LogFilter
import Stencil.Host.Shell
import Stencil.Settings.Reading

/-!
# Runs of the program

A run reads its arguments and the settings, opens the folder and the store that the settings name,
and does what is asked for. Only files outlive a run.
-/

namespace Stencil.Cli

/-- What surrounds a run. -/
structure Surroundings where
  /-- The home directory. -/
  home : String
  /-- The settings file that the environment names. -/
  settings : Option String
  color : Bool
  input : List UInt8
  /-- An identifier that nothing has yet. -/
  fresh : String

/-- What a run leaves behind. -/
structure Outcome where
  files : Files
  printed : String
  fault : Option Fault

namespace Invocation

/-- The settings of a run. -/
def settingsIn (i : Invocation) (w : Surroundings) (fs : Files) : Except Fault Settings := do
  let s ← Settings.find fs w.home i.settings w.settings
  return match i.templates with
    | some path => { s with templates := path }
    | none => s

end Invocation

/-- The store that the settings name. -/
def storeOf (s : StoreSettings) : Store (Session Unit) :=
  match s.kind with
  | .memory => Session.memoryStore
  | .file => Session.fileStore s.path
  | .appliance =>
    let shell : HostShell := ⟨s.shell, s.shellArguments, s.timeout * 1000⟩
    Session.applianceStore zlib Session.filesPart shell.run s.collection

/-- What a command works with under some settings. -/
def Bench.open (s : Settings) (w : Surroundings) : Bench where
  folder := (Session.folderCatalog ⟨s.templates, none⟩).lift Console.sessionPart
  sets := ⟨(storeOf s.store).lift Console.sessionPart, Console.sessionPart.comp Session.storedPart, s.known⟩
  color := w.color
  input := w.input
  fresh := w.fresh

/-- Does what the command line asks for. -/
def Invocation.run (i : Invocation) (w : Surroundings) (fs : Files) : Outcome :=
  match i.settingsIn w fs with
  | .error e => ⟨fs, "", some e⟩
  | .ok s =>
    let console : Console := ⟨Session.start fs () s.cacheLimit s.cacheLimit, ""⟩
    match ((Bench.open s w).perform i.request).run.run console with
    | (.ok (), c) => ⟨c.session.files, c.printed, none⟩
    | (.error e, c) => ⟨c.session.files, c.printed, some e⟩

end Stencil.Cli
