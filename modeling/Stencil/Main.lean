import Stencil.Catalog.Examples
import Stencil.Cli.Run

/-!
# The program

Reads what a run needs, lets it run, and writes down what it changed. The settings, the parameters
and the file of the store are those of the system; the folder holds the sets that come with the
program.
-/

namespace Stencil.Program

open Stencil.Cli

/-- Takes a file of the system into the files of a run; one that does not read stays out. -/
def take (fs : Files) (path : String) : IO Files := do
  try
    let bytes ← IO.FS.readBinFile path
    return ((Files.replace path bytes.toList).run.run fs).2
  catch _ => return fs

/-- The sets that come with the program, in a folder. -/
def installed (fs : Files) (folder : String) : Files :=
  Examples.files.foldl (fun fs (path, text) =>
    ((Files.replace (Path.join folder path) (Text.bytes text)).run.run fs).2) fs

/-- The files named by what is asked for. -/
def inputs : Request → List String
  | .validate _ params _ _ => params.toList
  | .render _ params _ _ _ _ => params.toList
  | _ => []

/-- Two digits of base sixteen for each byte. -/
def hexText (bytes : List UInt8) : String :=
  let digit (n : Nat) : Char := Char.ofNat (if n < 10 then 48 + n else 87 + n)
  String.ofList (bytes.flatMap fun b => [digit (b.toNat / 16), digit (b.toNat % 16)])

/-- A random identifier of version 4. -/
def identifier (bytes : List UInt8) : String :=
  let marked := bytes.mapIdx fun i b =>
    if i = 6 then b % 16 + 64 else if i = 8 then b % 64 + 128 else b
  let piece (start size : Nat) : String := hexText ((marked.drop start).take size)
  Text.joinWith "-" [piece 0 4, piece 4 2, piece 6 2, piece 8 2, piece 10 6]

/-- Writes a file of a run into the system. -/
def store (file : Place × List UInt8) : IO Unit := do
  let path (p : Place) : String := "/" ++ Text.joinWith "/" p
  IO.FS.createDirAll (path file.1.dropLast)
  IO.FS.writeBinFile (path file.1) ⟨file.2.toArray⟩

/-- The files that a run begins with. -/
def prepare (i : Invocation) (home : String) (environment : Option String) : IO Files := do
  let start : Files := ⟨[], Path.names (← IO.currentDir).toString⟩
  let named := i.settings.toList ++ environment.toList ++ [Settings.defaultPath home]
  let fs ← named.foldlM take start
  match Settings.find fs home i.settings environment with
  | .error _ => return fs
  | .ok s =>
    let fs ← (s.store.path :: inputs i.request).foldlM take fs
    return installed fs (i.templates.getD s.templates)

/-- Lets the program run. -/
def run (i : Invocation) : IO UInt32 := do
  let home := (← IO.getEnv "HOME").getD "/"
  let environment ← IO.getEnv "DECLKIT_CONFIG"
  let fs ← prepare i home environment
  let terminal ← (← IO.getStdout).isTty
  let plain ← IO.getEnv "NO_COLOR"
  let input ← if (inputs i.request).any Bench.isInput then (← IO.getStdin).readBinToEnd else pure .empty
  let surroundings : Surroundings := {
    home
    settings := environment
    color := terminal && plain.isNone
    input := input.toList
    fresh := identifier (← IO.getRandomBytes 16).toList }
  let o := i.run surroundings fs
  (Files.changed fs o.files).forM store
  IO.print o.printed
  match o.fault with
  | none => return 0
  | some f =>
    IO.eprint (f.report.screen surroundings.color)
    return 1

/-- How the program is called. -/
def usage : String := "Usage: declkit [OPTIONS] <COMMAND>\n\nCommands: " ++
  Text.joinWith ", " (Invocation.commands.map (·.1)) ++ "\n"

end Stencil.Program

def main (args : List String) : IO UInt32 := do
  match Stencil.Cli.Invocation.read args with
  | .ok i => Stencil.Program.run i
  | .error .help =>
    IO.print Stencil.Program.usage
    return 0
  | .error .version =>
    IO.println "declkit 0.3.2"
    return 0
  | .error _ =>
    IO.eprint Stencil.Program.usage
    return 2
