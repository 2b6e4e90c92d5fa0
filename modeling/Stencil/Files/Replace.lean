import Stencil.Files.Tree
import Stencil.Op

/-!
# Replacing a file

A file is replaced in one step: its new bytes go into a file beside it, which then takes its name. The
directory that it lies in is made first. All of this is done on any `FileSystem`; the one that runs is
`Files`.
-/

namespace Stencil

/-- What replacing a file asks of a file system. -/
class FileSystem (σ : Type) where
  /-- A file that was opened. -/
  Handle : Type
  /-- The path leads to something. -/
  existsAt (fs : σ) (path : String) : Bool
  /-- The path leads to a directory. -/
  isDirectory (fs : σ) (path : String) : Bool
  /-- Makes one directory. -/
  makeDirectory (fs : σ) (path : String) : Except IoFault σ
  /-- Opens a file for writing: it is there afterwards, and empty. -/
  create (fs : σ) (path : String) : Except IoFault (Handle × σ)
  /-- Writes the bytes of an opened file. -/
  write (fs : σ) (h : Handle) (bytes : List UInt8) : σ
  /-- Gives a file another name; a file of that name is replaced. -/
  rename (fs : σ) (source target : String) : Except IoFault σ

instance : FileSystem Files where
  Handle := Place
  existsAt := Files.existsAt
  isDirectory := Files.isDirectory
  makeDirectory := Files.makeDirectory
  create := Files.create
  write fs p bytes := fs.put p (.file bytes)
  rename := Files.rename

namespace Files

variable {σ : Type} [FileSystem σ]

/-- Makes a directory and those above it, at most as many as the fuel. Directories that were made are
kept if it fails further down. -/
def makeDirectories : Nat → σ → String → Except IoFault Unit × σ
  | 0, fs, _ => (.ok (), fs)
  | fuel + 1, fs, path =>
    if path.isEmpty then (.ok (), fs)
    else
      match FileSystem.makeDirectory fs path with
      | .ok fs => (.ok (), fs)
      | .error .missing =>
        match (Path.parent? path).map (makeDirectories fuel fs) with
        | none => (.error .missing, fs)
        | some (.error e, fs) => (.error e, fs)
        | some (.ok (), fs) =>
          match FileSystem.makeDirectory fs path with
          | .ok fs => (.ok (), fs)
          | .error e => (if FileSystem.isDirectory fs path then .ok () else .error e, fs)
      | .error e => (if FileSystem.isDirectory fs path then .ok () else .error e, fs)

/-- Sees to it that a path is a directory. -/
def ensureDirectory (path : String) : Op σ Unit := do
  let fs ← get
  if FileSystem.existsAt fs path then
    if !FileSystem.isDirectory fs path then
      throw (.plain ("Path exists but is not a directory: " ++ path))
  else
    let (r, fs) := makeDirectories (path.length + 1) fs path
    set fs
    match r with
    | .ok () => pure ()
    | .error e => throw (.context ("Failed to create directory: " ++ path) (.io e))

/-- Opens the file that is written before it takes its name. -/
def createTemporary (path : String) : Op σ (FileSystem.Handle σ) := do
  match FileSystem.create (← get) path with
  | .ok (h, fs) =>
    set fs
    pure h
  | .error e => throw (.context ("Failed to create temp file: " ++ path) (.io e))

/-- Renames the written file. -/
def moveInto (source target : String) : Op σ Unit := do
  match FileSystem.rename (← get) source target with
  | .ok fs => set fs
  | .error e => throw (.context ("Failed to rename temp file to: " ++ target) (.io e))

/-- The path that a file is written under before it takes its name. -/
def temporaryPath (path : String) : String := Path.withExtension path "tmp"

/-- Replaces a file in one step: the bytes go into a file beside it, which then takes its name. -/
def replace (path : String) (bytes : List UInt8) : Op σ Unit := do
  match Path.parent? path with
  | some directory => if !directory.isEmpty then ensureDirectory directory
  | none => pure ()
  let h ← createTemporary (temporaryPath path)
  modify fun fs => FileSystem.write fs h bytes
  moveInto (temporaryPath path) path

end Files

end Stencil
