import Stencil.Files.Replace

/-!
# Writing for good when the system fails

Every step of replacing a file may fail for reasons that lie outside: the disk is full, a right is
taken away. An `Outage` says where that happens. What was done by then stays done: directories that
were made, and the file beside the one to be replaced with what was written into it.
-/

namespace Stencil

/-- A step of replacing a file. -/
inductive WriteStep where
  /-- Making the directory so many steps above the one that the file lies in. -/
  | makeDirectory (above : Nat)
  | create
  /-- Writing; so many bytes are written before it fails. -/
  | write (count : Nat)
  | sync
  | rename
deriving DecidableEq, Repr

/-- A step that fails, and what the system says. -/
structure Outage where
  step : WriteStep
  reason : IoFault
deriving DecidableEq, Repr

namespace Files

variable {σ : Type} [FileSystem σ]

/-- The directory so many steps above a path. -/
def ancestor? : Nat → String → Option String
  | 0, path => some path
  | n + 1, path => (Path.parent? path).bind (ancestor? n)

/-- Makes the directories above one. -/
def makeDirectoriesAbove (fs : σ) (directory : String) : Except IoFault Unit × σ :=
  match Path.parent? directory with
  | none => (.ok (), fs)
  | some parent => makeDirectories (parent.length + 1) fs parent

/-- Sees to it that a path is a directory, as far as the system allows. If one of the directories that
have to be made cannot be made, the ones above it are. -/
def ensureDirectoryIn (outage : Option Outage) (path : String) : Op σ Unit := do
  let fs ← get
  match outage with
  | some ⟨.makeDirectory above, reason⟩ =>
    match ancestor? above path with
    | none => ensureDirectory path
    | some directory =>
      if FileSystem.existsAt fs path || FileSystem.existsAt fs directory || directory.isEmpty then
        ensureDirectory path
      else
        let (r, fs) := makeDirectoriesAbove fs directory
        set fs
        let e := match r with
          | .ok () => reason
          | .error e => e
        throw (.context ("Failed to create directory: " ++ path) (.io e))
  | _ => ensureDirectory path

/-- Fails if it is this step that the system does not let happen. -/
def unlessOut (outage : Option Outage) (step : WriteStep) (context : String) : Op σ Unit :=
  match outage with
  | some o => if o.step = step then throw (.context context (.io o.reason)) else pure ()
  | none => pure ()

/-- Writes the bytes of the file that was opened, as far as the system allows. -/
def writeIn (outage : Option Outage) (h : FileSystem.Handle σ) (path : String)
    (bytes : List UInt8) : Op σ Unit :=
  match outage with
  | some ⟨.write count, reason⟩ => do
    modify fun fs => FileSystem.write fs h (bytes.take count)
    throw (.context ("Failed to write to temp file: " ++ path) (.io reason))
  | _ => modify fun fs => FileSystem.write fs h bytes

/-- Sees to it that there is the directory that a path lies in, as far as the system allows. -/
def ensureParentIn (outage : Option Outage) (path : String) : Op σ Unit :=
  match Path.parent? path with
  | some directory => if directory.isEmpty then pure () else ensureDirectoryIn outage directory
  | none => pure ()

/-- Replaces a file in one step, as far as the system allows. -/
def replaceIn (outage : Option Outage) (path : String) (bytes : List UInt8) : Op σ Unit := do
  ensureParentIn outage path
  unlessOut outage .create ("Failed to create temp file: " ++ temporaryPath path)
  let h ← createTemporary (temporaryPath path)
  writeIn outage h (temporaryPath path) bytes
  unlessOut outage .sync "Failed to sync file to disk"
  unlessOut outage .rename ("Failed to rename temp file to: " ++ path)
  moveInto (temporaryPath path) path

end Files

end Stencil
