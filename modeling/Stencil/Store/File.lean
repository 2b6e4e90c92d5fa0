import Stencil.Files.Replace
import Stencil.Store.Basic

/-!
# A store in a file

All values are the members of one JSON object in one file. The file is read when it is first needed;
changes are made to the values in memory, and `persist` writes all of them back.
-/

namespace Stencil.Store

/-- The values that were read, once they were, and the files. -/
abbrev FileState := Option (NameMap Json) × Files

/-- Reads the values of a store file. A file that is missing or blank holds none. -/
def readItems (fs : Files) (path : String) : Except Fault (NameMap Json) :=
  match fs.readText path with
  | .error e =>
    if e.isMissing then .ok []
    else .error (.context ("Failed to read store file: " ++ path) (.io e))
  | .ok content =>
    if Text.isBlankText content then .ok []
    else
      match Json.parseObject content.toList with
      | .ok ms => .ok (NameMap.ofList ms)
      | .error e => .error (.context ("Store file is not a JSON object: " ++ path) (.json e))

/-- The values, read from the file unless they were before. -/
def loaded (path : String) : Op FileState (NameMap Json) := do
  let (items, fs) ← MonadState.get
  match items with
  | some m => pure m
  | none =>
    let m ← Op.ofExcept (readItems fs path)
    MonadState.set (some m, fs)
    pure m

/-- The bytes of the file that holds values. -/
def fileBytes (m : NameMap Json) : List UInt8 := Text.bytes (Json.obj m).pretty

/-- The store in the file of a path. -/
def file (path : String) : Store FileState where
  name := "file"
  keys := do return NameMap.names (← loaded path)
  has key := do
    Op.requireKey "key" key
    return NameMap.has (← loaded path) key
  get key := do
    Op.requireKey "key" key
    return NameMap.get? (← loaded path) key
  set key value := do
    Op.requireKey "key" key
    let m ← loaded path
    modify fun s => (some (NameMap.insert m key value), s.2)
  delete key := do
    Op.requireKey "key" key
    let m ← loaded path
    modify fun s => (some (NameMap.erase m key), s.2)
    return NameMap.has m key
  persist := do
    let m ← loaded path
    (Files.replace path (fileBytes m)).zoom Lens.snd

end Stencil.Store
