import Stencil.Files.Path
import Stencil.Fault
import Stencil.NameMap
import Stencil.Text.Utf8

/-!
# Files

A file system is a list of places with what is there: a directory, or a file with its bytes. A place
is the list of names that lead to it from the root. `Files.resolve` finds the place of a path, and
fails where the system would: on the way there has to be a directory at each step. There are no links; a
`Volume` is a file system that has them.
-/

namespace Stencil

/-- Where something is: the names that lead to it. -/
abbrev Place := List String

/-- What is at a place. -/
inductive Entry where
  | directory
  | file (bytes : List UInt8)
deriving DecidableEq, Repr

/-- A file system with a current directory. -/
structure Files where
  /-- What there is besides the root and the current directory, each place once. -/
  entries : List (Place × Entry)
  current : Place
deriving Inhabited

namespace Files

/-- An empty directory, the current one, and nothing else. -/
def empty : Files := ⟨[], ["work"]⟩

/-- What is at a place. -/
def at? (fs : Files) (p : Place) : Option Entry :=
  if p.isPrefixOf fs.current then some .directory else fs.entries.lookup p

/-- Puts something at a place. -/
def put (fs : Files) (p : Place) (e : Entry) : Files :=
  if fs.entries.any (·.1 == p) then
    { fs with entries := fs.entries.map fun x => if x.1 == p then (p, e) else x }
  else { fs with entries := fs.entries ++ [(p, e)] }

/-- Takes away what is at a place and below it. -/
def remove (fs : Files) (p : Place) : Files :=
  { fs with entries := fs.entries.filter fun x => !p.isPrefixOf x.1 }

/-- The name of a place in a directory. -/
def nameIn (p q : Place) : Option String :=
  if q.dropLast == p && !q.isEmpty then q.getLast? else none

/-- The names in a directory, in order. -/
def namesIn (fs : Files) (p : Place) : NameSet :=
  NameSet.ofList (fs.entries.filterMap fun x => nameIn p x.1)

/-- Walks along names. -/
def walk (fs : Files) : Place → List String → Except IoFault Place
  | p, [] => .ok p
  | p, name :: rest =>
    match fs.at? p with
    | none => .error .missing
    | some (.file _) => .error .notDirectory
    | some .directory =>
      if name = "." then walk fs p rest
      else if name = ".." then walk fs p.dropLast rest
      else if 255 < name.utf8ByteSize then .error .nameTooLong
      else walk fs (p ++ [name]) rest

/-- The path can only be that of a directory, since it ends in a slash. -/
def endsInSlash (path : String) : Bool := path.toList.getLast? == some '/'

/-- The place that the names of a path lead to. -/
def placeOf (fs : Files) (path : String) : Except IoFault Place :=
  if path.isEmpty then .error .missing
  else if path.toList.contains '\x00' then .error .badName
  else if 4096 ≤ path.utf8ByteSize then .error .nameTooLong
  else fs.walk (if Path.isAbsolute path then [] else fs.current) (Path.names path)

/-- The place of a path. There need not be anything, but there has to be a directory before it, and
no file with a slash behind it. -/
def resolve (fs : Files) (path : String) : Except IoFault Place :=
  match fs.placeOf path with
  | .error e => .error e
  | .ok p =>
    match fs.at? p with
    | some (.file _) => if endsInSlash path then .error .notDirectory else .ok p
    | _ => .ok p

/-- What a path leads to. -/
def lookup (fs : Files) (path : String) : Except IoFault Entry :=
  match fs.resolve path with
  | .error e => .error e
  | .ok p =>
    match fs.at? p with
    | some e => .ok e
    | none => .error .missing

/-- The path leads to something. -/
def existsAt (fs : Files) (path : String) : Bool :=
  match fs.lookup path with
  | .ok _ => true
  | .error _ => false

/-- The path leads to a directory. -/
def isDirectory (fs : Files) (path : String) : Bool :=
  match fs.lookup path with
  | .ok .directory => true
  | _ => false

/-- The path leads to a file. -/
def isFile (fs : Files) (path : String) : Bool :=
  match fs.lookup path with
  | .ok (.file _) => true
  | _ => false

/-- The bytes of a file. -/
def readBytes (fs : Files) (path : String) : Except IoFault (List UInt8) :=
  match fs.lookup path with
  | .error e => .error e
  | .ok .directory => .error .isDirectory
  | .ok (.file bytes) => .ok bytes

/-- The text of a file. -/
def readText (fs : Files) (path : String) : Except IoFault String :=
  match fs.readBytes path with
  | .error e => .error e
  | .ok bytes =>
    match Text.ofBytes? bytes with
    | some text => .ok text
    | none => .error .notText

/-- The names in a directory, in order, with what they stand for. -/
def readDirectory (fs : Files) (path : String) : Except IoFault (List (String × Entry)) :=
  match fs.resolve path with
  | .error e => .error e
  | .ok p =>
    match fs.at? p with
    | none => .error .missing
    | some (.file _) => .error .notDirectory
    | some .directory => .ok ((fs.namesIn p).filterMap fun n => (fs.at? (p ++ [n])).map (n, ·))

/-! ### Changes -/

/-- Makes one directory. -/
def makeDirectory (fs : Files) (path : String) : Except IoFault Files :=
  match fs.resolve path with
  | .error e => .error e
  | .ok p =>
    match fs.at? p with
    | some _ => .error .exists
    | none => .ok (fs.put p .directory)

/-- Opens a file for writing: it is there afterwards, and empty. -/
def create (fs : Files) (path : String) : Except IoFault (Place × Files) :=
  match fs.placeOf path with
  | .error e => .error e
  | .ok p =>
    match fs.at? p with
    | some .directory => .error .isDirectory
    | _ => if endsInSlash path then .error .isDirectory else .ok (p, fs.put p (.file []))

/-- Gives a file another name; a file of that name is replaced. -/
def rename (fs : Files) (source target : String) : Except IoFault Files :=
  match fs.resolve source, fs.resolve target with
  | .error e, _ => .error e
  | .ok _, .error e => .error e
  | .ok p, .ok q =>
    match fs.at? p, fs.at? q with
    | none, _ => .error .missing
    | some .directory, _ => .error .notDirectory
    | some (.file bytes), e =>
      if endsInSlash target then .error .notDirectory
      else if e = some .directory then .error .isDirectory
      else if p = q then .ok fs
      else .ok ((fs.remove p).put q (.file bytes))

/-- The files that are new or have other bytes than before. -/
def changed (before after : Files) : List (Place × List UInt8) :=
  after.entries.filterMap fun (p, e) =>
    match e with
    | .file bytes => if before.at? p = some e then none else some (p, bytes)
    | .directory => none

end Files

end Stencil
