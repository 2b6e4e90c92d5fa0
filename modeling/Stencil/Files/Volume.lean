import Stencil.Files.Replace

/-!
# Files with links

A `Volume` is a file system in which a file may have several names, and a name may stand for a path. Each
name is that of a directory or of a node. A node is a file with its bytes, or a symbolic link with the path
that it stands for; names of the same node are hard links. `Volume.walk` follows the links that it meets,
as many as the system allows. To make a directory and to rename do not follow the last name of a path, to
open a file does. Rights and full disks are no part of a volume: where the system refuses a step for such a
reason, that is an `Outage`.
-/

namespace Stencil

/-- What a name is the name of. -/
inductive Slot where
  | directory
  | node (n : Nat)
deriving DecidableEq, Repr

/-- A file with its bytes, or a symbolic link with its path. -/
inductive Node where
  | file (bytes : List UInt8)
  | link (target : String)
deriving DecidableEq, Repr

/-- The path of a link. -/
def Node.target? : Node → Option String
  | .file _ => none
  | .link target => some target

/-- A file system with links, and its current directory. -/
structure Volume where
  /-- What there is at each place. -/
  slots : Place → Option Slot
  nodes : Nat → Node
  current : Place
  /-- The first node that has no name yet, nor has any after it. -/
  next : Nat
  fresh : ∀ p n, slots p = some (.node n) → n < next

namespace Volume

open Files (endsInSlash)

/-- The volume with the same files, each of which has one name. -/
def ofFiles (fs : Files) : Volume where
  slots p :=
    match fs.at? p with
    | none => none
    | some .directory => some .directory
    | some (.file _) => some (.node (fs.entries.findIdx (·.1 == p)))
  nodes n :=
    match fs.entries[n]? with
    | some (_, .file bytes) => .file bytes
    | _ => .file []
  current := fs.current
  next := fs.entries.length
  fresh p n h := by
    split at h
    · cases h
    · cases h
    · rename_i bytes hat
      obtain rfl := Slot.node.inj (Option.some.inj h)
      rw [Files.at?] at hat
      split at hat
      · cases hat
      · obtain ⟨l₁, l₂, hl, -⟩ := List.lookup_eq_some_iff.1 hat
        exact List.findIdx_lt_length_of_exists ⟨(p, .file bytes), by rw [hl]; simp, by simp⟩

/-- The links that are followed on the way of one path. -/
def linkLimit : Nat := 40

def tooManyLinks : IoFault := .other "Too many levels of symbolic links (os error 40)"

/-- The path of the link at a place. -/
def link? (v : Volume) (p : Place) : Option String :=
  match v.slots p with
  | some (.node n) => (v.nodes n).target?
  | _ => none

/-- Where the path of a link in a directory starts. -/
def startIn (p : Place) (target : String) : Place := if Path.isAbsolute target then [] else p

/-- The names of the path of a link. A slash at its end asks for a directory, as the name `.` does. -/
def namesOf (target : String) : List String :=
  Path.names target ++ if endsInSlash target then ["."] else []

/-- A step along a name. -/
def step (v : Volume) (p : Place) (name : String) : Except IoFault Place :=
  match v.slots p with
  | none => .error .missing
  | some (.node _) => .error .notDirectory
  | some .directory =>
    if name = "." then .ok p
    else if name = ".." then .ok p.dropLast
    else if 255 < name.utf8ByteSize then .error .nameTooLong
    else .ok (p ++ [name])

/-- Walks along names; `follow` goes on behind a link. -/
def walkBy (v : Volume) (follow : Place → List String → Except IoFault Place) :
    Place → List String → Except IoFault Place
  | p, [] => .ok p
  | p, name :: rest =>
    match v.step p name with
    | .error e => .error e
    | .ok q =>
      match v.link? q with
      | none => walkBy v follow q rest
      | some target =>
        if target.isEmpty then .error .missing
        else follow (startIn q.dropLast target) (namesOf target ++ rest)

/-- Walks along names and follows so many links. -/
def walk (v : Volume) : Nat → Place → List String → Except IoFault Place
  | 0 => v.walkBy fun _ _ => .error tooManyLinks
  | limit + 1 => v.walkBy (v.walk limit)

/-- Where a path starts. -/
def start (v : Volume) (path : String) : Place := startIn v.current path

/-- What a path that the system takes at all leads to. -/
def within (path : String) (place : Except IoFault Place) : Except IoFault Place :=
  if path.isEmpty then .error .missing
  else if path.toList.contains '\x00' then .error .badName
  else if 4096 ≤ path.utf8ByteSize then .error .nameTooLong
  else place

/-- The place that a path leads to. -/
def placeOf (v : Volume) (path : String) : Except IoFault Place :=
  within path (v.walk linkLimit (v.start path) (Path.names path))

/-- The place of the last name of a path. If it is a link, it is not followed. -/
def entryOf (v : Volume) (path : String) : Except IoFault Place :=
  within path <|
    match (Path.names path).getLast? with
    | none => .ok (v.start path)
    | some name =>
      match v.walk linkLimit (v.start path) (Path.names path).dropLast with
      | .error e => .error e
      | .ok p => v.step p name

/-- There is no file or link at the place of a path with a slash behind it. -/
def unlessSlash (v : Volume) (path : String) : Except IoFault Place → Except IoFault Place
  | .error e => .error e
  | .ok p =>
    match v.slots p with
    | some (.node _) => if endsInSlash path then .error .notDirectory else .ok p
    | _ => .ok p

/-- What a path leads to. -/
def lookup (v : Volume) (path : String) : Except IoFault Slot :=
  match v.unlessSlash path (v.placeOf path) with
  | .error e => .error e
  | .ok p =>
    match v.slots p with
    | some s => .ok s
    | none => .error .missing

/-- The path leads to something. -/
def existsAt (v : Volume) (path : String) : Bool :=
  match v.lookup path with
  | .ok _ => true
  | .error _ => false

/-- The path leads to a directory. -/
def isDirectory (v : Volume) (path : String) : Bool :=
  match v.lookup path with
  | .ok .directory => true
  | _ => false

/-- The bytes of a file. -/
def readBytes (v : Volume) (path : String) : Except IoFault (List UInt8) :=
  match v.lookup path with
  | .error e => .error e
  | .ok .directory => .error .isDirectory
  | .ok (.node n) =>
    match v.nodes n with
    | .file bytes => .ok bytes
    | .link _ => .error tooManyLinks

/-! ### Changes -/

/-- Makes one directory. -/
def makeDirectory (v : Volume) (path : String) : Except IoFault Volume :=
  match v.unlessSlash path (v.entryOf path) with
  | .error e => .error e
  | .ok p =>
    match v.slots p with
    | some _ => .error .exists
    | none => .ok { v with
        slots := fun q => if q = p then some .directory else v.slots q
        fresh := fun q n h => by
          split at h
          · cases h
          · exact v.fresh q n h }

/-- Writes the bytes of a file. -/
def write (v : Volume) (n : Nat) (bytes : List UInt8) : Volume :=
  { v with nodes := fun m => if m = n then .file bytes else v.nodes m }

/-- Gives a place a new and empty file. -/
def add (v : Volume) (p : Place) : Volume where
  slots := fun q => if q = p then some (.node v.next) else v.slots q
  nodes := fun m => if m = v.next then .file [] else v.nodes m
  current := v.current
  next := v.next + 1
  fresh q n h := by
    split at h
    · cases h
      exact Nat.lt_succ_self _
    · exact Nat.lt_succ_of_lt (v.fresh q n h)

/-- Opens a file for writing: it is there afterwards, and empty. -/
def create (v : Volume) (path : String) : Except IoFault (Nat × Volume) :=
  match v.placeOf path with
  | .error e => .error e
  | .ok p =>
    match v.slots p with
    | some .directory => .error .isDirectory
    | some (.node n) => if endsInSlash path then .error .isDirectory else .ok (n, v.write n [])
    | none => if endsInSlash path then .error .isDirectory else .ok (v.next, v.add p)

/-- Takes what is at a place to another one. -/
def move (v : Volume) (p q : Place) : Volume :=
  { v with
    slots := fun r => if r = q then v.slots p else if r = p then none else v.slots r
    fresh := fun r n h => by
      split at h
      · exact v.fresh p n h
      · split at h
        · cases h
        · exact v.fresh r n h }

/-- Gives a file or a link another name; one of that name is replaced, unless it is the same. -/
def rename (v : Volume) (source target : String) : Except IoFault Volume :=
  match v.unlessSlash source (v.entryOf source), v.unlessSlash target (v.entryOf target) with
  | .error e, _ => .error e
  | .ok _, .error e => .error e
  | .ok p, .ok q =>
    match v.slots p with
    | none => .error .missing
    | some .directory => .error .notDirectory
    | some (.node n) =>
      if endsInSlash target then .error .notDirectory
      else if v.slots q = some .directory then .error .isDirectory
      else if v.slots q = some (.node n) then .ok v
      else .ok (v.move p q)

end Volume

instance : FileSystem Volume where
  Handle := Nat
  existsAt := Volume.existsAt
  isDirectory := Volume.isDirectory
  makeDirectory := Volume.makeDirectory
  create := Volume.create
  write := Volume.write
  rename := Volume.rename

end Stencil
