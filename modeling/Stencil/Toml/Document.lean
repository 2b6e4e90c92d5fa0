import Stencil.NameMap
import Stencil.Toml.Scalar

/-!
# TOML documents

A document is a table of values. Headers and dotted keys may fill a table piece by piece, but a
table is opened by one header at most, a table that a header opened cannot be filled by dotted keys
from elsewhere, a table written within a line is closed for good, and no name occurs twice. The kind
of a table tells how it came about, so `Table.within` and `Table.place` can see to that.
-/

namespace Stencil.Toml

/-- How a table came about. -/
inductive TableKind where
  /-- Opened by a header, or the document as a whole. -/
  | opened
  /-- On the way to a table that a header opened. -/
  | passed
  /-- On the way of a dotted key. -/
  | dotted
  /-- Written within a line. -/
  | inline
deriving DecidableEq, Repr

/-- A value; every value within another one has its stretch of the text, a member that of its name
as well. -/
inductive Value where
  | scalar (s : Scalar)
  /-- An array, or what headers of an array of tables have filled. -/
  | array (ofTables : Bool) (items : List (Span × Value))
  | table (kind : TableKind) (members : List (String × Span × Span × Value))

/-- A member of a table: the stretch of its name, and its value with its stretch. -/
abbrev Member := Span × Span × Value

/-- The members of a table by their names. -/
abbrev Table := NameMap Member

/-- A name with its stretch. -/
structure Key where
  name : String
  span : Span
deriving DecidableEq, Repr

/-- The name of the type of a value. -/
def Value.typeName : Value → String
  | .scalar (.text _) => "string"
  | .scalar (.integer _) => "integer"
  | .scalar (.real _) => "float"
  | .scalar (.boolean _) => "boolean"
  | .scalar .moment => "datetime"
  | .array _ _ => "array"
  | .table .inline _ => "inline table"
  | .table _ _ => "table"

/-- The flaw that a name is taken. -/
def duplicate (key : Key) : Flaw := ⟨"duplicate key", key.span⟩

/-- The flaw that a name on the way stands for no table. -/
def notTable (key : Key) (v : Value) : Flaw :=
  ⟨"cannot extend value of type " ++ v.typeName ++ " with a dotted key", key.span⟩

namespace Table

/-- Puts a value under a new name. -/
def place (t : Table) (key : Key) (span : Span) (v : Value) : Except Flaw Table :=
  if NameMap.has t key.name then .error (duplicate key)
  else .ok (NameMap.insert t key.name (key.span, span, v))

/-- Changes the last table of an array. -/
def inLast (f : TableKind → Table → Except Flaw (TableKind × Table)) :
    List (Span × Value) → Except Flaw (List (Span × Value))
  | [] => .ok []
  | [(span, .table kind ms)] => (f kind ms).map fun (kind, ms) => [(span, .table kind ms)]
  | i :: rest => (inLast f rest).map (i :: ·)

/-- Changes the table that a path leads to; tables that are missing on the way are made. With
`byKey` the path belongs to a dotted key, else to a header. -/
def within (byKey : Bool) (f : TableKind → Table → Except Flaw (TableKind × Table)) :
    List Key → TableKind → Table → Except Flaw (TableKind × Table)
  | [], kind, t => f kind t
  | key :: path, kind, t =>
    let put (span : Span) (v : Value) : TableKind × Table :=
      (kind, NameMap.insert t key.name (((NameMap.get? t key.name).map (·.1)).getD key.span, span, v))
    match NameMap.get? t key.name with
    | none =>
      (within byKey f path (if byKey then .dotted else .passed) []).map fun (kind, ms) =>
        put key.span (.table kind ms)
    | some (_, span, .array true items) =>
      (inLast (within byKey f path) items).map fun items => put span (.array true items)
    | some (_, _, .table .inline ms) => .error (notTable key (.table .inline ms))
    | some (_, span, .table inner ms) =>
      if byKey && inner == .opened then .error (duplicate key)
      else (within byKey f path inner ms).map fun (kind, ms) => put span (.table kind ms)
    | some (_, _, v) => .error (notTable key v)

/-- Puts the value of an entry under its key, seen from a table. -/
def put (path : List Key) (key : Key) (span : Span) (v : Value) (kind : TableKind) (t : Table) :
    Except Flaw (TableKind × Table) :=
  within true (fun kind t =>
    if !path.isEmpty && kind != .dotted then .error (duplicate key)
    else (place t key span v).map fun t => (kind, t)) path kind t

/-- Opens the table of a header, seen from the table before the last name. -/
def openTable (key : Key) (span : Span) (kind : TableKind) (t : Table) : Except Flaw (TableKind × Table) :=
  match NameMap.get? t key.name with
  | none => .ok (kind, NameMap.insert t key.name (key.span, span, .table .opened []))
  | some (_, _, .table .passed ms) =>
    .ok (kind, NameMap.insert t key.name (key.span, span, .table .opened ms))
  | some _ => .error (duplicate key)

/-- Opens a further table of an array, seen from the table before the last name. -/
def openElement (key : Key) (span : Span) (kind : TableKind) (t : Table) : Except Flaw (TableKind × Table) :=
  match NameMap.get? t key.name with
  | none => .ok (kind, NameMap.insert t key.name (key.span, span, .array true [(span, .table .opened [])]))
  | some (keySpan, arraySpan, .array true items) =>
    .ok (kind, NameMap.insert t key.name
      (keySpan, arraySpan, .array true (items ++ [(span, .table .opened [])])))
  | some _ => .error (duplicate key)

end Table

/-- The names of a dotted key: those on the way, and the last one. -/
def namesOf (key : List Word) : Except Flaw (List Key × Key) := do
  let keys ← key.mapM fun w => do return (⟨← w.name, w.span⟩ : Key)
  match keys.getLast? with
  | some last => return (keys.dropLast, last)
  | none => return ([], ⟨"", ⟨0, 0⟩⟩)

mutual

/-- The value of an item, with its stretch. -/
def valueOf : Item → Except Flaw (Span × Value)
  | .word w => w.scalar.map fun s => (w.span, .scalar s)
  | .array span items => (valuesOf items).map fun vs => (span, .array false vs)
  | .table span entries => (membersOf entries .inline []).map fun ms => (span, .table .inline ms)

/-- The values of items. -/
def valuesOf : List Item → Except Flaw (List (Span × Value))
  | [] => .ok []
  | i :: rest =>
    match valueOf i with
    | .error e => .error e
    | .ok v => (valuesOf rest).map (v :: ·)

/-- The members of a table within a line that entries add to those there are. -/
def membersOf : List (List Word × Item) → TableKind → Table → Except Flaw Table
  | [], _, t => .ok t
  | (key, i) :: rest, kind, t =>
    match namesOf key with
    | .error e => .error e
    | .ok (path, last) =>
      match valueOf i with
      | .error e => .error e
      | .ok (span, v) =>
        match Table.put path last span v kind t with
        | .error e => .error e
        | .ok (kind, t) => membersOf rest kind t

end

/-- A document that is being built: its root, and the path of the table that entries go to. -/
structure Building where
  root : Table
  path : List Key

/-- Adds a statement. -/
def Building.add (b : Building) : Statement → Except Flaw Building
  | .header ofArray span key => do
    let (path, last) ← namesOf key
    let f := if ofArray then Table.openElement last span else Table.openTable last span
    let (_, root) ← Table.within false f path .opened b.root
    return ⟨root, path ++ [last]⟩
  | .entry key item => do
    let (path, last) ← namesOf key
    let (span, v) ← valueOf item
    let (_, root) ← Table.within false (Table.put path last span v) b.path .opened b.root
    return ⟨root, b.path⟩

/-- The document of a TOML text. -/
def document (source : String) : Except Flaw Table := do
  let b ← (← statements source).foldlM Building.add ⟨[], []⟩
  return b.root

/-! ### Messages -/

/-- The number of line feeds before an offset, and where the line of the offset begins. -/
def lineOf (offset : Nat) : Nat → Nat → Nat → List Char → Nat × Nat
  | _, line, start, [] => (line, start)
  | here, line, start, c :: rest =>
    if offset ≤ here then (line, start)
    else if c = '\n' then lineOf offset (here + 1) (line + 1) (here + 1) rest
    else lineOf offset (here + c.utf8Size) line start rest

/-- The column of an offset in a line: characters, or bytes if the offset is at a character that has
several of them. -/
def columnOf (offset : Nat) (line : List Char) : Nat :=
  let rec go (bytes count : Nat) : List Char → Nat
    | [] => count + (offset - bytes)
    | c :: rest =>
      if offset ≤ bytes then (if c.utf8Size = 1 then count else offset)
      else go (bytes + c.utf8Size) (count + 1) rest
  go 0 0 line

/-- A flaw as the user sees it, with the line where it is and a mark under it. -/
def Flaw.render (source : String) (f : Flaw) : String :=
  let cs := source.toList
  let total := source.utf8ByteSize
  -- behind the last character the position is counted from that character on
  let seen := min f.span.start (total - 1)
  let (line, start) := lineOf seen 0 0 0 cs
  let text := ((Text.splitAll '\n' cs)[line]?).getD []
  let column := columnOf (f.span.start - start) text
  let marked := min (f.span.stop - f.span.start) (byteLength text - column)
  let number := toString (line + 1)
  let gutter := String.ofList (List.replicate (number.length + 1) ' ') ++ "|"
  "TOML parse error at line " ++ number ++ ", column " ++ toString (column + 1) ++ "\n" ++
    gutter ++ "\n" ++ number ++ " | " ++ String.ofList text ++ "\n" ++
    gutter ++ String.ofList (List.replicate (column + 1) ' ') ++
    String.ofList (List.replicate (max marked 1) '^') ++ "\n" ++ f.message ++ "\n"

end Stencil.Toml
