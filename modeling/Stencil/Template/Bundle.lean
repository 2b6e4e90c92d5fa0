import Stencil.Binary.Sha256
import Stencil.Fault
import Stencil.NameMap
import Stencil.Text.Utf8

/-!
# Template sets as values

A `Bundle` is a set of templates together with the schema files that they refer to, and a hash of
both. A store keeps it as a JSON object; `Bundle.ofJson` reads one back.
-/

namespace Stencil

/-- A template set. -/
structure Bundle where
  name : String
  /-- The content hash that goes with the set; it need not be the hash of the content. -/
  hash : String
  /-- Template texts by their names within the set. -/
  templates : NameMap String
  /-- Schema texts by the names of the schema files. -/
  schemas : NameMap String
deriving DecidableEq, Repr

namespace Bundle

/-- One text with the line that names it. -/
def entryText (kind : String) (entry : String × String) : List Char :=
  kind.toList ++ ':' :: (entry.1.toList ++ '\n' :: (entry.2.toList ++ ['\n']))

/-- The text that is hashed: all templates and then all schema files. -/
def content (templates schemas : NameMap String) : List Char :=
  templates.flatMap (entryText "template") ++ schemas.flatMap (entryText "schema")

/-- The content hash of templates and schema files. -/
def contentHash (templates schemas : NameMap String) : String :=
  "sha256:" ++ String.ofList (Sha256.hex (Sha256.digest
    (Text.bytes (String.ofList (content templates schemas)))))

/-- The set of templates and schema files, with the hash of its content. -/
def build (name : String) (templates schemas : NameMap String) : Bundle :=
  ⟨name, contentHash templates schemas, templates, schemas⟩

/-- The hash is the hash of the content. -/
def verified (b : Bundle) : Bool := b.hash == contentHash b.templates b.schemas

/-- A map of texts as a JSON object. -/
def textsToJson (m : NameMap String) : Json := .obj (m.map fun (k, t) => (k, .str t))

/-- The set as a JSON value. -/
def toJson (b : Bundle) : Json :=
  .obj [("name", .str b.name), ("hash", .str b.hash), ("templates", textsToJson b.templates),
    ("schemas", textsToJson b.schemas)]

/-- The complaint about a value of the wrong type. -/
def wrongType (found : Json) (wanted : String) : String :=
  "invalid type: " ++ found.described ++ ", expected " ++ wanted

/-- Reads a text. -/
def readText : Json → Except String String
  | .str s => .ok s
  | j => .error (wrongType j "a string")

/-- Reads the texts of an object, in order. -/
def readEntries : Members → Except String (List (String × String))
  | [] => .ok []
  | (k, j) :: rest => do
    let t ← readText j
    let more ← readEntries rest
    .ok ((k, t) :: more)

/-- Reads a map of texts. -/
def readTexts : Json → Except String (NameMap String)
  | .obj ms => (readEntries ms).map NameMap.ofList
  | j => .error (wrongType j "a map")

/-- The fields that were read so far. -/
structure Fields where
  name : Option String
  hash : Option String
  templates : Option (NameMap String)
  schemas : Option (NameMap String)

/-- Reads one member; members of other names are passed over. -/
def Fields.read (f : Fields) : String × Json → Except String Fields
  | (key, j) =>
    if key = "name" then (readText j).map fun s => { f with name := some s }
    else if key = "hash" then (readText j).map fun s => { f with hash := some s }
    else if key = "templates" then (readTexts j).map fun m => { f with templates := some m }
    else if key = "schemas" then (readTexts j).map fun m => { f with schemas := some m }
    else .ok f

/-- The value of a field that must be there. -/
def required {α : Type} (name : String) : Option α → Except String α
  | some a => .ok a
  | none => .error ("missing field `" ++ name ++ "`")

/-- Reads the set from an object. -/
def readObject (ms : Members) : Except String Bundle := do
  let f ← ms.foldlM Fields.read ⟨none, none, none, none⟩
  let name ← required "name" f.name
  let hash ← required "hash" f.hash
  let templates ← required "templates" f.templates
  .ok ⟨name, hash, templates, f.schemas.getD []⟩

/-- The complaint about a list of the wrong length. -/
def wrongLength (length : Nat) (wanted : String) : String :=
  "invalid length " ++ toString length ++ ", expected " ++ wanted

/-- Reads the set from a list of its fields. -/
def readArray (items : List Json) : Except String Bundle := do
  let field (i : Nat) : Except String Json :=
    match items[i]? with
    | some j => .ok j
    | none => .error (wrongLength i "struct TemplateSetData with 4 elements")
  let name ← field 0 >>= readText
  let hash ← field 1 >>= readText
  let templates ← field 2 >>= readTexts
  let schemas ← match items[3]? with
    | some j => readTexts j
    | none => .ok []
  if 4 < items.length then .error (wrongLength items.length "fewer elements in array")
  else .ok ⟨name, hash, templates, schemas⟩

/-- Reads the set, or says what is wrong. -/
def read : Json → Except String Bundle
  | .obj ms => readObject ms
  | .arr items => readArray items
  | j => .error (wrongType j "struct TemplateSetData")

/-- Reads the set stored under a key. -/
def ofJson (key : String) (j : Json) : Except Fault Bundle :=
  match read j with
  | .ok b => .ok b
  | .error reason => .error (.problem (.corruptValue key ("not a template set: " ++ reason)))

end Bundle

/-- The hashes that count as supported, by the names of the sets. -/
structure KnownHashes where
  sets : NameMap NameSet
deriving DecidableEq, Repr

namespace KnownHashes

def empty : KnownHashes := ⟨[]⟩

/-- Accepts further hashes for a set. -/
def extend (k : KnownHashes) (name : String) (hashes : List String) : KnownHashes :=
  ⟨NameMap.insert k.sets name (hashes.foldl NameSet.insert ((NameMap.get? k.sets name).getD []))⟩

/-- The hash is accepted for the set. -/
def supports (k : KnownHashes) (name hash : String) : Bool :=
  ((NameMap.get? k.sets name).getD []).contains hash

/-- The hashes of the sets that come with the program. -/
def builtin : KnownHashes :=
  empty.extend "examples" ["sha256:6b4b329467cb266f8374d4d0fdcec193bdcf43d37b9c5083fd671035af6ad8cc"]

end KnownHashes

/-- What is known about a stored set. -/
structure SetStatus where
  name : String
  hash : String
  /-- Its hash is accepted. -/
  supported : Bool
  /-- The folder holds it with another hash. -/
  updateAvailable : Bool
deriving DecidableEq, Repr

end Stencil
