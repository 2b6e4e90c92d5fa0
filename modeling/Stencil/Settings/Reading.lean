import Stencil.Files.Tree
import Stencil.Settings.Basic
import Stencil.Text.Quoted
import Stencil.Number.Shortest
import Stencil.Toml.Document

/-!
# Reading settings

A settings file is a TOML document whose members are the settings by name. A member of the wrong
type, and one that no setting has the name of, is a flaw; members are looked at in the order of
their names. The file is the one named on the command line, else the one named in the environment,
else the default one, and only the default one may be missing.
-/

namespace Stencil

namespace Toml

/-- The value as messages about its type name it. -/
def Value.described : Value → String
  | .scalar (.text s) => "string " ++ Text.quoted s
  | .scalar (.integer i) => "integer `" ++ toString (i.getD 0) ++ "`"
  | .scalar (.real (.finite x)) =>
    "floating point `" ++ String.ofList (DecimalStyle.pointedPlain.text x) ++ "`"
  | .scalar (.real (.infinite negative)) => "floating point `" ++ (if negative then "-inf" else "inf") ++ "`"
  | .scalar (.real _) => "floating point `NaN`"
  | .scalar (.boolean b) => "boolean `" ++ (if b then "true" else "false") ++ "`"
  | .scalar .moment => "map"
  | .array _ _ => "sequence"
  | .table _ _ => "map"

/-- The flaw of a value of the wrong type. -/
def wrongType (span : Span) (v : Value) (expected : String) : Flaw :=
  match v with
  | .scalar (.integer none) => ⟨"integer number overflowed", span⟩
  | .scalar (.integer (some i)) =>
    if i < -Int.pow 2 127 ∨ Int.pow 2 128 ≤ i then ⟨"integer number overflowed", span⟩
    else
      -- integers beyond 64 bits are named with the type that holds them
      let width := if i < -Int.pow 2 63 ∨ (Int.pow 2 64 ≤ i ∧ i < Int.pow 2 127) then " as i128"
        else if Int.pow 2 127 ≤ i then " as u128" else ""
      ⟨"invalid type: " ++ v.described ++ width ++ ", expected " ++ expected, span⟩
  | .scalar (.real .outOfRange) => ⟨"floating-point number overflowed", span⟩
  | _ => ⟨"invalid type: " ++ v.described ++ ", expected " ++ expected, span⟩

/-- A value as a natural number of 64 bits. -/
def natural (expected : String) (span : Span) (v : Value) : Except Flaw Nat :=
  match v with
  | .scalar (.integer (some i)) =>
    if 0 ≤ i ∧ i < Int.pow 2 64 then .ok i.toNat
    else if -Int.pow 2 63 ≤ i ∧ i < 0 then
      .error ⟨"invalid value: " ++ v.described ++ ", expected " ++ expected, span⟩
    else .error (wrongType span v expected)
  | _ => .error (wrongType span v expected)

/-- A value as a text. -/
def text (expected : String) (span : Span) (v : Value) : Except Flaw String :=
  match v with
  | .scalar (.text s) => .ok s
  | _ => .error (wrongType span v expected)

/-- A value as a list of texts. -/
def texts (span : Span) (v : Value) : Except Flaw (List String) :=
  match v with
  | .array _ items => items.mapM fun (span, v) => text "a string" span v
  | _ => .error (wrongType span v "a sequence")

/-- The flaw of a name that is none of those expected. -/
def unknown (what : String) (span : Span) (name : String) (expected : List String) : Flaw :=
  ⟨"unknown " ++ what ++ " `" ++ name ++ "`, expected one of " ++
    Text.joinWith ", " (expected.map fun e => "`" ++ e ++ "`"), span⟩

end Toml

open Toml

namespace StoreKind

/-- The kind of a name in a document. -/
def ofText (span : Span) (name : String) : Except Flaw StoreKind :=
  match ofName? name with
  | some k => .ok k
  | none => .error (unknown "variant" span name (all.map StoreKind.name))

/-- A kind as a document gives it: a name, or a table whose only member has the name and nothing in
it. -/
def ofValue (span : Span) (v : Value) : Except Flaw StoreKind :=
  match v with
  | .scalar (.text s) => ofText span s
  | .table _ [] => .error ⟨"wanted exactly 1 element, found 0 elements", span⟩
  | .table _ [(name, nameSpan, valueSpan, content)] => do
    let k ← ofText nameSpan name
    match content with
    | .array _ [] | .table _ [] => return k
    | .array _ _ => .error ⟨"expected empty array", valueSpan⟩
    | .table _ _ => .error ⟨"expected empty table", valueSpan⟩
    | v => .error ⟨"expected table, found " ++ v.typeName, valueSpan⟩
  | .table _ _ => .error ⟨"wanted exactly 1 element, more than 1 element", span⟩
  | _ => .error ⟨"wanted string or table", span⟩

end StoreKind

namespace StoreSettings

/-- How a setting is read into the others. -/
abbrev Setting := Span → Value → StoreSettings → Except Flaw StoreSettings

/-- The settings of the store by their names, in the order in which an array gives them. -/
def fields : List (String × Setting) :=
  [("kind", fun p v s => (StoreKind.ofValue p v).map fun x => { s with kind := x }),
   ("path", fun p v s => (text "path string" p v).map fun x => { s with path := x }),
   ("namespace", fun p v s => (text "a string" p v).map fun x => { s with collection.folder := x }),
   ("collection", fun p v s => (text "a string" p v).map fun x => { s with collection.name := x }),
   ("shell", fun p v s => (text "a string" p v).map fun x => { s with shell := x }),
   ("shell_args", fun p v s => (texts p v).map fun x => { s with shellArguments := x }),
   ("command_timeout_secs", fun p v s => (natural "u64" p v).map fun x => { s with timeout := x })]

/-- The settings of the store that a value gives; those it does not give stay as they are. -/
def ofValue (span : Span) (v : Value) (s : StoreSettings) : Except Flaw StoreSettings :=
  match v with
  | .table _ members => members.foldlM (fun s (name, nameSpan, span, v) =>
      match fields.lookup name with
      | some f => f span v s
      | none => .error (unknown "field" nameSpan name (fields.map (·.1)))) s
  | .array _ items => (fields.zip items).foldlM (fun s (f, span, v) => f.2 span v s) s
  | _ => .error (wrongType span v "struct StoreSettings")

end StoreSettings

namespace Settings

/-- The hashes that a value gives. -/
def hashesOf (span : Span) (v : Value) : Except Flaw (NameMap (List String)) :=
  match v with
  | .table _ members => members.mapM fun (name, _, span, v) => do return (name, ← texts span v)
  | _ => .error (wrongType span v "a map")

/-- How a setting is read into the others. -/
abbrev Setting := Span → Value → Settings → Except Flaw Settings

/-- The settings by their names. -/
def fields : List (String × Setting) :=
  [("cache_limit", fun p v s => (natural "usize" p v).map fun x => { s with cacheLimit := x }),
   ("templates_dir", fun p v s => (text "path string" p v).map fun x => { s with templates := x }),
   ("store", fun p v s => (StoreSettings.ofValue p v s.store).map fun x => { s with store := x }),
   ("supported_hashes", fun p v s => (hashesOf p v).map fun x => { s with hashes := x })]

/-- The settings that a document gives; those it does not give stay as they are. -/
def ofTable (s : Settings) (t : Table) : Except Flaw Settings :=
  t.foldlM (fun s (name, nameSpan, span, v) =>
    match fields.lookup name with
    | some f => f span v s
    | none => .error (unknown "field" nameSpan name (fields.map (·.1)))) s

/-- The settings that a TOML text gives. -/
def ofText (home source : String) : Except Flaw Settings := do
  (default home).ofTable (← document source)

/-- Reads the settings file of a path. -/
def load (fs : Files) (home path : String) : Except Fault Settings :=
  match fs.readText path with
  | .error e => .error (.context ("Failed to read config file: " ++ path) (.io e))
  | .ok source =>
    match ofText home source with
    | .error flaw =>
      .error (.context ("Failed to parse config file: " ++ path) (.settings (flaw.render source)))
    | .ok s => s.checked

/-- The path of the default settings file. -/
def defaultPath (home : String) : String := Path.join (directory home) "config.toml"

/-- The settings file to read, if there is one. -/
def resolvePath (fs : Files) (home : String) (named environment : Option String) :
    Except Fault (Option String) :=
  match named.or (environment.filter (· != "")) with
  | some path =>
    if fs.isFile path then .ok (some path)
    else .error (.problem (.badSettings ("Settings file not found: " ++ path)))
  | none =>
    let path := defaultPath home
    .ok (if fs.isFile path then some path else none)

/-- The settings in force. -/
def find (fs : Files) (home : String) (named environment : Option String) : Except Fault Settings := do
  match ← resolvePath fs home named environment with
  | some path => load fs home path
  | none => return default home

end Settings

end Stencil
