import Stencil.Template.Bundle

/-!
# Schema fragments

A schema file is a JSON object of named fragments. The fragments of all sets are held together: a
file of the same name in another set adds to the first one, and a later fragment replaces an
earlier one of its name.
-/

namespace Stencil

/-- The fragments of all schema files, the files in the order of their names. -/
structure Fragments where
  files : NameMap Members

namespace Fragments

def empty : Fragments := ⟨[]⟩

/-- Adds fragments to the file of a name. -/
def insert (f : Fragments) (name : String) (fragments : Members) : Fragments :=
  ⟨NameMap.insert f.files name (Members.insertAll ((f.files.lookup name).getD []) fragments)⟩

/-- Adds the fragments of a schema text. -/
def insertText (f : Fragments) (name text : String) : Except Fault Fragments :=
  match Json.ofText text with
  | .error e => .error (.context ("Schema file '" ++ name ++ "' is not valid JSON") (.json e))
  | .ok (.obj fragments) => .ok (f.insert name fragments)
  | .ok _ =>
    .error (.plain ("Schema file '" ++ name ++ "' must contain a JSON object of named fragments"))

/-- Adds the schema files of one set. -/
def insertBundle (f : Fragments) (b : Bundle) : Except Fault Fragments :=
  b.schemas.foldlM (fun f (name, text) =>
    match f.insertText name text with
    | .ok f => .ok f
    | .error e => .error (.context ("in template set '" ++ b.name ++ "'") e)) f

/-- The fragments of all sets. -/
def ofBundles (bundles : List Bundle) : Except Fault Fragments := bundles.foldlM insertBundle empty

/-- A fragment of a file. -/
def get? (f : Fragments) (file name : String) : Option Json :=
  (f.files.lookup file).bind fun ms => Members.get? ms name

/-- The names of the files. -/
def names (f : Fragments) : List String := f.files.map (·.1)

end Fragments

end Stencil
