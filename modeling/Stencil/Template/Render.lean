import Stencil.Template.Engine

/-!
# Rendering

Rendering fills the slots of a template, reads the text as JSON, and stitches the document: in each
grouping one unit may be renamed, and every unit gets a record of how it was made. A grouping is a
root member of class `Tenant`, a unit is a member of one of class `Application`.
-/

namespace Stencil

namespace Engine

/-! ### The view -/

/-- The values that the slots take: the input, wrapped and filled in, with an identifier. -/
def viewOf (e : Engine) (fresh : String) (input : Members) : Members :=
  let view := e.rules.prepare input
  if (Members.get? view uuidName).all Json.isNull then Members.insert view uuidName (.str fresh) else view

/-- The view of an input; an input of null is an empty one. -/
def view (e : Engine) (fresh : String) : Json → Except Problem Members
  | .obj input => .ok (e.viewOf fresh input)
  | .null => .ok (e.viewOf fresh [])
  | j => .error (.other ("Parameters for template '" ++ e.name ++ "' must be a JSON object, got: " ++ j.toText))

/-! ### Filling in -/

/-- The text of a segment. -/
def segmentText (e : Engine) (view : Members) : Segment → Except Problem (List Char)
  | .literal text => .ok text
  | .slot index =>
    match e.parameters[index]? with
    | none => .ok []
    | some p =>
      match Members.get? view p.name with
      | some value => .ok (p.interpolation.write value)
      | none => .error (.missingParameter e.name p.name)

/-- The text of the template with its slots filled in. -/
def substitute (e : Engine) (view : Members) : Except Problem (List Char) :=
  (e.segments.mapM (e.segmentText view)).map List.flatten

/-! ### Stitching -/

/-- The node is an object of a class. -/
def hasClass (node : Json) (cls : String) : Bool := (node.get? "class").bind Json.text? == some cls

def isGrouping (node : Json) : Bool := hasClass node "Tenant"
def isUnit (node : Json) : Bool := hasClass node "Application"

/-- The keys of the units of a grouping. -/
def unitKeys (grouping : Members) : List String := (grouping.filter fun m => isUnit m.2).map (·.1)

/-- The unit that may be renamed: the one that the view names, else the only one. -/
def chosenUnit (view : Members) (grouping : Members) : Option String :=
  let keys := unitKeys grouping
  let named := ((Members.get? view appName).bind Json.text?).filter keys.contains
  named <|> if keys.length = 1 then keys.head? else none

/-- The unit to rename and its new key, if the two differ. -/
def renameOf (view : Members) (grouping : Members) : Option (String × String) :=
  match chosenUnit view grouping, (Members.get? view applicationName).bind Json.text? with
  | some source, some target => if source = target then none else some (source, target)
  | _, _ => none

/-- Gives a member another key, in its place. -/
def renameMember (source target : String) (ms : Members) : Members :=
  ms.map fun (k, v) => if k = source then (target, v) else (k, v)

/-- The members of a node that is an object. -/
def membersOf (node : Option Json) : Members := (node.bind Json.members?).getD []

/-- The record of how a unit was made. -/
def constants (template : String) (view : Members) (groupingKey unitKey : String) (old : Option Json) : Json :=
  let recorded := Members.insert (Members.insert view tenantName (.str groupingKey))
    applicationName (.str unitKey)
  .obj (Members.insertAll (membersOf old)
    [("class", .str "Constants"), ("template", .str template), ("view", .obj recorded)])

/-- Puts the record into a unit. -/
def attach (template : String) (view : Members) (groupingKey unitKey : String) (unit : Members) : Members :=
  Members.insert unit "constants"
    (constants template view groupingKey unitKey (Members.get? unit "constants"))

/-- Stitches a member of a grouping: a unit gets its record, anything else stays. -/
def stitchMember (template : String) (view : Members) (groupingKey : String) : String × Json → String × Json
  | (key, node) =>
    match node with
    | .obj unit => if isUnit node then (key, .obj (attach template view groupingKey key unit)) else (key, node)
    | _ => (key, node)

/-- Stitches a grouping. -/
def stitchGrouping (template : String) (view : Members) (groupingKey : String) (grouping : Members) :
    Except Problem Members :=
  match renameOf view grouping with
  | none => .ok (grouping.map (stitchMember template view groupingKey))
  | some (source, target) =>
    if Members.has grouping target then .error (.renameConflict groupingKey source target)
    else .ok ((renameMember source target grouping).map (stitchMember template view groupingKey))

/-- Stitches a member of the root. -/
def stitchRoot (template : String) (view : Members) : String × Json → Except Problem (String × Json)
  | (key, node) =>
    match node with
    | .obj grouping =>
      if isGrouping node then
        (stitchGrouping template view key grouping).map fun ms => (key, .obj ms)
      else .ok (key, node)
    | _ => .ok (key, node)

/-- Stitches a document. -/
def stitch (template : String) (view : Members) : Json → Except Problem Json
  | .obj root => (root.mapM (stitchRoot template view)).map .obj
  | j => .ok j

/-! ### Rendering -/

/-- A document that holds its declaration in a member stands for that member. -/
def unwrap (document : Json) : Json :=
  match document.get? "declaration" with
  | some (.obj ms) => .obj ms
  | _ => document

/-- Reads the filled-in text. -/
def readDocument (e : Engine) (view : Members) (text : List Char) : Except Problem Json :=
  (Json.parse text).mapError fun fault =>
    .malformedOutput e.name fault.message (Json.obj view).toText (String.ofList text)

/-- The declaration of an input; `fresh` is the identifier for an input that has none. -/
def render (e : Engine) (fresh : String) (input : Json) : Except Problem Json := do
  let view ← e.view fresh input
  let text ← e.substitute view
  let document ← e.readDocument view text
  stitch e.name view (unwrap document)

end Engine

end Stencil
