import Stencil.Template.Fragments
import Stencil.Template.Rules
import Stencil.Template.Scan

/-!
# Compiled templates

An `Engine` is a template taken apart: its literal text and slots in the order of the text, its
parameters in the order in which they first occur, and the schema of the parameters. A parameter may
occur often; its last placeholder with a type describes it, or its first one if none has a type.

Each property of the schema gets a default: the one that the placeholder declares, else a customary
value for a well-known name if it fits, else the default of the fragment, else its first choice,
else the plain value of its type.
-/

namespace Stencil

/-- The names with a meaning of their own. -/
def tenantName : String := "tenant_name"
def appName : String := "app_name"
def applicationName : String := "application_name"
def uuidName : String := "uuid"

/-- The parameters that are filled in by rendering and left out of the schema. -/
def reservedNames : List String := [uuidName, applicationName]

/-- How a form shows the input of a parameter. -/
inductive Widget where
  /-- Several lines of text. -/
  | textarea
  /-- A choice among values. -/
  | select
deriving DecidableEq, Repr

def Widget.name : Widget → String
  | .textarea => "textarea"
  | .select => "select"

/-- What is known about a parameter. -/
structure Parameter where
  name : String
  /-- The text of the placeholder that describes it. -/
  token : String
  type : ParameterType
  /-- The fragment of the schema, its default included. -/
  schema : Json
  default : Option Json
  /-- Filled in by rendering. -/
  reserved : Bool
  widget : Option Widget
  interpolation : Interpolation

/-- An input has to supply the parameter. -/
def Parameter.required (p : Parameter) : Bool := !p.reserved

/-- A piece of a compiled template. -/
inductive Segment where
  | literal (text : List Char)
  /-- The value of the parameter with this index. -/
  | slot (index : Nat)
deriving DecidableEq, Repr

/-- A compiled template. -/
structure Engine where
  name : String
  source : String
  /-- The first comment. -/
  description : String
  segments : List Segment
  parameters : List Parameter
  schema : Json
  rules : Rules

namespace Engine

/-! ### The winning placeholders -/

/-- The comment of a part. -/
def commentOf : Template.Part → Option String
  | .token _ (.comment text) => some text
  | _ => none

/-- The placeholder of a part. -/
def placeholderOf : Template.Part → Option Placeholder
  | .token _ (.placeholder p) => some p
  | _ => none

/-- Takes note of a placeholder: a new name goes behind the others, a type replaces what was known,
and a bare name that is known changes nothing. -/
def note : List Placeholder → Placeholder → List Placeholder
  | [], p => [p]
  | w :: ws, p => if w.name = p.name then (if p.isTyped then p else w) :: ws else w :: note ws p

/-- The placeholders that describe the parameters. -/
def winners (occurrences : List Placeholder) : List Placeholder := occurrences.foldl note []

/-- The segment of a part; a comment leaves none. -/
def segmentOf (ws : List Placeholder) : Template.Part → Option Segment
  | .literal text => some (.literal text)
  | .token _ (.comment _) => none
  | .token _ (.placeholder p) => some (.slot (ws.findIdx (·.name == p.name)))

/-! ### Describing parameters -/

/-- The customary value of a well-known name. -/
def customary (name : String) : Option Json :=
  if name = tenantName then some (.str "t1")
  else if name = appName then some (.str "app1")
  else if name = "virtual_address" then some (.str "10.0.0.1")
  else if name = "virtual_port" then some (.num (.int 443))
  else if name = "pool_members" then some (.arr [])
  else none

/-- The primitive type that a fragment declares, if it declares a single one. -/
def declaredType (fragment : Json) : Option Primitive :=
  ((fragment.get? "type").bind Json.text?).bind Primitive.ofName?

/-- The choices that a fragment lists. -/
def choices (fragment : Json) : Option (List Json) := (fragment.get? "enum").bind Json.items?

/-- The customary value of a name, if the fragment allows it. -/
def customaryFor (name : String) (fragment : Json) : Option Json :=
  (customary name).filter fun value =>
    (declaredType fragment).all (·.admits value) && (choices fragment).all (·.contains value)

/-- The default of a parameter. -/
def chooseDefault (name : String) (explicit : Option Json) (fragment : Json) : Option Json :=
  explicit <|> customaryFor name fragment <|> fragment.get? "default" <|>
    (choices fragment).bind List.head? <|> (declaredType fragment).map Primitive.synthetic

/-- The fragment with its default. -/
def withDefault : Json → Option Json → Json
  | .obj ms, some value => .obj (Members.insert ms "default" value)
  | j, _ => j

/-- The fragment that a type stands for, and the widget that goes with it. -/
def fragmentOf (template : String) (fragments : Fragments) :
    ParameterType → Except Problem (Json × Option Widget)
  | .primitive p => .ok (.obj [("type", .str p.name)], none)
  | .text => .ok (.obj [("type", .str "string"), ("format", .str "text")], some .textarea)
  | .fragment set name =>
    match fragments.get? set name with
    | some fragment => .ok (fragment, (fragment.get? "enum").map fun _ => .select)
    | none => .error (.schemaNotFound template (set ++ "." ++ name))

/-- Describes the parameter of a winning placeholder. -/
def describe (template : String) (fragments : Fragments) (p : Placeholder) : Except Problem Parameter := do
  let (fragment, widget) ← fragmentOf template fragments p.type
  let reserved := reservedNames.contains p.name
  let default := if reserved then none else chooseDefault p.name p.default fragment
  .ok { name := p.name, token := p.raw, type := p.type, schema := withDefault fragment default,
        default, reserved, widget, interpolation := p.type.interpolation }

/-- The schema of the parameters. -/
def schemaOf (name description : String) (parameters : List Parameter) : Json :=
  let visible := parameters.filter (!·.reserved)
  .obj [("type", .str "object"), ("title", .str name), ("description", .str description),
    ("properties", .obj (visible.map fun p => (p.name, p.schema))),
    ("required", .arr (visible.map fun p => .str p.name))]

/-! ### Compiling -/

/-- Compiles the template of a name; references are looked up among the fragments. -/
def compile [Validator] (name source : String) (fragments : Fragments) : Except Fault Engine := do
  let parts ← (Template.parts name source.toList).mapError .problem
  let ws := winners (parts.filterMap placeholderOf)
  let parameters ← (ws.mapM (describe name fragments)).mapError .problem
  let description := ((parts.filterMap commentOf).head?).getD ""
  let schema := schemaOf name description parameters
  let rules ← Rules.ofSchema schema
  .ok { name, source, description, segments := parts.filterMap (segmentOf ws), parameters, schema, rules }

/-- The names of the parameters with the texts of their placeholders. -/
def table (e : Engine) : List (String × String) := e.parameters.map fun p => (p.name, p.token)

/-- The parameter of a name. -/
def parameter? (e : Engine) (name : String) : Option Parameter := e.parameters.find? (·.name == name)

/-- The names of the parameters that an input has to supply. -/
def required (e : Engine) : List String := (e.parameters.filter (·.required)).map (·.name)

/-- What is wrong with an input. -/
def issues [Validator] (e : Engine) (input : Json) : List Schema.Issue := e.rules.issues input

end Engine

end Stencil
