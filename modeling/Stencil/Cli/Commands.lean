import Stencil.Cli.Console
import Stencil.Cli.Request

/-!
# Commands

What each command does and prints. A listing as JSON is printed as a whole at its end, a listing as
a table line by line.
-/

namespace Stencil.Cli

open Console Style

namespace Bench

variable (b : Bench)

/-! ### Templates -/

/-- An entry of the list of templates as JSON. -/
def entryJson (name : String) (e : Engine) : Json :=
  .obj [("name", .str name), ("description", .str e.description),
    ("parameters", .arr (e.parameters.map fun p => .str p.name)), ("required", .arr (e.required.map .str))]

/-- The lines of a template in the list of templates. -/
def entryLines (detailed : Bool) (name : String) (e : Engine) : List String :=
  let title := bold.paint b.color name
  let head := if e.description.isEmpty then title else title ++ "  " ++ dimmed.paint b.color e.description
  let parameterLine (p : Parameter) : String :=
    "  " ++ (if e.required.contains p.name then "*" else " ") ++ " " ++ cyan.paint b.color p.name ++ " " ++
      dimmed.paint b.color p.token
  head :: if detailed then e.parameters.map parameterLine else []

/-- Lists templates with their parameters. -/
def list (set : Option String) (stored detailed asJson : Bool) : Op Console Unit := do
  let c := b.catalog stored
  let names := (← c.list).filter fun name => set.all fun set => Workshop.belongsTo set name
  if asJson then
    let entries ← names.mapM fun name => do return entryJson name (← c.fetch name)
    printJson true (.arr entries)
  else if names.isEmpty then printLine "No templates found."
  else
    for name in names do
      let e ← c.fetch name
      (b.entryLines detailed name e).forM printLine
    printLine (boldGreen.paint b.color "Total" ++ ": " ++ toString names.length ++ " template(s)")

/-- Prints the schema of a template. -/
def schema (template : String) (stored : Bool) : Op Console Unit := do
  let e ← (b.catalog stored).fetch template
  printJson true e.schema

/-- What is wrong with parameters as JSON. -/
def issuesJson (issues : List Schema.Issue) : Json :=
  .obj [("valid", .bool issues.isEmpty),
    ("issues", .arr (issues.map fun i => .obj [("path", .str i.path), ("message", .str i.message)]))]

/-- The lines that say what is wrong with parameters. -/
def issueLines (template : String) (issues : List Schema.Issue) : List String :=
  let title := bold.paint b.color template
  if issues.isEmpty then [green.paint b.color "✓" ++ " parameters are valid for " ++ title]
  else (red.paint b.color "✗" ++ " parameters are invalid for " ++ title) ::
    issues.map fun i => "  - " ++ i.display

/-- Checks parameters; that they are wrong is a failure. -/
def validate (template : String) (params : Option String) (stored asJson : Bool) : Op Console Unit := do
  let e ← (b.catalog stored).fetch template
  let issues := e.issues (← b.readParams params)
  if asJson then printJson true (issuesJson issues) else (b.issueLines template issues).forM printLine
  if !issues.isEmpty then
    Op.fail (.other (toString issues.length ++ " validation issue(s) for template '" ++ template ++ "'"))

/-- Refuses parameters that are wrong. -/
def requireValid (template : String) (issues : List Schema.Issue) : Op Console Unit :=
  if issues.isEmpty then pure ()
  else Op.fail (.other ("Parameters for template '" ++ template ++ "' are invalid:" ++
    String.join (issues.map fun i => "\n  - " ++ i.display)))

/-- Fills in a template and prints the declaration, or writes it into a file. -/
def render (template : String) (params : Option String) (pretty strict stored : Bool)
    (output : Option String) : Op Console Unit := do
  let e ← (b.catalog stored).fetch template
  let input ← b.readParams params
  if strict then requireValid template (e.issues input)
  let declaration ← Op.ofExcept ((e.render b.fresh input).mapError .problem)
  match output with
  | none => printJson pretty declaration
  | some path =>
    let text := (if pretty then declaration.pretty else declaration.toText) ++ "\n"
    (Files.replace path (Text.bytes text)).zoom filesPart

/-! ### Sets -/

/-- A set in the folder, in the store, or in both. -/
structure Row where
  name : String
  inFolder : Bool
  stored : Option SetStatus
deriving DecidableEq, Repr

/-- The sets of the folder and of the store by name. -/
def rows : Op Console (List Row) := do
  let names ← b.folder.listSets
  let statuses ← b.sets.statuses (some b.folder)
  let stored := statuses.map fun t => Row.mk t.name (names.contains t.name) (some t)
  let others := names.filter fun n => !stored.any (·.name == n)
  return (stored ++ others.map fun n => Row.mk n true none).mergeSort fun x y => x.name ≤ y.name

/-- A row as JSON. -/
def Row.toJson (r : Row) : Json :=
  .obj [("name", .str r.name), ("local", .bool r.inFolder),
    ("stored", match r.stored with
      | none => .null
      | some t => .obj [("name", .str t.name), ("hash", .str t.hash), ("supported", .bool t.supported),
          ("update_available", .bool t.updateAvailable)])]

/-- The word for a set that is accepted or not. -/
def support (t : SetStatus) : String :=
  if t.supported then green.paint b.color "supported" else yellow.paint b.color "custom"

/-- The state of a set in words. -/
def stateOf (r : Row) : String :=
  match r.stored with
  | none => dimmed.paint b.color "not uploaded"
  | some t =>
    b.support t ++ (if t.updateAvailable then ", " ++ cyan.paint b.color "update available" else "") ++
      (if r.inFolder then "" else ", " ++ dimmed.paint b.color "store only")

/-- The width of the column of names. -/
def nameWidth : Nat := 24

/-- Lists the sets with their states. -/
def listSets (asJson : Bool) : Op Console Unit := do
  let rows ← b.rows
  if asJson then printJson true (.arr (rows.map Row.toJson))
  else if rows.isEmpty then printLine "No template sets found."
  else rows.forM fun r => printLine (bold.paintWide b.color nameWidth r.name ++ " " ++ b.stateOf r)

/-- Copies a set from the folder into the store. -/
def uploadOne (set : String) : Op Console Unit := do
  let data ← b.folder.setData set
  b.sets.upload data
  let status ← b.sets.status set none
  printLine (green.paint b.color "✓" ++ " uploaded " ++ bold.paint b.color set ++ " (" ++
    dimmed.paint b.color data.hash ++ ", " ++ b.support status ++ ")")

/-- Removes a set from the store. -/
def remove (set : String) : Op Console Unit := do
  b.sets.remove set
  printLine (green.paint b.color "✓" ++ " removed " ++ bold.paint b.color set)

/-- Does what is asked for. -/
def perform : Request → Op Console Unit
  | .list set stored detailed asJson => b.list set stored detailed asJson
  | .schema template stored => b.schema template stored
  | .validate template params stored asJson => b.validate template params stored asJson
  | .render template params pretty strict stored output =>
    b.render template params pretty strict stored output
  | .sets asJson => b.listSets asJson
  | .upload sets => sets.forM b.uploadOne
  | .remove set => b.remove set

end Bench

end Stencil.Cli
