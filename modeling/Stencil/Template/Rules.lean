import Stencil.Fault
import Stencil.Schema.Form

/-!
# Rules for parameters

The schema of a template's parameters, with what follows from it for an input: a value given for an
array parameter is wrapped in an array, and a parameter that is left out takes the default of its
property.
-/

namespace Stencil

/-- A schema for an object of parameters, taken apart. -/
structure Rules where
  schema : Json
  /-- The parameters whose type is `array`. -/
  arrays : List String
  /-- The defaults of the parameters, in the order of the schema. -/
  defaults : Members
deriving Inhabited

namespace Rules

/-- The fragments of the properties of a schema, in order. -/
def properties (schema : Json) : Members := ((schema.get? "properties").bind Json.members?).getD []

/-- The fragment describes arrays and nothing else. -/
def describesArray (fragment : Json) : Bool := (fragment.get? "type").bind Json.text? == some "array"

/-- The names of the properties whose type is `array`. -/
def arraysOf (schema : Json) : List String :=
  ((properties schema).filter fun p => describesArray p.2).map (·.1)

/-- The defaults of the properties. -/
def defaultsOf (schema : Json) : Members :=
  (properties schema).filterMap fun (name, fragment) => (fragment.get? "default").map (name, ·)

/-- The rules of a schema, if it is well formed. -/
def ofSchema [Validator] (schema : Json) : Except Fault Rules :=
  match Validator.fault? schema with
  | some complaint => .error (.plain ("Invalid parameter schema: " ++ complaint))
  | none => .ok ⟨schema, arraysOf schema, defaultsOf schema⟩

/-- A value as an array: anything but an array and null becomes the only item of one. -/
def wrap : Json → Json
  | .arr items => .arr items
  | .null => .null
  | j => .arr [j]

/-- Wraps the values of array parameters. -/
def coerce (r : Rules) (input : Members) : Members :=
  input.map fun (k, v) => if r.arrays.contains k then (k, wrap v) else (k, v)

/-- Puts in a default unless the parameter is there. -/
def fillOne (input : Members) (entry : String × Json) : Members :=
  if Members.has input entry.1 then input else input ++ [entry]

/-- Puts in the defaults of the parameters that are left out, behind the others. -/
def fill (r : Rules) (input : Members) : Members := r.defaults.foldl fillOne input

/-- Wraps and then fills in. -/
def prepare (r : Rules) (input : Members) : Members := r.fill (r.coerce input)

/-- What is wrong with an input. Values are wrapped first, but nothing is filled in. -/
def issues [Validator] (r : Rules) : Json → List Schema.Issue
  | .obj ms => Validator.issues r.schema (.obj (r.coerce ms))
  | j => [⟨"", "parameters must be a JSON object, got " ++ j.kindName⟩]

end Rules

end Stencil
