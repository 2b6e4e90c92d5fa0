import Stencil.Json.Printer

/-!
# Placeholders

A placeholder names a parameter and may say what values it takes: one of the primitive JSON types,
long text, or a fragment of a schema file. The type also decides how a value is written into the
template text.
-/

namespace Stencil

/-- The primitive types of JSON values. -/
inductive Primitive where
  | boolean | object | array | number | string | integer
deriving DecidableEq, Repr

namespace Primitive

def all : List Primitive := [.boolean, .object, .array, .number, .string, .integer]

/-- The name of a type. -/
def name : Primitive → String
  | .boolean => "boolean"
  | .object => "object"
  | .array => "array"
  | .number => "number"
  | .string => "string"
  | .integer => "integer"

/-- The type with a name. -/
def ofName? (s : String) : Option Primitive := all.find? fun p => p.name == s

theorem ofName?_name (p : Primitive) : ofName? p.name = some p := by cases p <;> decide

/-- The value is an instance of the type. An integer is written without a point or an exponent. -/
def admits : Primitive → Json → Bool
  | .boolean, .bool _ => true
  | .object, .obj _ => true
  | .array, .arr _ => true
  | .number, .num _ => true
  | .string, .str _ => true
  | .integer, .num (.int _) => true
  | _, _ => false

/-- The value that stands in when nothing better is known. -/
def synthetic : Primitive → Json
  | .boolean => .bool false
  | .object => .obj []
  | .array => .arr []
  | .number | .integer => .num (.int 0)
  | .string => .str ""

theorem admits_synthetic (p : Primitive) : p.admits p.synthetic = true := by cases p <;> rfl

end Primitive

/-- How a value is written into template text. -/
inductive Interpolation where
  /-- A string as it is, anything else as JSON text. -/
  | raw
  /-- Always JSON text. -/
  | json
deriving DecidableEq, Repr

/-- The text of a value. -/
def Interpolation.write : Interpolation → Json → List Char
  | .raw, .str s => s.toList
  | _, j => j.print

/-- What a placeholder says about its parameter. -/
inductive ParameterType where
  | primitive (p : Primitive)
  /-- A string that takes several lines. -/
  | text
  /-- A fragment of a schema file. -/
  | fragment (set name : String)
deriving DecidableEq, Repr

/-- Numbers and truth values stand for themselves; anything else is written as JSON. -/
def ParameterType.interpolation : ParameterType → Interpolation
  | .primitive .number | .primitive .integer | .primitive .boolean => .raw
  | _ => .json

/-- A placeholder: a name, with a type and a default if it declares them. -/
structure Placeholder where
  /-- The parameter that it stands for. -/
  name : String
  /-- The text between the braces, without blanks at its ends. -/
  raw : String
  /-- The declared type; none for a bare name. -/
  declared : Option ParameterType
  /-- The declared default. -/
  default : Option Json
deriving DecidableEq

namespace Placeholder

/-- It declares a type. -/
def isTyped (p : Placeholder) : Bool := p.declared.isSome

/-- The declared type; a bare name takes strings. -/
def type (p : Placeholder) : ParameterType := p.declared.getD (.primitive .string)

end Placeholder

/-- What stands between double braces. -/
inductive Token where
  /-- A remark, without its mark. -/
  | comment (text : String)
  | placeholder (p : Placeholder)
deriving DecidableEq

end Stencil
