import Stencil.Schema.Check

/-!
# Schemas that are well formed

Each keyword of a schema wants an argument of a certain form. `Schema.fault?` names the first
argument that has another form: the keywords are looked at in the order of the table, not in the
order in which the schema has them, and a subschema is looked at as a whole where it occurs. After
that come patterns that do not read and references that lead nowhere, in the order of the schema.
-/

namespace Stencil

namespace Schema

/-- The form of an argument. -/
inductive Form where
  /-- Anything. -/
  | any
  /-- A value of one type. -/
  | typed (type : String)
  /-- A number above zero. -/
  | positive
  /-- An integer that is not negative. -/
  | size
  /-- Distinct strings. -/
  | names
  /-- One of the type names, or distinct ones. -/
  | types
  /-- A schema. -/
  | schema
  /-- One schema or more. -/
  | schemas
  /-- An object of schemas. -/
  | schemaMap
  /-- An object of lists of distinct strings. -/
  | namesMap
  /-- A name that starts with a letter or `_`. -/
  | anchor
  /-- An address with nothing behind a `#`. -/
  | address
  /-- An object of schemas and of lists of distinct strings. -/
  | needsMap
deriving DecidableEq, Repr

/-- The form that each keyword wants. -/
def table : List (String × Form) :=
  [("$id", .address), ("$schema", .typed "string"), ("$ref", .typed "string"),
   ("$anchor", .anchor), ("$dynamicRef", .typed "string"), ("$dynamicAnchor", .anchor),
   ("$vocabulary", .typed "object"), ("$comment", .typed "string"), ("$defs", .schemaMap),
   ("prefixItems", .schemas), ("items", .schema), ("contains", .schema),
   ("additionalProperties", .schema), ("properties", .schemaMap), ("patternProperties", .schemaMap),
   ("dependentSchemas", .schemaMap), ("propertyNames", .schema), ("if", .schema), ("then", .schema),
   ("else", .schema), ("allOf", .schemas), ("anyOf", .schemas), ("oneOf", .schemas), ("not", .schema),
   ("unevaluatedItems", .schema), ("unevaluatedProperties", .schema),
   ("type", .types), ("const", .any), ("enum", .typed "array"), ("multipleOf", .positive),
   ("maximum", .typed "number"), ("exclusiveMaximum", .typed "number"), ("minimum", .typed "number"),
   ("exclusiveMinimum", .typed "number"), ("maxLength", .size), ("minLength", .size),
   ("pattern", .typed "string"), ("maxItems", .size), ("minItems", .size),
   ("uniqueItems", .typed "boolean"), ("maxContains", .size), ("minContains", .size),
   ("maxProperties", .size), ("minProperties", .size), ("required", .names),
   ("dependentRequired", .namesMap),
   ("title", .typed "string"), ("description", .typed "string"), ("default", .any),
   ("deprecated", .typed "boolean"), ("readOnly", .typed "boolean"), ("writeOnly", .typed "boolean"),
   ("examples", .typed "array"), ("format", .typed "string"), ("contentEncoding", .typed "string"),
   ("contentMediaType", .typed "string"), ("contentSchema", .schema),
   ("definitions", .schemaMap), ("dependencies", .needsMap), ("$recursiveAnchor", .anchor),
   ("$recursiveRef", .typed "string")]

/-- The names of the types. -/
def allTypes : List String := ["array", "boolean", "integer", "null", "number", "object", "string"]

/-- The complaint about a value that has not the type. -/
def typeFault (type : String) (j : Json) : Option String :=
  if hasType type j then none else some (wrongType [type] j)

/-- The first complaint of a list of them. -/
def firstOf {α : Type} (f : α → Option String) (items : List α) : Option String := items.findSome? f

/-- The complaint about what should be distinct strings. -/
def namesFault (j : Json) : Option String :=
  typeFault "array" j <|> firstOf (typeFault "string") (j.items?.getD []) <|>
    (if allDistinct (j.items?.getD []) then none else some (shown j ++ " has non-unique elements"))

/-- A list of distinct type names, or one of them. -/
def namesTypes : Json → Bool
  | .str t => allTypes.contains t
  | .arr ts => !ts.isEmpty && allDistinct ts &&
      ts.all fun t => t.text?.any fun t => allTypes.contains t
  | _ => false

/-- The complaint that a value has none of the forms it could have. -/
def notAny (j : Json) : String :=
  shown j ++ " is not valid under any of the schemas listed in the 'anyOf' keyword"

/-- The complaint about an argument; `sub` finds the complaint about a subschema. -/
def Form.fault? (sub : Json → Option String) : Form → Json → Option String
  | .any, _ => none
  | .typed type, j => typeFault type j
  | .positive, j => typeFault "number" j <|>
      match j with
      | .num n => if n.compare (.int 0) == .gt then none
        else some (shown j ++ " is less than or equal to the minimum of 0")
      | _ => none
  | .size, j => typeFault "integer" j <|>
      match j with
      | .num n => if n.compare (.int 0) == .lt then some (shown j ++ " is less than the minimum of 0") else none
      | _ => none
  | .names, j => namesFault j
  | .types, j =>
    if namesTypes j then none else some (notAny j)
  | .schema, j => sub j
  | .schemas, j => typeFault "array" j <|>
      (if j.items? = some [] then some (shown j ++ " has less than 1 item") else none) <|>
      firstOf sub (j.items?.getD [])
  | .schemaMap, j => typeFault "object" j <|> firstOf (fun m => sub m.2) (j.members?.getD [])
  | .namesMap, j => typeFault "object" j <|> firstOf (fun m => namesFault m.2) (j.members?.getD [])
  | .needsMap, j => typeFault "object" j <|> firstOf (fun m =>
      if (sub m.2).isNone || (namesFault m.2).isNone then none
      else some (notAny m.2)) (j.members?.getD [])
  | .address, j => typeFault "string" j <|>
      if ((j.text?.getD "").toList.dropWhile (· != '#')).length ≤ 1 then none
      else some (shown j ++ " does not match \"^[^#]*#?$\"")
  | .anchor, j => typeFault "string" j <|>
      match j with
      | .str s =>
        let ok := match s.toList with
          | c :: r => (c.isAlpha || c == '_') && r.all fun d =>
              d.isAlphanum || d == '_' || d == '-' || d == '.'
          | [] => false
        if ok then none else some (shown j ++ " does not match \"^[A-Za-z_][-A-Za-z0-9._]*$\"")
      | _ => none

/-- The first complaint about a schema nested less deeply than the fuel. -/
def faultWithin : Nat → Json → Option String
  | 0, _ => none
  | fuel + 1, j =>
    match j with
    | .bool _ => none
    | .obj ms => firstOf (fun (entry : String × Form) =>
        (ms.lookup entry.1).bind (entry.2.fault? (faultWithin fuel))) table
    | j => some (wrongType ["boolean", "object"] j)

/-- The keywords whose schemas are used only by references to them. -/
def setAside : List String := ["$defs", "definitions", "contentSchema"]

/-- The schemas of a keyword that values are checked against. -/
def subschemas (keywords : Members) (keyword : String) (arg : Json) : List Json :=
  if setAside.contains keyword then []
  else if (keyword = "then" ∨ keyword = "else") ∧ (keywords.lookup "if").isNone then []
  else
    match table.lookup keyword with
    | some .schema => [arg]
    | some .schemas => arg.items?.getD []
    | some .schemaMap | some .needsMap => (arg.members?.getD []).map (·.2)
    | _ => []

/-- The complaint about a pattern that does not read. -/
def patternFault (p : String) : Option String :=
  if (Pattern.read? p).isSome then none
  else some (String.ofList (Json.quote p) ++ " is not a \"regex\"")

/-- The complaint about a reference that leads nowhere. -/
def referenceFault (root : Json) (r : String) : Option String :=
  match target root r with
  | .ok _ => none
  | .error e => some e.message

/-- The complaint about the texts of a keyword. -/
def textFault (root : Json) (keyword : String) (arg : Json) : Option String :=
  if keyword = "pattern" then arg.text?.bind patternFault
  else if keyword = "patternProperties" then firstOf (fun p => patternFault p.1) (arg.members?.getD [])
  else if keyword = "$ref" then arg.text?.bind (referenceFault root)
  else none

/-- The first complaint about a text in a schema nested less deeply than the fuel. -/
def textFaultWithin (root : Json) : Nat → Json → Option String
  | 0, _ => none
  | fuel + 1, j =>
    match j with
    | .obj ms => firstOf (fun (m : String × Json) =>
        textFault root m.1 m.2 <|> firstOf (textFaultWithin root fuel) (subschemas ms m.1 m.2)) ms
    | _ => none

/-- What is wrong with a schema, if anything. -/
def fault? (schema : Json) : Option String :=
  faultWithin (schema.depth + 1) schema <|> textFaultWithin schema (schema.depth + 1) schema

end Schema

/-- What judges schemas, and values by them. Templates work with any; `Schema` has the one that runs. -/
class Validator where
  /-- What is wrong with a schema, if anything. -/
  fault? (schema : Json) : Option String
  /-- What is wrong with a value. -/
  issues (schema value : Json) : List Schema.Issue

instance : Validator := ⟨Schema.fault?, Schema.issues⟩

end Stencil
