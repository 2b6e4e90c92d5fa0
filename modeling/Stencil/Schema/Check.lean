import Stencil.Schema.Coverage
import Stencil.Schema.Reference

/-!
# Checking a value against a schema

`Schema.issues` lists what is wrong with a value, in the order of the members of the schema. A
schema is itself a JSON value; keywords that it does not know are passed over. The recursion follows
the nesting of the schema, and a reference goes on elsewhere in it. At one part of the value a place of
the schema need be visited only once, which bounds the fuel.
-/

namespace Stencil

namespace Schema

/-- The issues of the members of an object that restricts further members. -/
def memberIssues (check : Checker) (keywords : Members) (further : Json) (ms : Members) (path : Path) :
    List Issue :=
  let known := schemasOf keywords "properties"
  let patterns := schemasOf keywords "patternProperties"
  if (keywords.lookup "properties").isNone && (keywords.lookup "patternProperties").isNone then
    match further, ms with
    | .bool false, (_, v) :: _ => [issue path ("False schema does not allow " ++ shown v)]
    | .bool false, [] => []
    | further, ms => ms.flatMap fun (k, v) => check further v (k :: path)
  else
    let schemasFor (k : String) : List Json := (known.lookup k).toList ++ fitting patterns k
    let found := ms.flatMap fun (k, v) =>
      match schemasFor k, further with
      | [], .bool false => []
      | [], further => check further v (k :: path)
      | ss, _ => ss.flatMap fun s => check s v (k :: path)
    let extra := if further = .bool false then
        (ms.filter fun (k, _) => (schemasFor k).isEmpty).map (·.1)
      else []
    found ++ unexpected path "Additional properties" extra

/-- The issues of items from an index on. -/
def itemIssues (check : Checker) (schema : Json) (path : Path) : Nat → List Json → List Issue
  | _, [] => []
  | i, j :: js => check schema j (toString i :: path) ++ itemIssues check schema path (i + 1) js

/-- The issues of the items that have a schema each. -/
def tupleIssues (check : Checker) (path : Path) : Nat → List Json → List Json → List Issue
  | i, s :: ss, j :: js => check s j (toString i :: path) ++ tupleIssues check path (i + 1) ss js
  | _, _, _ => []

/-- The issues of `contains`. -/
def containsIssues (check : Checker) (keywords : Members) (schema value : Json) (path : Path) : List Issue :=
  match value with
  | .arr items =>
    let n := (items.filter (passes check schema)).length
    let least := ((keywords.lookup "minContains").bind count?).getD 1
    let most := (keywords.lookup "maxContains").bind count?
    if n < least || most.any (· < n) then
      [issue path ("None of " ++ shown value ++ " are valid under the given schema")]
    else []
  | _ => []

/-- The issues that a member brings: names that have to be there too, or a schema for the object. -/
def dependencyIssues (check : Checker) (ms : Members) (path : Path) : String × Json → List Issue
  | (k, .arr names) =>
    if Members.has ms k then
      (names.filterMap Json.text?).filterMap fun n => if Members.has ms n then none else some (missing path n)
    else []
  | (k, s) => if Members.has ms k then check s (.obj ms) path else []

/-- The issues that one keyword finds. `check` is the check against a subschema, `refer` finds what a
reference leads to, and `cover` what a schema sees to in a value. -/
def keywordIssues (refer : String → Option Json) (check : Checker) (cover : Json → Json → Coverage)
    (keywords : Members) (keyword : String) (arg value : Json) (path : Path) : List Issue :=
  if keyword = "type" then
    let types := typeNames arg
    if types.any (hasType · value) then [] else [issue path (wrongType types value)]
  else if keyword = "enum" then
    match arg with
    | .arr options =>
      if options.any (equal value) then [] else [issue path (shown value ++ " is not one of " ++ shown arg)]
    | _ => []
  else if keyword = "const" then
    if equal value arg then [] else [issue path (shown arg ++ " was expected")]
  else if keyword = "minimum" then
    limitIssue path value arg (· == .lt) "less than the minimum"
  else if keyword = "maximum" then
    limitIssue path value arg (· == .gt) "greater than the maximum"
  else if keyword = "exclusiveMinimum" then
    limitIssue path value arg (· != .gt) "less than or equal to the minimum"
  else if keyword = "exclusiveMaximum" then
    limitIssue path value arg (· != .lt) "greater than or equal to the maximum"
  else if keyword = "multipleOf" then
    match value, arg with
    | .num n, .num d =>
      if isMultiple n d then []
      else [issue path (shown value ++ " is not a multiple of " ++
        String.ofList (DecimalStyle.plain.text d.toBinary))]
    | _, _ => []
  else if keyword = "minLength" then
    sizeIssue path value arg (lengthOf value) true " is shorter than " "" "character" "characters"
  else if keyword = "maxLength" then
    sizeIssue path value arg (lengthOf value) false "" " is longer than " "character" "characters"
  else if keyword = "minItems" then
    sizeIssue path value arg (itemCount value) true " has less than " "" "item" "items"
  else if keyword = "maxItems" then
    sizeIssue path value arg (itemCount value) false "" " has more than " "item" "items"
  else if keyword = "minProperties" then
    sizeIssue path value arg (memberCount value) true " has less than " "" "property" "properties"
  else if keyword = "maxProperties" then
    sizeIssue path value arg (memberCount value) false "" " has more than " "property" "properties"
  else if keyword = "uniqueItems" then
    match value, arg with
    | .arr items, .bool true =>
      if allDistinct items then [] else [issue path (shown value ++ " has non-unique elements")]
    | _, _ => []
  else if keyword = "pattern" then
    match value, arg with
    | .str s, .str p =>
      match Pattern.read? p with
      | some pat =>
        if pat.foundIn s then [] else [issue path (shown value ++ " does not match " ++ inQuotes p)]
      | none => []
    | _, _ => []
  else if keyword = "required" then
    match value, arg with
    | .obj ms, .arr names =>
      (names.filterMap Json.text?).filterMap fun n => if Members.has ms n then none else some (missing path n)
    | _, _ => []
  else if keyword = "properties" then
    match value, arg with
    | .obj ms, .obj subs =>
      if restrictsMembers keywords then []
      else subs.flatMap fun (k, s) =>
        match ms.lookup k with
        | some v => check s v (k :: path)
        | none => []
    | _, _ => []
  else if keyword = "patternProperties" then
    match value, arg with
    | .obj ms, .obj subs =>
      if restrictsMembers keywords then []
      else subs.flatMap fun (p, s) =>
        match Pattern.read? p with
        | some pat => ms.flatMap fun (k, v) => if pat.foundIn k then check s v (k :: path) else []
        | none => []
    | _, _ => []
  else if keyword = "additionalProperties" then
    match value with
    | .obj ms => if restrictsMembers keywords then memberIssues check keywords arg ms path else []
    | _ => []
  else if keyword = "propertyNames" then
    match value, arg with
    | .obj (_ :: _), .bool false => [issue path ("False schema does not allow " ++ shown value)]
    | .obj ms, arg => ms.flatMap fun (k, _) =>
        (check arg (.str k) []).map fun i => issue path i.message
    | _, _ => []
  else if ["dependentRequired", "dependentSchemas", "dependencies"].contains keyword then
    match value, arg with
    | .obj ms, .obj needs => needs.flatMap (dependencyIssues check ms path)
    | _, _ => []
  else if keyword = "prefixItems" then
    match value, arg with
    | .arr items, .arr subs => tupleIssues check path 0 subs items
    | _, _ => []
  else if keyword = "items" then
    match value with
    | .arr items =>
      let skipped := tupleLength keywords
      itemIssues check arg path skipped (items.drop skipped)
    | _ => []
  else if keyword = "contains" then containsIssues check keywords arg value path
  else if keyword = "allOf" then
    match arg with
    | .arr subs => subs.flatMap fun s => check s value path
    | _ => []
  else if keyword = "anyOf" then
    match arg with
    | .arr subs =>
      if subs.any (passes check · value) then []
      else [issue path (shown value ++ " is not valid under any of the schemas listed in the 'anyOf' keyword")]
    | _ => []
  else if keyword = "oneOf" then
    match arg with
    | .arr subs =>
      match (subs.filter (passes check · value)).length with
      | 0 => [issue path (shown value ++
          " is not valid under any of the schemas listed in the 'oneOf' keyword")]
      | 1 => []
      | _ => [issue path (shown value ++
          " is valid under more than one of the schemas listed in the 'oneOf' keyword")]
    | _ => []
  else if keyword = "not" then
    if passes check arg value then [issue path (shown arg ++ " is not allowed for " ++ shown value)] else []
  else if keyword = "if" then
    let branch := if passes check arg value then "then" else "else"
    match keywords.lookup branch with
    | some s => check s value path
    | none => []
  else if keyword = "$ref" then
    match arg.text?.bind refer with
    | some s => check s value path
    | none => []
  else if keyword = "unevaluatedProperties" then
    leftMembers check (cover (.obj keywords) value) arg value path
  else if keyword = "unevaluatedItems" then
    leftItems check (cover (.obj keywords) value) arg value path
  else []

/-- The issues of a value, found in so many steps into the schema. -/
def issuesWithin (refer : String → Option Json) : Nat → Checker
  | 0, _, _, _ => []
  | fuel + 1, schema, value, path =>
    match schema with
    | .bool false => [issue path ("False schema does not allow " ++ shown value)]
    | .obj keywords =>
      let check := issuesWithin refer fuel
      keywords.flatMap fun (k, arg) =>
        keywordIssues refer check (coverageWithin refer check fuel) keywords k arg value path
    | _ => []

/-- The number of steps that are enough. -/
def stepsFor (schema value : Json) : Nat := schema.depth + 1 + schema.size * (value.depth + 1)

/-- What is wrong with a value. -/
def issues (schema value : Json) : List Issue :=
  issuesWithin (fun r => (target schema r).toOption) (stepsFor schema value) schema value []

end Schema

end Stencil
