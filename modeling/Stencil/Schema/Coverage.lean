import Stencil.Schema.Basic
import Stencil.Schema.Pattern

/-!
# What a schema sees to

The keywords of a schema that look into an object or an array see to some of its members or items:
those that they have a schema for. A subschema for the same value sees to its own, provided that the
value passes it. `Schema.membersSeen` and `Schema.itemsSeen` collect what is seen to, and the
`unevaluated…` keywords are about the rest.
-/

namespace Stencil

namespace Schema

/-- The subschemas of an object of schemas. -/
def schemasOf (keywords : Members) (name : String) : Members :=
  ((keywords.lookup name).bind Json.members?).getD []

/-- `additionalProperties` restricts further members, and so has to look at all members itself. -/
def restrictsMembers (keywords : Members) : Bool :=
  match keywords.lookup "additionalProperties" with
  | some (.bool false) => true
  | some (.obj _) => true
  | _ => false

/-- A check of a value against a schema at a place. -/
abbrev Checker := Json → Json → Path → List Issue

/-- The value passes. -/
def passes (check : Checker) (schema value : Json) : Bool := (check schema value []).isEmpty

/-- The subschemas whose pattern a name fits. -/
def fitting (patterns : Members) (name : String) : List Json :=
  patterns.filterMap fun (p, s) =>
    match Pattern.read? p with
    | some pat => if pat.foundIn name then some s else none
    | none => none

/-- The number of leading items that have a schema of their own. -/
def tupleLength (keywords : Members) : Nat :=
  (((keywords.lookup "prefixItems").bind Json.items?).getD []).length

/-! ### Subschemas for the same value -/

/-- The subschemas for the value itself that one keyword brings. -/
def subschemasAt (refer : String → Option Json) (check : Checker) (keywords : Members) (value : Json)
    (keyword : String) (arg : Json) : List Json :=
  if ["allOf", "anyOf", "oneOf"].contains keyword then arg.items?.getD []
  else if keyword = "if" then
    let branch := if passes check arg value then "then" else "else"
    arg :: (keywords.lookup branch).toList
  else if keyword = "dependentSchemas" then
    (arg.members?.getD []).filterMap fun (k, s) =>
      if Members.has (value.members?.getD []) k then some s else none
  else if keyword = "$ref" then (arg.text?.bind refer).toList
  else []

/-- The subschemas for the value itself that it passes. -/
def passedAt (refer : String → Option Json) (check : Checker) (keywords : Members) (value : Json) : List Json :=
  (keywords.flatMap fun (k, arg) => subschemasAt refer check keywords value k arg).filter (passes check · value)

/-! ### Members -/

/-- The members that the keywords of a schema see to by themselves. -/
def ownMembers (keywords : Members) (ms : Members) : List String :=
  if (keywords.lookup "additionalProperties").isSome then ms.map (·.1)
  else
    (ms.map (·.1)).filter fun k => Members.has (schemasOf keywords "properties") k ||
      !(fitting (schemasOf keywords "patternProperties") k).isEmpty

/-- The members that a schema sees to, found in so many steps into it; `all` tells whether it sees to
those that are left over, too. -/
def membersWithin (refer : String → Option Json) (check : Checker) (value : Json) :
    Nat → Bool → Json → List String
  | 0, _, _ => []
  | fuel + 1, all, schema =>
    match schema, value with
    | .obj keywords, .obj ms =>
      if all && (keywords.lookup "unevaluatedProperties").isSome then ms.map (·.1)
      else ownMembers keywords ms ++
        (passedAt refer check keywords value).flatMap (membersWithin refer check value fuel true)
    | _, _ => []

/-! ### Items -/

/-- The indices of the items that pass a schema, the first of them being `i`. -/
def passingFrom (check : Checker) (schema : Json) : Nat → List Json → List Nat
  | _, [] => []
  | i, j :: js =>
    if passes check schema j then i :: passingFrom check schema (i + 1) js
    else passingFrom check schema (i + 1) js

/-- The indices of the items that the keywords of a schema see to by themselves. -/
def ownItems (check : Checker) (keywords : Members) (items : List Json) : List Nat :=
  if (keywords.lookup "items").isSome then List.range items.length
  else List.range (tupleLength keywords) ++
    ((keywords.lookup "contains").map (passingFrom check · 0 items)).getD []

/-- The indices of the items that a schema sees to, found in so many steps into it; `all` tells
whether it sees to those that are left over, too. -/
def itemsWithin (refer : String → Option Json) (check : Checker) (value : Json) :
    Nat → Bool → Json → List Nat
  | 0, _, _ => []
  | fuel + 1, all, schema =>
    match schema, value with
    | .obj keywords, .arr items =>
      if all && (keywords.lookup "unevaluatedItems").isSome then List.range items.length
      else ownItems check keywords items ++
        (passedAt refer check keywords value).flatMap (itemsWithin refer check value fuel true)
    | _, _ => []

/-! ### What is left over -/

/-- What a schema sees to by everything but the keywords about the rest. -/
structure Coverage where
  members : List String
  items : List Nat

/-- The coverage of a value by a schema, found in so many steps into it. -/
def coverageWithin (refer : String → Option Json) (check : Checker) (fuel : Nat) (schema value : Json) :
    Coverage :=
  ⟨membersWithin refer check value fuel false schema, itemsWithin refer check value fuel false schema⟩

/-- The issue about members that nothing sees to and that do not pass the schema for the rest. -/
def leftMembers (check : Checker) (seen : Coverage) (schema value : Json) (path : Path) : List Issue :=
  match value with
  | .obj ms =>
    unexpected path "Unevaluated properties" <|
      (ms.filter fun (k, v) => !seen.members.contains k && !passes check schema v).map (·.1)
  | _ => []

/-- The issue about items that nothing sees to and that do not pass the schema for the rest. -/
def leftItems (check : Checker) (seen : Coverage) (schema value : Json) (path : Path) : List Issue :=
  match value with
  | .arr items =>
    unexpected path "Unevaluated items" <|
      (items.mapIdx fun i j => (i, j)).filterMap fun (i, j) =>
        if seen.items.contains i || passes check schema j then none else some (shown j)
  | _ => []

end Schema

end Stencil
