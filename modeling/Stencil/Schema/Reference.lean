import Stencil.Json.Basic
import Stencil.Text.Utf8

/-!
# References within a schema

A reference `#` leads to the whole schema, `#/a/b` to the place that the names and indices lead to,
and `#name` to the part that has this name as its `$anchor`. In a path, `~1` stands for a slash and
`~0` for a tilde, and a percent sign with two hexadecimal digits for a byte.
-/

namespace Stencil

namespace Schema

/-- What is wrong with a reference. -/
inductive ReferenceFault where
  /-- The names lead nowhere. -/
  | noPlace (pointer : String)
  /-- No place has this name. -/
  | noAnchor (anchor : String)
  /-- It leads out of the schema. -/
  | elsewhere (resource : String)
deriving DecidableEq, Repr

/-- The wording of what is wrong. -/
def ReferenceFault.message : ReferenceFault → String
  | .noPlace pointer => "Pointer '" ++ pointer ++ "' does not exist"
  | .noAnchor anchor => "Anchor '" ++ anchor ++ "' does not exist"
  | .elsewhere resource => "Resource '" ++ resource ++
    "' is not present in a registry and retrieving it failed: Unknown scheme json-schema"

/-- The value of a hexadecimal digit. -/
def hexDigit? (c : Char) : Option Nat :=
  if c.isDigit then some (c.toNat - 48)
  else if 'a' ≤ c ∧ c ≤ 'f' then some (c.toNat - 87)
  else if 'A' ≤ c ∧ c ≤ 'F' then some (c.toNat - 55)
  else none

/-- The bytes of a text with the percent signs resolved. -/
def percentBytes : List Char → List UInt8
  | '%' :: a :: b :: rest =>
    match hexDigit? a, hexDigit? b with
    | some x, some y => UInt8.ofNat (x * 16 + y) :: percentBytes rest
    | _, _ => 37 :: percentBytes (a :: b :: rest)
  | c :: rest => Text.bytes (String.singleton c) ++ percentBytes rest
  | [] => []
termination_by s => s.length

/-- A name as it is written in a pointer. -/
def unescape : List Char → List Char
  | '~' :: '1' :: rest => '/' :: unescape rest
  | '~' :: '0' :: rest => '~' :: unescape rest
  | c :: rest => c :: unescape rest
  | [] => []

/-- Goes one step into a value. -/
def stepInto (j : Json) (name : String) : Option Json :=
  match j with
  | .obj ms => ms.lookup name
  | .arr items => name.toNat?.bind fun i => items[i]?
  | _ => none

/-- The value that a pointer leads to. -/
def follow (root : Json) (pointer : String) : Option Json :=
  (Text.ofBytes? (percentBytes pointer.toList)).bind fun text =>
    ((text.splitOn "/").drop 1).foldlM (fun j name => stepInto j (String.ofList (unescape name.toList))) root

/-- The part of a value, nested less deeply than the fuel, that has a name of its own. -/
def anchoredWithin (name : String) : Nat → Json → Option Json
  | 0, _ => none
  | fuel + 1, j =>
    match j with
    | .obj ms =>
      if ms.lookup "$anchor" = some (.str name) then some j
      else ms.findSome? fun m => anchoredWithin name fuel m.2
    | .arr items => items.findSome? (anchoredWithin name fuel)
    | _ => none

/-- The place that a reference leads to. -/
def target (root : Json) (reference : String) : Except ReferenceFault Json :=
  match reference.toList with
  | [] => .ok root
  | ['#'] => .ok root
  | '#' :: '/' :: rest =>
    let pointer := String.ofList ('/' :: rest)
    match follow root pointer with
    | some j => .ok j
    | none => .error (.noPlace pointer)
  | '#' :: name =>
    match anchoredWithin (String.ofList name) (root.depth + 1) root with
    | some j => .ok j
    | none => .error (.noAnchor (String.ofList name))
  | other => .error (.elsewhere ("json-schema:///" ++ String.ofList (other.takeWhile (· != '#'))))

end Schema

end Stencil
