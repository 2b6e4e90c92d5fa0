import Stencil.Json.Printer

/-!
# Values, as a schema sees them

A schema asks whether two values are equal, what type a value has, and how large it is. What is
wrong with a value is an `Issue`: a place in the value, and a message.
-/

namespace Stencil

namespace Schema

/-- One thing that is wrong with a value. -/
structure Issue where
  /-- Where: the names and indices that lead to the place, each behind a slash. -/
  path : String
  message : String
deriving DecidableEq, Repr

/-- The issue on one line. -/
def Issue.display (i : Issue) : String :=
  if i.path.isEmpty then i.message else i.path ++ ": " ++ i.message

/-- A place in a value: the names and indices that lead to it, the last one first. -/
abbrev Path := List String

/-- A name within a path. -/
def escapeStep (step : String) : List Char :=
  step.toList.flatMap fun c => if c = '~' then ['~', '0'] else if c = '/' then ['~', '1'] else [c]

/-- The text of a path. -/
def Path.text (p : Path) : String :=
  String.ofList (p.reverse.flatMap fun step => '/' :: escapeStep step)

/-- An issue at a place. -/
def issue (path : Path) (message : String) : Issue := ⟨Path.text path, message⟩

mutual

/-- Two values are equal: numbers by value, members in the same order. -/
def equal : Json → Json → Bool
  | .num a, .num b => a.compare b == .eq
  | .arr a, .arr b => equalItems a b
  | .obj a, .obj b => equalMembers a b
  | .null, .null => true
  | .bool a, .bool b => a == b
  | .str a, .str b => a == b
  | _, _ => false

/-- Two lists of values are equal. -/
def equalItems : List Json → List Json → Bool
  | [], [] => true
  | a :: as, b :: bs => equal a b && equalItems as bs
  | _, _ => false

/-- Two lists of members are equal. -/
def equalMembers : List (String × Json) → List (String × Json) → Bool
  | [], [] => true
  | (k, a) :: as, (l, b) :: bs => k == l && equal a b && equalMembers as bs
  | _, _ => false

end

/-- The value has the type of a name. Numbers without a fraction are integers. -/
def hasType (type : String) : Json → Bool
  | .null => type == "null"
  | .bool _ => type == "boolean"
  | .num n => type == "number" || (type == "integer" && n.isIntegral)
  | .str _ => type == "string"
  | .arr _ => type == "array"
  | .obj _ => type == "object"

/-- The text of a value, for a message. -/
def shown (j : Json) : String := j.toText

/-- A name in the quotes of a message. -/
def inQuotes (s : String) : String := "\"" ++ s ++ "\""

/-- The complaint that a value has none of some types. -/
def wrongType (types : List String) (j : Json) : String :=
  match types.mergeSort (fun a b => a ≤ b) with
  | [t] => shown j ++ " is not of type " ++ inQuotes t
  | ts => shown j ++ " is not of types " ++ ", ".intercalate (ts.map inQuotes)

/-- The names of types that a keyword lists. -/
def typeNames : Json → List String
  | .str t => [t]
  | .arr ts => ts.filterMap Json.text?
  | _ => []

/-- The count that a limit stands for. -/
def count? : Json → Option Nat
  | .num (.int i) => if 0 ≤ i then some i.toNat else none
  | .num (.float x) => if x.isInteger && !x.negative then some (x.ratio.1 / x.ratio.2) else none
  | _ => none

/-- A number with a word, the word in the plural unless the number is one. -/
def counted (n : Nat) (one many : String) : String := toString n ++ " " ++ (if n = 1 then one else many)

/-- The number is a multiple of a divisor. Of a divisor with a fraction, what counts is the rest of
the rounded quotient, which for a quotient below zero is never too large. -/
def isMultiple (n divisor : Number) : Bool :=
  let x := n.toBinary
  let d := divisor.toBinary
  let (a, b) := x.ratio
  let (c, e) := d.ratio
  if d.isInteger then x.isInteger && (a * e) % (b * c) == 0
  else
    match x.div d with
    | some q =>
      let (p, r) := q.ratio
      q.negative || (p % r) * Nat.pow 2 52 < r
    | none => (a * e) % (b * c) == 0

/-- No two items are equal. -/
def allDistinct : List Json → Bool
  | [] => true
  | j :: js => js.all (fun k => !equal j k) && allDistinct js

/-- The issue of a limit on a number. -/
def limitIssue (path : Path) (value limit : Json) (broken : Ordering → Bool) (complaint : String) :
    List Issue :=
  match value, limit with
  | .num n, .num m =>
    if broken (n.compare m) then [issue path (shown value ++ " is " ++ complaint ++ " of " ++ shown limit)]
    else []
  | _, _ => []

/-- The issue of a limit on a size. -/
def sizeIssue (path : Path) (value limit : Json) (size : Option Nat) (atLeast : Bool)
    (few many one several : String) : List Issue :=
  match size, count? limit with
  | some n, some m =>
    if (if atLeast then n < m else m < n) then
      [issue path (shown value ++ (if atLeast then few else many) ++ counted m one several)]
    else []
  | _, _ => []

def lengthOf : Json → Option Nat
  | .str s => some s.length
  | _ => none

def itemCount : Json → Option Nat
  | .arr items => some items.length
  | _ => none

def memberCount : Json → Option Nat
  | .obj ms => some ms.length
  | _ => none

/-- The complaint that a member is missing. -/
def missing (path : Path) (name : String) : Issue :=
  issue path (String.ofList (Json.quote name) ++ " is a required property")

/-- The complaint about parts that are not allowed, if there are any; `what` says what they are. -/
def unexpected (path : Path) (what : String) (names : List String) : List Issue :=
  if names.isEmpty then []
  else
    [issue path (what ++ " are not allowed (" ++ ", ".intercalate (names.map fun n => "'" ++ n ++ "'") ++
      (if names.length = 1 then " was" else " were") ++ " unexpected)")]

end Schema

end Stencil
