import Stencil.Number.Shortest

/-!
# JSON values

A number keeps the way it was read: an integer of 64 bits, or a binary floating-point number. The
members of an object are a list, in the order in which they were put there; `Members` holds the
operations on it. An object that was read from text may name a member twice; `Json.merged` is the
value it stands for, where the first position and the last value of each name count.
-/

namespace Stencil

/-- A JSON number. -/
inductive Number where
  /-- An integer between `-2 ^ 63` and `2 ^ 64 - 1`. -/
  | int (i : Int)
  /-- Any other number. -/
  | float (x : Binary64)
deriving DecidableEq, Repr

namespace Number

/-- The number as a binary floating-point number. -/
def toBinary : Number → Binary64
  | .int i => Binary64.ofInt i
  | .float x => x

/-- The number is an integer, however it is written. -/
def isIntegral : Number → Bool
  | .int _ => true
  | .float x => x.isInteger

/-- The order of two numbers by value. -/
def compare : Number → Number → Ordering
  | .int i, .int j => Ord.compare i j
  | .int i, .float y => Binary64.compareInt i y
  | .float x, .int j => (Binary64.compareInt j x).swap
  | .float x, .float y => x.compare y

end Number

/-- A JSON value. -/
inductive Json where
  | null
  | bool (b : Bool)
  | num (n : Number)
  | str (s : String)
  | arr (items : List Json)
  | obj (members : List (String × Json))
deriving Inhabited

/-- The members of an object, in order. -/
abbrev Members := List (String × Json)

/-! ### Equality -/

mutual

/-- Two values are the same: the numbers written alike, the members in the same order. -/
def Json.same : Json → Json → Bool
  | .null, .null => true
  | .bool a, .bool b => a == b
  | .num a, .num b => a == b
  | .str a, .str b => a == b
  | .arr a, .arr b => Json.sameItems a b
  | .obj a, .obj b => Json.sameMembers a b
  | _, _ => false

/-- Two lists of values are the same. -/
def Json.sameItems : List Json → List Json → Bool
  | [], [] => true
  | a :: as, b :: bs => a.same b && Json.sameItems as bs
  | _, _ => false

/-- Two lists of members are the same. -/
def Json.sameMembers : List (String × Json) → List (String × Json) → Bool
  | [], [] => true
  | (k, a) :: as, (l, b) :: bs => k == l && a.same b && Json.sameMembers as bs
  | _, _ => false

end

mutual

theorem Json.same_iff : ∀ a b : Json, a.same b = true ↔ a = b
  | .arr a, b => by
    cases b <;> simp [Json.same]
    exact Json.sameItems_iff a _
  | .obj a, b => by
    cases b <;> simp [Json.same]
    exact Json.sameMembers_iff a _
  | .null, b => by cases b <;> simp [Json.same]
  | .bool _, b => by cases b <;> simp [Json.same]
  | .num _, b => by cases b <;> simp [Json.same]
  | .str _, b => by cases b <;> simp [Json.same]

theorem Json.sameItems_iff : ∀ a b : List Json, Json.sameItems a b = true ↔ a = b
  | [], b => by cases b <;> simp [Json.sameItems]
  | a :: as, b => by
    cases b with
    | nil => simp [Json.sameItems]
    | cons b bs => simp [Json.sameItems, Json.same_iff a b, Json.sameItems_iff as bs]

theorem Json.sameMembers_iff : ∀ a b : List (String × Json), Json.sameMembers a b = true ↔ a = b
  | [], b => by cases b <;> simp [Json.sameMembers]
  | (k, a) :: as, b => by
    cases b with
    | nil => simp [Json.sameMembers]
    | cons b bs =>
      obtain ⟨l, b⟩ := b
      simp [Json.sameMembers, Json.same_iff a b, Json.sameMembers_iff as bs]

end

instance : DecidableEq Json := fun a b => decidable_of_iff _ (Json.same_iff a b)

/-! ### Members -/

namespace Members

/-- The value of a member. -/
def get? (ms : Members) (name : String) : Option Json := ms.lookup name

/-- The object has a member of this name. -/
def has (ms : Members) (name : String) : Bool := ms.any (·.1 == name)

/-- The names, in order. -/
def names (ms : Members) : List String := ms.map (·.1)

/-- Gives a member a value: in its place if there is one, else behind all others. -/
def insert (ms : Members) (name : String) (value : Json) : Members :=
  if has ms name then ms.map fun m => if m.1 == name then (name, value) else m
  else ms ++ [(name, value)]

/-- The object without a member. -/
def erase (ms : Members) (name : String) : Members := ms.filter (·.1 != name)

/-- Inserts members one after another. -/
def insertAll (ms : Members) (more : Members) : Members :=
  more.foldl (fun acc m => insert acc m.1 m.2) ms

/-- No name occurs twice. -/
def Distinct (ms : Members) : Prop := (names ms).Nodup

end Members

namespace Json

/-- The members, if the value is an object. -/
def members? : Json → Option Members
  | .obj ms => some ms
  | _ => none

/-- The member of an object. -/
def get? (j : Json) (name : String) : Option Json := j.members?.bind fun ms => Members.get? ms name

/-- The text, if the value is a string. -/
def text? : Json → Option String
  | .str s => some s
  | _ => none

theorem text?_eq_some_iff {j : Json} {s : String} : j.text? = some s ↔ j = .str s := by
  cases j <;> simp [text?]

/-- The items, if the value is an array. -/
def items? : Json → Option (List Json)
  | .arr items => some items
  | _ => none

theorem items?_eq_some_iff {j : Json} {items : List Json} :
    j.items? = some items ↔ j = .arr items := by
  cases j <;> simp [items?]

def isNull : Json → Bool
  | .null => true
  | _ => false

/-- The name of the kind of a value. -/
def kindName : Json → String
  | .null => "null"
  | .bool _ => "boolean"
  | .num _ => "number"
  | .str _ => "string"
  | .arr _ => "array"
  | .obj _ => "object"

mutual

/-- The value with equal names merged in every object: the first position, the last value. -/
def merged : Json → Json
  | .arr items => .arr (mergedItems items)
  | .obj ms => .obj (Members.insertAll [] (mergedMembers ms))
  | j => j

/-- Merges inside each item. -/
def mergedItems : List Json → List Json
  | [] => []
  | j :: js => merged j :: mergedItems js

/-- Merges inside the value of each member. -/
def mergedMembers : List (String × Json) → List (String × Json)
  | [] => []
  | (k, j) :: ms => (k, merged j) :: mergedMembers ms

end

mutual

/-- How deep arrays and objects are nested. -/
def depth : Json → Nat
  | .arr items => depthItems items + 1
  | .obj ms => depthMembers ms + 1
  | _ => 0

/-- The depth of the deepest item. -/
def depthItems : List Json → Nat
  | [] => 0
  | j :: js => max (depth j) (depthItems js)

/-- The depth of the deepest member. -/
def depthMembers : List (String × Json) → Nat
  | [] => 0
  | (_, j) :: ms => max (depth j) (depthMembers ms)

end

mutual

/-- How many values there are in a value, itself included. -/
def size : Json → Nat
  | .arr items => sizeItems items + 1
  | .obj ms => sizeMembers ms + 1
  | _ => 1

/-- How many values there are in the items. -/
def sizeItems : List Json → Nat
  | [] => 0
  | j :: js => size j + sizeItems js

/-- How many values there are in the members. -/
def sizeMembers : List (String × Json) → Nat
  | [] => 0
  | (_, j) :: ms => size j + sizeMembers ms

end

end Json

end Stencil
