import Stencil.Record.Basic

/-!
# Grouping records

A list of records holds several keys one after another, and only the names tell where one ends. A
record goes on with the current group if its name is the key with the next number. Any other record
opens a group: the last character of its name is its number if that is `0`, else all the digits at
the end of the name are. A record whose name ends in no number is left out. The program ends when a
record comes and the current group goes up to the last number there is (`RecordGroup.scan`).
-/

namespace Stencil

/-- The records of one key, numbered from `offset` on. -/
structure RecordGroup where
  key : String
  offset : Nat
  records : List Record
deriving DecidableEq, Repr

namespace Record

/-- The value of decimal digits. -/
def numberOf (ds : List Char) : Nat := ds.foldl (fun n c => n * 10 + (c.toNat - '0'.toNat)) 0

/-- The key and the number that a name consists of. -/
def splitName? (name : String) : Option (String × Nat) :=
  let s := name.toList
  if s.getLast? = some '0' then some (String.ofList s.dropLast, 0)
  else
    let ds := (s.reverse.takeWhile Char.isDigit).reverse
    let key := (s.reverse.dropWhile Char.isDigit).reverse
    if ds.isEmpty then none
    else if numberOf ds < indexLimit then some (String.ofList key, numberOf ds)
    else none

end Record

namespace RecordGroup

/-- The name of the record that goes on with a group. -/
def nextName (g : RecordGroup) : String :=
  Record.nameAt g.key (g.offset + g.records.length)

/-- The groups of records. `current` is the group that may go on, its records in order. -/
def groupFrom : Option RecordGroup → List Record → List RecordGroup
  | current, [] => current.toList
  | current, r :: rest =>
    match current with
    | some g =>
      if r.name = g.nextName then groupFrom (some { g with records := g.records ++ [r] }) rest
      else
        match Record.splitName? r.name with
        | some (key, offset) => g :: groupFrom (some ⟨key, offset, [r]⟩) rest
        | none => groupFrom (some g) rest
    | none =>
      match Record.splitName? r.name with
      | some (key, offset) => groupFrom (some ⟨key, offset, [r]⟩) rest
      | none => groupFrom none rest

/-- The groups of a list of records. -/
def group (records : List Record) : List RecordGroup := groupFrom none records

/-- The keys of a list of records, once for each group. -/
def keys (records : List Record) : List String := (group records).map (·.key)

/-- No number is left for one record more. -/
def Full (g : RecordGroup) : Prop := Record.indexLimit ≤ g.offset + g.records.length

instance (g : RecordGroup) : Decidable g.Full := by unfold Full; infer_instance

/-- The group that may go on behind a record. -/
def advance (current : Option RecordGroup) (r : Record) : Option RecordGroup :=
  match current with
  | some g =>
    if r.name = g.nextName then some { g with records := g.records ++ [r] }
    else some ((Record.splitName? r.name).elim g fun p => ⟨p.1, p.2, [r]⟩)
  | none => (Record.splitName? r.name).map fun p => ⟨p.1, p.2, [r]⟩

/-- A record comes when the current group is full. -/
def overflows : Option RecordGroup → List Record → Bool
  | _, [] => false
  | current, r :: rest => current.any (decide ·.Full) || overflows (advance current r) rest

/-- The groups of a list of records, unless the program ends. -/
def scan (records : List Record) : Except Fault (List RecordGroup) :=
  if overflows none records then .error .overflow else .ok (group records)

end RecordGroup

end Stencil
