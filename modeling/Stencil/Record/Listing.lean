import Stencil.Record.Basic

/-!
# Records in listings

The appliance shows a collection as text, and is given a new one as text. In both, a record is a
name, an opening brace, the word `data`, the data with or without quotes, and a closing brace.
`Record.ofListing` finds all such records and passes over everything else.
-/

namespace Stencil

namespace Record

/-- The characters of a record name. -/
def isNameChar (c : Char) : Bool := c.isAlphanum || c == '_' || c == '.' || c == '-' || c == '/'

/-- The characters of record data. -/
def isDataChar (c : Char) : Bool := c.isAlphanum || c == '+' || c == '/' || c == '='

/-- Drops one quote. -/
def dropQuote : List Char → List Char
  | '"' :: rest => rest
  | rest => rest

/-- Takes one blank or more. -/
def dropBlanks (s : List Char) : Option (List Char) :=
  match s with
  | c :: _ => if Text.isBlank c then some (Text.trimStart s) else none
  | [] => none

/-- Reads what stands behind the name of a record, and gives the data and the text behind it. -/
def entryBody (s : List Char) : Option (List Char × List Char) := do
  let s ← Text.after? ['{'] (Text.trimStart s)
  let s ← Text.after? ['d', 'a', 't', 'a'] (Text.trimStart s)
  let s ← dropBlanks s
  let s := dropQuote s
  let data := s.takeWhile isDataChar
  let s := dropQuote (s.dropWhile isDataChar)
  let s ← Text.after? ['}'] (Text.trimStart s)
  some (data, s)

/-- Finds records; `found` holds those found, the last one first. -/
def listingFrom : Nat → List Record → List Char → List Record
  | 0, found, _ => found.reverse
  | fuel + 1, found, s =>
    match s.dropWhile fun c => !isNameChar c with
    | [] => found.reverse
    | c :: rest =>
      let name := c :: rest.takeWhile isNameChar
      let rest := rest.dropWhile isNameChar
      match entryBody rest with
      | some (data, rest) => listingFrom fuel (⟨String.ofList name, String.ofList data⟩ :: found) rest
      | none => listingFrom fuel found rest

/-- The records of a listing, in order. -/
def ofListing (listing : String) : List Record :=
  let s := listing.toList
  listingFrom (s.length + 1) [] s

/-- The record as it is given to the appliance. -/
def entryText (r : Record) : List Char :=
  r.name.toList ++ " \x7b data \"".toList ++ r.data.toList ++ "\" \x7d".toList

end Record

end Stencil
