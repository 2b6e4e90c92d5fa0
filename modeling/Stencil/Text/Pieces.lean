/-!
# Pieces of texts

Looking for a text within another one, cutting a text at a separator, and joining what was cut.
-/

namespace Stencil.Text

/-- The text behind a beginning that it has. -/
def after? : List Char → List Char → Option (List Char)
  | [], s => some s
  | c :: cs, d :: s => if c = d then after? cs s else none
  | _ :: _, [] => none

/-- A text occurs in another one. -/
def occursIn (part : List Char) : List Char → Bool
  | [] => part.isEmpty
  | c :: rest => part.isPrefixOf (c :: rest) || occursIn part rest

/-- The pieces of a text between the occurrences of a separator, at most `limit + 1` of them: the
last piece keeps the separators that are left. -/
def splitAtMost (sep : Char) : Nat → List Char → List (List Char)
  | 0, s => [s]
  | limit + 1, s =>
    match s.dropWhile (· != sep) with
    | [] => [s]
    | _ :: rest => s.takeWhile (· != sep) :: splitAtMost sep limit rest

/-- The pieces of a text between all occurrences of a separator. -/
def splitAll (sep : Char) (s : List Char) : List (List Char) :=
  splitAtMost sep (s.count sep) s

/-- Joins texts with a separator between neighbours. -/
def joinWith (sep : String) (parts : List String) : String := sep.intercalate parts

/-- The text before the first line feed, without a carriage return in front of the line feed; all of
a text that has no line feed. -/
def firstLine (s : String) : String :=
  let line := s.toList.takeWhile (· != '\n')
  if line.getLast? = some '\r' && s.toList.contains '\n' then String.ofList line.dropLast
  else String.ofList line

/-- The rows of a text: each ends at a line feed, and a line feed at the very end opens no further row. -/
def rows (s : String) : List String :=
  let pieces := splitAll '\n' s.toList
  (if pieces.getLast? = some [] then pieces.dropLast else pieces).map String.ofList

end Stencil.Text
