/-!
# Similar names

`Text.distance` counts the insertions, deletions and replacements of characters that turn one text
into another. `Text.similar` lists the names that are close to a wanted one, the closest first.
-/

namespace Stencil.Text

/-- One row of the table of distances: `left` is the entry just made, `diagonal` the one before it in
the row above. -/
def nextRow (c : Char) : Nat → Nat → List Char → List Nat → List Nat
  | left, diagonal, d :: ds, above :: rest =>
    let here := min (min (left + 1) (above + 1)) (if c = d then diagonal else diagonal + 1)
    here :: nextRow c here above ds rest
  | _, _, _, _ => []

/-- The row of distances of one more character of the first text. -/
def addChar (t : List Char) (row : List Nat) (c : Char) : List Nat :=
  match row with
  | [] => []
  | first :: rest => (first + 1) :: nextRow c (first + 1) first t rest

/-- The least number of insertions, deletions and replacements between two texts. -/
def distance (s t : List Char) : Nat :=
  (s.foldl (addChar t) (List.range (t.length + 1))).getLastD 0

/-- How many names are listed at most. -/
def maxSimilar : Nat := 3

/-- The names at a distance of at most half the bytes of the wanted one, the closest first, names at
the same distance in their order. -/
def similar (wanted : String) (names : List String) : List String :=
  let bound := wanted.utf8ByteSize * 50 / 100
  let rated := (names.map fun n => (distance wanted.toList n.toList, n)).filter fun r => r.1 ≤ bound
  ((rated.mergeSort fun a b => a.1 ≤ b.1).take maxSimilar).map (·.2)

end Stencil.Text
