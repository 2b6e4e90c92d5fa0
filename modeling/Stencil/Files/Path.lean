import Stencil.Text.Pieces

/-!
# Paths as text

A path is names with slashes between them. The functions here look at the text alone; where a path
leads is a matter of the files. A slash at the end, a doubled slash and the name `.` behind a slash
do not count as names.
-/

namespace Stencil.Path

/-- The names of a path: what stands between slashes, without empty names. -/
def names (path : String) : List String :=
  ((Text.splitAll '/' path.toList).filter fun piece => !piece.isEmpty).map String.ofList

/-- The path starts at the root. -/
def isAbsolute (path : String) : Bool := path.toList.head? == some '/'

/-- Drops what does not count at the end; the text is given from its end. -/
def dropEnd : List Char → List Char
  | '/' :: rest => dropEnd rest
  | '.' :: '/' :: rest => dropEnd ('/' :: rest)
  | rest => rest
termination_by s => s.length

/-- The path cut before its last name: what stands before it, and the name. -/
def cutLast (path : String) : List Char × List Char :=
  let core := dropEnd path.toList.reverse
  ((core.dropWhile (· != '/')).reverse, (core.takeWhile (· != '/')).reverse)

/-- The path of the directory that a path lies in; none for the root and for an empty path. -/
def parent? (path : String) : Option String :=
  match cutLast path with
  | (_, []) => none
  | (before, _) =>
    let core := (dropEnd before.reverse).reverse
    some (if core.isEmpty && !before.isEmpty then "/" else String.ofList core)

/-- The last name, unless it stands for a directory above or the one at hand. -/
def fileName? (path : String) : Option String :=
  match (cutLast path).2 with
  | [] => none
  | ['.'] => none
  | ['.', '.'] => none
  | name => some (String.ofList name)

/-- The last name cut at its last dot; a dot in front does not count. -/
def stemAndExtension (name : String) : String × Option String :=
  let reversed := name.toList.reverse
  let extension := (reversed.takeWhile (· != '.')).reverse
  match reversed.dropWhile (· != '.') with
  | '.' :: [] => (name, none)
  | '.' :: stem => (String.ofList stem.reverse, some (String.ofList extension))
  | _ => (name, none)

/-- The path with another extension for its last name. -/
def withExtension (path extension : String) : String :=
  match fileName? path with
  | none => path
  | some name =>
    String.ofList (cutLast path).1 ++ (stemAndExtension name).1 ++ "." ++ extension

/-- The path of something in a directory. -/
def join (directory path : String) : String :=
  if isAbsolute path || directory.isEmpty then path
  else if directory.toList.getLast? == some '/' then directory ++ path
  else directory ++ "/" ++ path

end Stencil.Path
