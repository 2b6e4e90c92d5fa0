import Stencil.Cli.Style
import Stencil.Session
import Stencil.Template.Render

/-!
# The console

A command works on a session and prints. What it printed before a failure stays printed.
-/

namespace Stencil.Cli

/-- A session and what was printed so far. -/
structure Console where
  session : Session Unit
  printed : String

/-- What a command works with. -/
structure Bench where
  /-- The sets in the folder. -/
  folder : Catalog Console
  /-- The sets in the store. -/
  sets : StoredSets Console
  /-- The terminal shows colors. -/
  color : Bool
  /-- What comes from the standard input. -/
  input : List UInt8
  /-- The identifier for parameters that have none. -/
  fresh : String

namespace Console

def sessionPart : Lens Console (Session Unit) := ⟨(·.session), fun x c => { c with session := x }⟩

def filesPart : Lens Console Files := sessionPart.comp Session.filesPart

/-- Prints a line. -/
def printLine (text : String) : Op Console Unit := modify fun c => { c with printed := c.printed ++ text ++ "\n" }

/-- Prints a value. -/
def printJson (pretty : Bool) (j : Json) : Op Console Unit :=
  printLine (if pretty then j.pretty else j.toText)

end Console

namespace Bench

/-- The catalog that a command asks for. -/
def catalog (b : Bench) (stored : Bool) : Catalog Console := if stored then b.sets.catalog else b.folder

/-- The path stands for the standard input. -/
def isInput (path : String) : Bool :=
  !Path.isAbsolute path && (match Path.names path with
    | first :: rest => first == "-" && rest.all (· == ".")
    | [] => false)

/-- The text of the parameters: a file, or the standard input. -/
def paramsText (b : Bench) (path : String) : Op Console String := do
  if isInput path then
    match Text.ofBytes? b.input with
    | some text => return text
    | none => throw (.context "Failed to read parameters from stdin" (.io .notText))
  else
    match (← Op.view Console.filesPart).readText path with
    | .ok text => return text
    | .error e => throw (.context ("Failed to read parameters file: " ++ path) (.io e))

/-- The parameters; without a path, and if their text is blank, there are none. -/
def readParams (b : Bench) (path : Option String) : Op Console Json := do
  match path with
  | none => return .obj []
  | some path =>
    let text ← b.paramsText path
    if Text.isBlankText text then return .obj []
    match Json.ofText text with
    | .ok j => return j
    | .error e => throw (.context "Parameters are not valid JSON" (.json e))

end Bench

end Stencil.Cli
