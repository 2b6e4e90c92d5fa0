import Stencil.Store.Appliance

/-!
# A simulated appliance

Understands the commands that the store sends, with listings and complaints like those of an
appliance. Failures can be arranged in advance, and all commands are kept.
-/

namespace Stencil

/-- The state of a simulated appliance. -/
structure Appliance where
  folders : NameSet
  /-- The collections by their paths. -/
  groups : NameMap (List Record)
  /-- The commands received, the last one first. -/
  received : List String
  /-- How commands begin that fail, with what the appliance says about them. -/
  failures : List (String × String)
  /-- How often the configuration was saved. -/
  saves : Nat
deriving Inhabited

namespace Appliance

/-- A fresh appliance. -/
def empty : Appliance := ⟨[], [], [], [], 0⟩

/-- The commands received, in order. -/
def commands (a : Appliance) : List String := a.received.reverse

/-- The records of a collection. -/
def records (a : Appliance) (path : String) : List Record := (NameMap.get? a.groups path).getD []

/-- Makes the commands that begin in some way fail. -/
def failOn (a : Appliance) (beginning output : String) : Appliance :=
  { a with failures := a.failures ++ [(beginning, output)] }

/-- How much of a command a failure shows. -/
def shownLength : Nat := 80

/-- A command that fails. -/
def fail {α : Type} (command : List Char) (output : String) : Op Appliance α :=
  Op.fail (.commandFailed (String.ofList (command.take shownLength)) output)

/-- One record of a listing. -/
def recordListing (r : Record) : List Char :=
  "        ".toList ++ r.name.toList ++ " \x7b\n            data ".toList ++ r.data.toList ++
    "\n        \x7d\n".toList

/-- The records of a listing. -/
def recordsListing : List Record → List Char
  | [] => []
  | rs => "    records \x7b\n".toList ++ rs.flatMap recordListing ++ "    \x7d\n".toList

/-- The listing of a collection. -/
def listing (path : String) (rs : List Record) : String :=
  String.ofList ("ltm data-group internal ".toList ++ path.toList ++ " \x7b\n".toList ++
    recordsListing rs ++ "    type string\n\x7d\n".toList)

/-- The path of the folder that a path lies in. -/
def folderOf (path : List Char) : String :=
  String.ofList (path.reverse.dropWhile (· != '/')).reverse

def missing (path : String) : String :=
  "01020036:3: The requested value list (" ++ path ++ ") was not found."

/-- Creates a folder. -/
def createFolder (command rest : List Char) : Op Appliance String := do
  let folder := String.ofList (Text.trim rest)
  if (← get).folders.contains folder then
    fail command ("01020066:3: The requested folder (" ++ folder ++ ") already exists in partition Common.")
  else
    modify fun a => { a with folders := NameSet.insert a.folders folder }
    pure ""

/-- Creates a collection. -/
def createGroup (command rest : List Char) : Op Appliance String := do
  let path := String.ofList (Text.firstWord rest)
  let folder := folderOf path.toList
  let a ← get
  if !a.folders.contains folder then
    fail command ("01020036:3: The requested folder (" ++ folder ++ ") was not found.")
  else if NameMap.has a.groups path then
    fail command ("01020066:3: The requested value list (" ++ path ++ ") already exists in partition Common.")
  else
    modify fun a => { a with groups := NameMap.insert a.groups path [] }
    pure ""

/-- Lists a collection. -/
def listGroup (command rest : List Char) : Op Appliance String := do
  let path := String.ofList (Text.firstWord rest)
  match NameMap.get? (← get).groups path with
  | some rs => pure (listing path rs)
  | none => fail command (missing path)

/-- The records that a command gives. -/
def recordsGiven (body : List Char) : List Record :=
  if Text.trim body = "records none".toList then [] else Record.ofListing (String.ofList body)

/-- Replaces the records of a collection. -/
def modifyGroup (command rest : List Char) : Op Appliance String := do
  let rest := Text.trimStart rest
  let path := String.ofList (Text.firstWord rest)
  if NameMap.has (← get).groups path then
    let given := recordsGiven (rest.drop path.length)
    modify fun a => { a with groups := NameMap.insert a.groups path given }
    pure ""
  else fail command (missing path)

/-- Saves the configuration, or refuses a command that is not known. -/
def saveOrRefuse (command : List Char) : Op Appliance String := do
  if Text.trim command = ApplianceStore.save.toList then
    modify fun a => { a with saves := a.saves + 1 }
    pure "Saving running configuration..."
  else fail command "Syntax Error: unexpected command"

/-- The commands that begin in a fixed way. -/
def verbs : List (String × (List Char → List Char → Op Appliance String)) :=
  [("create sys folder ", createFolder), ("create ltm data-group internal ", createGroup),
   ("list ltm data-group internal ", listGroup), ("modify ltm data-group internal ", modifyGroup)]

/-- Carries out a command. -/
def carryOut (command : List Char) : Op Appliance String :=
  match verbs.findSome? fun v => (Text.after? v.1.toList command).map (v.2 command) with
  | some op => op
  | none => saveOrRefuse command

/-- The shell of the appliance. -/
def execute (command : String) : Op Appliance String := do
  modify fun a => { a with received := command :: a.received }
  let cs := command.toList
  match (← get).failures.find? fun f => f.1.toList.isPrefixOf cs with
  | some (_, output) => fail cs output
  | none => carryOut cs

end Appliance

end Stencil
