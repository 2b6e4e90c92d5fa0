import Stencil.Cli.Arguments

/-!
# Requests

A request is what a command line asks for: one of the commands with its options, and the options
that all commands have in common. `Invocation.read` reads it from the arguments. An option that is
common may stand before or behind the name of the command; the one behind it counts.
-/

namespace Stencil.Cli

/-- The commands with their options. -/
inductive Request where
  /-- The templates, or those of a set. -/
  | list (set : Option String) (stored detailed asJson : Bool)
  /-- The schema of a template. -/
  | schema (template : String) (stored : Bool)
  /-- Checks parameters against a template. -/
  | validate (template : String) (params : Option String) (stored asJson : Bool)
  /-- Fills in a template. -/
  | render (template : String) (params : Option String) (pretty strict stored : Bool) (output : Option String)
  /-- The sets of the folder and of the store. -/
  | sets (asJson : Bool)
  /-- Copies sets from the folder into the store. -/
  | upload (sets : List String)
  /-- Removes a set from the store. -/
  | remove (set : String)
deriving DecidableEq, Repr

/-- A request with the options that all commands have in common. -/
structure Invocation where
  request : Request
  verbose : Bool
  quiet : Bool
  settings : Option String
  templates : Option String
deriving DecidableEq, Repr

namespace Invocation

/-- The options that all commands have in common. -/
def common : List OptionSpec :=
  [⟨"verbose", some 'v', none⟩, ⟨"quiet", some 'q', none⟩, ⟨"config", none, some .path⟩,
   ⟨"templates-dir", none, some .path⟩]

def stored : OptionSpec := ⟨"store", none, none⟩
def params : OptionSpec := ⟨"params", some 'p', some .path⟩
def format (values : List String) : OptionSpec := ⟨"format", none, some (.oneOf values)⟩

/-- The commands with their own options and their operands. -/
def commands : List (String × List OptionSpec × Operands) :=
  [("list", [⟨"set", none, some .text⟩, stored, ⟨"detailed", some 'd', none⟩, format ["table", "json"]], .none),
   ("schema", [stored], .one),
   ("validate", [params, stored, format ["text", "json"]], .one),
   ("render", [params, ⟨"pretty", none, none⟩, ⟨"strict", none, none⟩, stored, ⟨"output", some 'o', some .path⟩], .one),
   ("sets", [format ["table", "json"]], .none),
   ("upload", [], .some),
   ("remove", [], .one)]

/-- The level of the program. -/
def top : Level := ⟨common, .none, commands.map (·.1)⟩

/-- Refuses options that exclude each other. -/
def checkConflicts (g : Given) : Except UsageFault Unit :=
  if g.has "verbose" && g.has "quiet" then .error .conflict else .ok ()

/-- The request that a command makes of what was given. -/
def requestOf (name : String) (g : Given) : Except UsageFault Request :=
  let asJson := g.value? "format" == some "json"
  let stored := g.has "store"
  match name, g.operands with
  | "list", _ => .ok (.list (g.value? "set") stored (g.has "detailed") asJson)
  | "sets", _ => .ok (.sets asJson)
  | "schema", [t] => .ok (.schema t stored)
  | "validate", [t] => .ok (.validate t (g.value? "params") stored asJson)
  | "render", [t] =>
    .ok (.render t (g.value? "params") (g.has "pretty") (g.has "strict") stored (g.value? "output"))
  | "upload", s :: rest => .ok (.upload (s :: rest))
  | "remove", [s] => .ok (.remove s)
  | _, _ => .error .missingOperand

/-- Reads what follows the name of a command. -/
def readCommand (name : String) (args : List String) : Except UsageFault (Given × Request) := do
  let (options, operands) := (commands.lookup name).getD ([], .none)
  let (g, _) ← (Level.mk (options ++ common) operands []).takeAll .empty args
  let g ← g.settle
  checkConflicts g
  return (g, ← requestOf name g)

/-- Reads the arguments of the program. -/
def read (args : List String) : Except UsageFault Invocation := do
  let (outer, command) ← top.takeAll .empty args
  match command with
  | none =>
    let outer ← outer.settle
    .error (if outer.options.isEmpty then .nothing else .missingCommand)
  | some (name, rest) =>
    let (inner, request) ← readCommand name rest
    let outer ← outer.settle
    checkConflicts outer
    return {
      request
      verbose := inner.has "verbose" || outer.has "verbose"
      quiet := inner.has "quiet" || outer.has "quiet"
      settings := (inner.value? "config").or (outer.value? "config")
      templates := (inner.value? "templates-dir").or (outer.value? "templates-dir") }

end Invocation

end Stencil.Cli
