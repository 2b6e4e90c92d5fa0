import Stencil.Text.Blank
import Stencil.Text.Pieces

/-!
# Command line arguments

Arguments are read level by level: the options of the program, then the name of a command, then the
options and operands of the command. Some options are common to all levels. An option that takes a
value gets it from the same argument or from the next one; its value is looked at when the next
option or operand comes, so an option that nobody knows is the first thing to be complained about.
-/

namespace Stencil.Cli

/-- What is wrong with arguments, or what they ask for instead of a command. -/
inductive UsageFault where
  | help
  | version
  /-- There are no arguments at all. -/
  | nothing
  | missingCommand
  | unknownCommand
  | unknownArgument
  | missingOperand
  /-- An option has a value that it cannot have, or no value. -/
  | badValue
  /-- An option that takes no value has one. -/
  | needlessValue
  /-- An option occurs twice, or along with one that excludes it. -/
  | conflict
deriving DecidableEq, Repr

/-- The values that an option can have. -/
inductive ValueKind where
  | text
  /-- A path, which is not empty. -/
  | path
  | oneOf (values : List String)
deriving DecidableEq, Repr

/-- The value is one that an option can have. -/
def ValueKind.admits : ValueKind → String → Bool
  | .text, _ => true
  | .path, v => !v.isEmpty
  | .oneOf values, v => values.contains v

/-- An option. -/
structure OptionSpec where
  name : String
  /-- The letter that stands for it. -/
  letter : Option Char
  /-- The values it can have; none for an option that is given or not. -/
  value : Option ValueKind
deriving DecidableEq, Repr

/-- How many operands a command takes. -/
inductive Operands where
  | none | one | some
deriving DecidableEq, Repr

/-- What can be given at one level. -/
structure Level where
  options : List OptionSpec
  operands : Operands
  /-- The names of the commands that can follow; none at the level of a command. -/
  commands : List String

/-- What was given at one level. -/
structure Given where
  /-- The options with their values; an option without one has the empty text. -/
  options : List (String × String)
  operands : List String
  /-- The option that waits for its value, or whose value was not looked at yet. -/
  pending : Option (OptionSpec × Option String)
  /-- The last argument was an option that waits for its value. -/
  waiting : Bool
  /-- All further arguments are operands. -/
  operandsOnly : Bool

namespace Given

def empty : Given := ⟨[], [], none, false, false⟩

/-- The option was given. -/
def has (g : Given) (name : String) : Bool := (g.options.lookup name).isSome

/-- The value of an option. -/
def value? (g : Given) (name : String) : Option String := g.options.lookup name

/-- Takes over an option. -/
def add (g : Given) (o : OptionSpec) (value : String) : Except UsageFault Given :=
  if g.has o.name then .error .conflict
  else if o.value.all (·.admits value) then .ok { g with options := g.options ++ [(o.name, value)] }
  else .error .badValue

/-- Looks at the option that is pending. -/
def settle (g : Given) : Except UsageFault Given :=
  match g.pending with
  | none => .ok g
  | some (_, none) => .error .badValue
  | some (o, some value) => ({ g with pending := none, waiting := false } : Given).add o value

end Given

/-- What an argument begins with. -/
inductive Shape where
  | separator
  /-- An option by its name, perhaps with a value. -/
  | long (name : String) (value : Option String)
  /-- Options by their letters. -/
  | letters (cs : List Char)
  | plain
deriving DecidableEq, Repr

/-- The shape of an argument. -/
def Shape.of (a : String) : Shape :=
  match a.toList with
  | ['-', '-'] => .separator
  | '-' :: '-' :: rest =>
    match Text.splitAtMost '=' 1 rest with
    | [name, value] => .long (String.ofList name) (some (String.ofList value))
    | _ => .long (String.ofList rest) none
  | '-' :: c :: rest => .letters (c :: rest)
  | _ => .plain

namespace Level

/-- The option that asks for help. -/
def helpOption : OptionSpec := ⟨"help", some 'h', none⟩

/-- The option that asks for the version. -/
def versionOption : OptionSpec := ⟨"version", some 'V', none⟩

/-- The level is that of the program. -/
def isTop (l : Level) : Bool := !l.commands.isEmpty

/-- All options, with those that ask for something else. -/
def allOptions (l : Level) : List OptionSpec :=
  l.options ++ helpOption :: (if l.isTop then [versionOption] else [])

/-- Takes an option that has no value. -/
def takeSwitch (g : Given) (o : OptionSpec) : Except UsageFault Given := do
  let g ← g.settle
  if o.name = helpOption.name then .error .help
  else if o.name = versionOption.name then .error .version
  else g.add o ""

/-- Takes an option whose value stands in the same argument. -/
def takeValued (g : Given) (o : OptionSpec) (value : String) : Except UsageFault Given := do
  (← g.settle).add o value

/-- Takes an option whose value is the next argument. -/
def await (g : Given) (o : OptionSpec) : Except UsageFault Given := do
  return { ← g.settle with pending := some (o, none), waiting := true }

/-- Takes an option by its name. -/
def takeLong (l : Level) (g : Given) (name : String) (value : Option String) : Except UsageFault Given :=
  match l.allOptions.find? fun o => o.name == name with
  | none => .error .unknownArgument
  | some o =>
    match o.value, value with
    | none, none => takeSwitch g o
    | none, some _ => .error .needlessValue
    | some _, some v => takeValued g o v
    | some _, none => await g o

/-- Takes options by their letters; what stands behind the letter of an option with a value is the
value, perhaps behind an equals sign. -/
def takeLetters (l : Level) (g : Given) : List Char → Except UsageFault Given
  | [] => .ok g
  | c :: rest =>
    match l.allOptions.find? fun o => o.letter == some c with
    | none => .error .unknownArgument
    | some o =>
      if o.value.isNone then (takeSwitch g o).bind fun g => takeLetters l g rest
      else
        match rest with
        | [] => await g o
        | '=' :: value => takeValued g o (String.ofList value)
        | value => takeValued g o (String.ofList value)

/-- Takes an operand. -/
def takeOperand (l : Level) (g : Given) (a : String) : Except UsageFault Given :=
  match l.operands, g.operands with
  | .none, _ =>
    if l.isTop && !(g.operandsOnly && l.commands.contains a) then .error .unknownCommand
    else .error .unknownArgument
  | .one, _ :: _ => .error .unknownArgument
  | _, before => g.settle.map fun g => { g with operands := before ++ [a] }

/-- Takes an argument. -/
def take (l : Level) (g : Given) (a : String) : Except UsageFault Given :=
  if g.operandsOnly then l.takeOperand g a
  else
    match Shape.of a with
    | .separator => .ok { g with operandsOnly := true }
    | .long name value => l.takeLong { g with waiting := false } name value
    | .letters cs => l.takeLetters { g with waiting := false } cs
    | .plain =>
      match g.waiting, g.pending with
      | true, some (o, none) => .ok { g with pending := some (o, some a), waiting := false }
      | _, _ => l.takeOperand g a

/-- The word that asks for help about a command. -/
def helpCommand : String := "help"

/-- What a request for help comes to: help, if it is about a command. -/
def helpAbout (l : Level) : List String → UsageFault
  | [] => .help
  | [a] => if l.commands.contains a || a == helpCommand then .help else .unknownCommand
  | _ => .unknownCommand

/-- The argument is the name of a command here. -/
def names (l : Level) (g : Given) (a : String) : Bool :=
  !g.operandsOnly && !g.waiting && (l.commands.contains a || (l.isTop && a == helpCommand))

/-- Takes arguments up to the name of a command, and tells which one it is and what follows. -/
def takeAll (l : Level) (g : Given) : List String → Except UsageFault (Given × Option (String × List String))
  | [] => .ok (g, none)
  | a :: rest =>
    if l.names g a then
      if a = helpCommand then .error (l.helpAbout rest) else .ok (g, some (a, rest))
    else (l.take g a).bind fun g => takeAll l g rest

end Level

end Stencil.Cli
