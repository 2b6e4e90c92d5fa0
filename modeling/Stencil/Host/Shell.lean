import Stencil.Host.Run
import Stencil.Store.Appliance

/-!
# Command shells on the host

A host shell gives each command to a program of the host as its input, and answers what the program
prints. The command fails if the program cannot be started, ends with a status other than zero or by
a signal, or takes too long; what it complained about is the reason then, or what it printed if it
did not complain.
-/

namespace Stencil

/-- A program that commands are given to. -/
structure HostShell where
  program : String
  arguments : List String
  /-- How many milliseconds a command may take. -/
  timeout : Nat
deriving DecidableEq, Repr

namespace HostShell

/-- The program that understands the commands of an appliance. -/
def defaultProgram : String := "tmsh"

/-- How many milliseconds a command may take if nothing else is said. -/
def defaultTimeout : Nat := 60000

/-- How many bytes of a command a message shows. -/
def shownBytes : Nat := 120

/-- The characters of a text that fit into a number of bytes. -/
def fitting : Nat → List Char → List Char
  | _, [] => []
  | room, c :: rest => if c.utf8Size ≤ room then c :: fitting (room - c.utf8Size) rest else []

/-- The first line of a command, shortened for messages. -/
def summary (command : String) : String :=
  let line := Text.firstLine command
  if line.utf8ByteSize ≤ shownBytes then line
  else String.ofList (fitting shownBytes line.toList) ++ "..."

/-- Lets a program of the host run to its end. -/
def launch (files : Files) (program : String) (arguments : List String) (input : List UInt8) :
    Except IoFault Process :=
  let name := Tool.nameOf program
  let p := Process.start files input
  if (program :: arguments).any fun a => a.toList.contains '\x00' then
    .error (.other "nul byte found in provided data")
  else if name = "sh" then
    let fuel := (arguments.map String.length).foldl (· + ·) 0 + input.length + 1000
    .ok (Process.runShell fuel ⟨.output, .messages⟩ p program arguments)
  else
    match Tool.all.lookup name with
    | some tool => .ok (p.absorb ⟨.output, .messages⟩ (tool arguments files input))
    | none =>
      if program.toList.contains '/' then
        match files.lookup program with
        | .error e => .error e
        | .ok _ => .error .denied
      else .error .missing

/-- The time that a program took, as far as somebody waits for it. -/
def timeOf (p : Process) : Nat := if Process.pipeCapacity < p.input.length then 0 else p.millis

/-- The answer of a program that ran to its end. -/
def answerOf (sh : HostShell) (command : String) (p : Process) : Except Fault String :=
  if sh.timeout < timeOf p then
    .error (.problem (.commandFailed (summary command)
      ("timed out after " ++ toString (sh.timeout / 1000) ++ " seconds")))
  else
    let printed := Text.ofBytesLossy p.printed
    if p.status = 0 ∧ p.ending ≠ some .killed then .ok printed
    else
      let complained := Text.ofBytesLossy p.complained
      .error (.problem (.commandFailed (summary command)
        (if Text.isBlankText complained then printed else complained)))

/-- The shell that gives commands to the program. -/
def run (sh : HostShell) : Shell Files := fun command => do
  match launch (← get) sh.program sh.arguments (Text.bytes command ++ [10]) with
  | .error e => throw (.context ("Failed to start '" ++ sh.program ++ "'") (.io e))
  | .ok p =>
    set p.files
    Op.ofExcept (sh.answerOf command p)

end HostShell

end Stencil
