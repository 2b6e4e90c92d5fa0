import Stencil.Cli.Request
import Stencil.NameMap

/-!
# What is logged

A log filter is a list of directives: a level for everything, or for what comes from a target. The
most specific one comes first. The options of the command line win over the environment, and an
environment that makes no sense counts as none.
-/

namespace Stencil.Cli

/-- A directive: a level for a target, or for everything. -/
structure Directive where
  target : Option String
  level : String
deriving DecidableEq, Repr

namespace Directive

/-- The levels from the least to the most talkative. -/
def levels : List String := ["off", "error", "warn", "info", "debug", "trace"]

/-- The level that a word or a digit names. -/
def level? (s : String) : Option String :=
  let lower := String.ofList (s.toList.map Char.toLower)
  if levels.contains lower then some lower else s.toNat?.bind fun n => levels[n]?

/-- A character of a target. -/
def isTargetChar (c : Char) : Bool := c.isAlphanum || "_-:".toList.contains c

/-- The directive that a text spells; a target alone is logged in full. -/
def read? (s : String) : Option Directive :=
  match Text.splitAll '=' s.toList with
  | [a] =>
    match level? (String.ofList a) with
    | some l => some ⟨none, l⟩
    | none => if a.all isTargetChar then some ⟨some (String.ofList a), "trace"⟩ else none
  | [a, b] =>
    if a.isEmpty || !a.all isTargetChar then none
    else (if b.isEmpty then some "trace" else level? (String.ofList b)).map fun l =>
      ⟨some (String.ofList a), l⟩
  | _ => none

/-- One directive comes before another: the one with the longer target, or the later name. -/
def comesBefore (a b : Directive) : Bool :=
  match a.target, b.target with
  | none, _ => false
  | some _, none => true
  | some s, some t => t.utf8ByteSize < s.utf8ByteSize || (t.utf8ByteSize == s.utf8ByteSize && decide (t < s))

/-- Puts a directive into its place; one for the same target goes. -/
def insert (d : Directive) : List Directive → List Directive
  | [] => [d]
  | e :: rest =>
    if d.target = e.target then d :: rest
    else if comesBefore d e then d :: e :: rest else e :: insert d rest

def text (d : Directive) : String :=
  match d.target with
  | some t => t ++ "=" ++ d.level
  | none => d.level

end Directive

/-- The filter that the environment asks for, if it makes sense. -/
def environmentFilter (s : String) : Option String :=
  let parts := (s.splitOn ",").filter (· != "")
  (parts.mapM Directive.read?).map fun ds =>
    if ds.isEmpty then "error"
    else Text.joinWith "," ((ds.foldl (fun acc d => d.insert acc) []).map Directive.text)

/-- The filter in force. -/
def Invocation.logFilter (i : Invocation) (environment : Option String) : String :=
  if i.verbose then "debug"
  else if i.quiet then "error"
  else (environment.bind environmentFilter).getD "warn"

end Stencil.Cli
