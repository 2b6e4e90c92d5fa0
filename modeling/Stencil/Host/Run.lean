import Stencil.Host.Script
import Stencil.Host.Tool
import Stencil.NameMap

/-!
# Running scripts

`Process.run` runs a script over the state of a process: its files, what is left of its input, its
variables, and what it has printed so far. Waiting is only counted. A process that ends early, by
`exit` or by a signal to itself, does nothing more.
-/

namespace Stencil

/-- How a process ends early. -/
inductive Ending where
  | exited
  /-- By a signal. -/
  | killed
deriving DecidableEq, Repr

/-- The state of a process. -/
structure Process where
  files : Files
  input : List UInt8
  /-- The variables with their values. -/
  bindings : NameMap String
  /-- The name of the script and its arguments. -/
  arguments : List String
  printed : List UInt8
  complained : List UInt8
  /-- What goes into the pipeline that is open. -/
  piped : List UInt8
  status : Nat
  ending : Option Ending
  /-- The time since all of the input was taken. -/
  millis : Nat
deriving Inhabited

/-- Where a stream goes. -/
inductive Target where
  | output | messages | pipe | nowhere
  | file (place : Place)
deriving DecidableEq

/-- Where the output and the messages of a command go. -/
structure Streams where
  output : Target
  messages : Target

namespace Process

/-- The number that a process sees as its own. -/
def ownNumber : String := "4242"

/-- How many bytes of input are taken without a reader. -/
def pipeCapacity : Nat := 65536

/-- The process whose input is not read yet; nobody waits for what fits. -/
def start (files : Files) (input : List UInt8) : Process :=
  ⟨files, input, [], [], [], [], [], 0, none, 0⟩

/-- The rest of the input; time counts from the moment when all of it is taken. -/
def leave (p : Process) (left : List UInt8) : Process :=
  let taken := pipeCapacity < p.input.length && left.length ≤ pipeCapacity
  { p with input := left, millis := if taken then 0 else p.millis }

/-- Writes bytes to a target. -/
def emit (p : Process) (t : Target) (bytes : List UInt8) : Process :=
  match t with
  | .output => { p with printed := p.printed ++ bytes }
  | .messages => { p with complained := p.complained ++ bytes }
  | .pipe => { p with piped := p.piped ++ bytes }
  | .nowhere => p
  | .file place =>
    match p.files.at? place with
    | some (.file old) => { p with files := p.files.put place (.file (old ++ bytes)) }
    | _ => { p with files := p.files.put place (.file bytes) }

/-- Takes over the effect of a program. -/
def absorb (p : Process) (s : Streams) (e : Effect) : Process :=
  let p := (p.emit s.output e.printed).emit s.messages e.complained
  let p := { p with millis := p.millis + e.millis, status := e.status }
  p.leave e.left

/-- Complains and fails. -/
def complain (p : Process) (s : Streams) (line : Nat) (text : String) (status : Nat) : Process :=
  let name := p.arguments.headD "sh"
  { p.emit s.messages (Text.bytes (name ++ ": " ++ toString line ++ ": " ++ text ++ "\n")) with status := status }

/-! ### Words -/

/-- The value of a variable. -/
def valueOf (p : Process) (name : String) : String :=
  match name with
  | "$" => ownNumber
  | "?" => toString p.status
  | "#" => toString (p.arguments.length - 1)
  | "@" | "*" => Text.joinWith " " (p.arguments.drop 1)
  | "0" => p.arguments.headD "sh"
  | name =>
    match name.toNat? with
    | some i => (p.arguments[i]?).getD ""
    | none => (NameMap.get? p.bindings name).getD ""

/-- Words that are being put together: those that are done, and the one at hand. -/
abbrev Words := List String × Option String

/-- Adds to the word at hand. -/
def extend (ws : Words) (s : String) : Words := (ws.1, some (ws.2.getD "" ++ s))

/-- Closes the word at hand. -/
def close (ws : Words) : Words :=
  match ws.2 with
  | some w => (ws.1 ++ [w], none)
  | none => ws

/-- Adds a text that is split at its blanks. -/
def extendSplit (ws : Words) (s : String) : Words :=
  s.toList.foldl (fun ws c =>
    if c = ' ' ∨ c = '\t' ∨ c = '\n' then close ws else extend ws (String.singleton c)) ws

/-- A text without the line feeds at its end. -/
def dropLineEnds (bytes : List UInt8) : List UInt8 := (bytes.reverse.dropWhile (· == 10)).reverse

/-! ### Commands of the shell itself -/

/-- The first line of the input, whether a line feed ends it, and what is behind it. -/
def firstLine (bytes : List UInt8) : List UInt8 × Bool × List UInt8 :=
  let line := bytes.takeWhile (· != 10)
  match bytes.drop line.length with
  | _ :: rest => (line, true, rest)
  | [] => (line, false, [])

/-- Gives the words of a line to variables, the last one taking the rest of the line. -/
def assignWords (vars : NameMap String) : List String → List Char → NameMap String
  | [], _ => vars
  | [v], s =>
    let kept := (s.dropWhile isLineBlank).reverse.dropWhile isLineBlank
    NameMap.insert vars v (String.ofList kept.reverse)
  | v :: vs, s =>
    let s := s.dropWhile isLineBlank
    let w := s.takeWhile fun c => !isLineBlank c
    assignWords (NameMap.insert vars v (String.ofList w)) vs (s.drop w.length)
where
  isLineBlank (c : Char) : Bool := c == ' ' || c == '\t'

/-- Reads a line into variables. -/
def readLine (p : Process) (names : List String) : Process :=
  let names := names.filter (· != "-r")
  let (line, ended, rest) := firstLine p.input
  let vars := assignWords p.bindings names (Text.ofBytesLossy line).toList
  { p.leave rest with bindings := vars, status := if ended then 0 else 1 }

/-- The status that an argument gives. -/
def statusArgument (p : Process) (args : List String) : Nat :=
  match args.head?.bind String.toNat? with
  | some n => n % 256
  | none => p.status

/-- Sends a signal to processes; the one at hand ends if it is among them. -/
def kill (p : Process) (args : List String) : Process :=
  let harmless := args.contains "-0"
  if args.contains ownNumber && !harmless then { p with ending := some .killed }
  else { p with status := if args.contains ownNumber then 0 else 1 }

/-- The comparison that the arguments of `test` ask for. -/
def holds (p : Process) : List String → Bool
  | ["!", a] => a.isEmpty
  | ["-n", a] => !a.isEmpty
  | ["-z", a] => a.isEmpty
  | ["-f", a] => p.files.isFile a
  | ["-d", a] => p.files.isDirectory a
  | ["-e", a] => p.files.existsAt a
  | [a] => !a.isEmpty
  | [a, "=", b] => a == b
  | [a, "!=", b] => a != b
  | [a, "-eq", b] => a.toNat? == b.toNat?
  | [a, "-ne", b] => a.toNat? != b.toNat?
  | [a, "-lt", b] => a.toNat?.getD 0 < b.toNat?.getD 0
  | [a, "-gt", b] => b.toNat?.getD 0 < a.toNat?.getD 0
  | [a, "-le", b] => a.toNat?.getD 0 ≤ b.toNat?.getD 0
  | [a, "-ge", b] => b.toNat?.getD 0 ≤ a.toNat?.getD 0
  | _ => false

/-- Runs a command of the shell itself, if the name is one. -/
def builtin (p : Process) (s : Streams) (name : String) (args : List String) : Option Process :=
  match name with
  | "echo" => some (p.absorb s (Tool.echoResolved args p.files p.input))
  | ":" => some { p with status := 0 }
  | "exit" => some { p with status := p.statusArgument args, ending := some .exited }
  | "read" => some (p.readLine args)
  | "kill" => some (p.kill args)
  | "test" => some { p with status := if p.holds args then 0 else 1 }
  | "[" => some { p with status := if p.holds args.dropLast then 0 else 1 }
  | "export" | "set" | "umask" | "trap" | "wait" => some { p with status := 0 }
  | "unset" => some { p with bindings := args.foldl NameMap.erase p.bindings, status := 0 }
  | "shift" => some { p with arguments := p.arguments.take 1 ++ p.arguments.drop 2, status := 0 }
  | _ => none

/-! ### Redirections -/

/-- The file that takes all and gives nothing. -/
def nullDevice : String := "/dev/null"

/-- The complaint about a file that cannot be written. -/
def cannotCreate (path : String) (e : IoFault) : String :=
  "cannot create " ++ path ++ ": " ++ (if e.isMissing then "Directory nonexistent" else Tool.wording e)

/-- Opens a file that a stream goes to. -/
def openTarget (p : Process) (path : String) (keep : Bool) : Except IoFault (Target × Process) :=
  if path = nullDevice then .ok (.nowhere, p)
  else
    match p.files.lookup path, p.files.resolve path with
    | .ok (.file _), .ok place =>
      if keep then .ok (.file place, p)
      else .ok (.file place, { p with files := p.files.put place (.file []) })
    | _, _ =>
      match p.files.create path with
      | .ok (place, fs) => .ok (.file place, { p with files := fs })
      | .error e => .error e

/-- Applies one redirection to a file or stream whose name is known. -/
def redirect (p : Process) (s : Streams) (line : Nat) (name : String) :
    Redirect → Except Process (Streams × Process)
  | .source _ =>
    if name = nullDevice then .ok (s, { p with input := [] })
    else
      match p.files.readBytes name with
      | .ok bytes => .ok (s, { p with input := bytes })
      | .error e => .error (p.complain s line ("cannot open " ++ name ++ ": " ++
          (if e.isMissing then "No such file" else Tool.wording e)) 2)
  | .target stream keep _ =>
    match p.openTarget name keep with
    | .ok (t, p) => .ok (if stream = 2 then { s with messages := t } else { s with output := t }, p)
    | .error e => .error (p.complain s line (cannotCreate name e) 2)
  | .like stream _ =>
    let t := if name = "1" then s.output else if name = "2" then s.messages else .nowhere
    .ok (if stream = 2 then { s with messages := t } else { s with output := t }, p)

/-- The word that names what a redirection is about. -/
def redirectWord : Redirect → List Piece
  | .source file => file
  | .target _ _ file => file
  | .like _ other => other

/-! ### Scripts -/

/-- The process as a part of it that runs on its own sees it. -/
def apart (p : Process) : Process := { p with piped := [] }

/-- The process after a part of it that ran on its own: its variables are as they were, and an exit
of the part is none of its own. -/
def rejoin (p part : Process) : Process :=
  { part with
    bindings := p.bindings
    arguments := p.arguments
    ending := if part.ending = some .killed then part.ending else p.ending }

mutual

/-- The words that a word stands for. -/
def expand : Nat → Streams → Process → List Piece → Words → Process × Words
  | 0, _, p, _, ws => (p, ws)
  | _, _, p, [], ws => (p, ws)
  | fuel + 1, s, p, piece :: rest, ws =>
    match piece with
    | .plain t => expand fuel s p rest (extend ws (String.ofList t))
    | .fixed t => expand fuel s p rest (extend ws (String.ofList t))
    | .variable name true => expand fuel s p rest (extend ws (p.valueOf name))
    | .variable name false => expand fuel s p rest (extendSplit ws (p.valueOf name))
    | .output script inQuotes =>
      let part := run fuel ⟨.pipe, s.messages⟩ script p.apart
      let text := Text.ofBytesLossy (dropLineEnds part.piped)
      let p := { p.rejoin part with piped := p.piped }
      expand fuel s p rest (if inQuotes then extend ws text else extendSplit ws text)

/-- The words that words stand for. -/
def expandAll : Nat → Streams → Process → List (List Piece) → Process × List String
  | 0, _, p, _ => (p, [])
  | _, _, p, [] => (p, [])
  | fuel + 1, s, p, w :: rest =>
    let (p, ws) := expand fuel s p w ([], none)
    let (p, more) := expandAll fuel s p rest
    (p, (close ws).1 ++ more)

/-- Makes assignments. -/
def assign : Nat → Streams → Process → List (String × List Piece) → Process
  | 0, _, p, _ => p
  | _, _, p, [] => p
  | fuel + 1, s, p, (name, value) :: rest =>
    let (p, ws) := expand fuel s p value ([], none)
    let text := Text.joinWith " " (close ws).1
    assign fuel s { p with bindings := NameMap.insert p.bindings name text } rest

/-- Applies redirections. -/
def redirectAll : Nat → Streams → Process → Nat → List Redirect → Except Process (Streams × Process)
  | 0, s, p, _, _ => .ok (s, p)
  | _, s, p, _, [] => .ok (s, p)
  | fuel + 1, s, p, line, r :: rest =>
    let (p, ws) := expand fuel s p (redirectWord r) ([], none)
    match p.redirect s line (Text.joinWith " " (close ws).1) r with
    | .ok (s, p) => redirectAll fuel s p line rest
    | .error p => .error p

/-- Runs a shell with arguments: a script that is given, or that is in a file or in the input. -/
def runShell : Nat → Streams → Process → String → List String → Process
  | 0, _, p, _, _ => p
  | fuel + 1, s, p, name, args =>
    let go (text : String) (arguments : List String) (p : Process) : Process :=
      let inner := { p with arguments := arguments, bindings := [] }
      match Script.read? text with
      | some script => p.rejoin (run fuel s script inner)
      | none => p.rejoin (inner.complain s 1 "Syntax error" 2)
    match args with
    | "-c" :: text :: [] => go text [name] p
    | "-c" :: text :: rest => go text rest p
    | "-c" :: [] => { p.emit s.messages (Text.bytes (name ++ ": 0: -c requires an argument\n")) with status := 2 }
    | [] | ["-s"] | ["-"] => go (Text.ofBytesLossy p.input) [name] (p.leave [])
    | file :: rest =>
      match p.files.readBytes file with
      | .ok bytes => go (Text.ofBytesLossy bytes) (file :: rest) p
      | .error e => { p.emit s.messages (Text.bytes (name ++ ": 0: cannot open " ++ file ++ ": " ++
          (if e.isMissing then "No such file" else Tool.wording e) ++ "\n")) with status := 2 }

/-- Runs a command whose words are known. -/
def command : Nat → Streams → Process → Nat → List String → Process
  | 0, _, p, _, _ => p
  | _, _, p, _, [] => { p with status := 0 }
  | fuel + 1, s, p, line, name :: args =>
    match p.builtin s name args with
    | some p => p
    | none =>
      if name = "exec" then
        let p := command fuel s p line args
        if args.isEmpty then p else { p with ending := p.ending.or (some .exited) }
      else if Tool.nameOf name = "sh" then runShell fuel s p name args
      else
        match Tool.all.lookup (Tool.nameOf name) with
        | some tool => p.absorb s (tool args p.files p.input)
        | none =>
          if name.toList.contains '/' && p.files.existsAt name then
            p.complain s line (name ++ ": Permission denied") 126
          else p.complain s line (name ++ ": not found") 127

/-- Runs a script. -/
def run : Nat → Streams → Script → Process → Process
  | 0, _, _, p => p
  | fuel + 1, s, script, p =>
    if p.ending.isSome then p
    else
      match script with
      | .skip => p
      | .simple line assignments words redirects =>
        let (p, words) := expandAll fuel s p words
        match redirectAll fuel s p line redirects with
        | .error p => p
        | .ok (s', q) =>
          -- a redirected input goes back to what it was
          let restore (r : Process) : Process :=
            if redirects.any (fun r => r matches .source _) then { r with input := p.input } else r
          if words.isEmpty then restore (assign fuel s { q with status := 0 } assignments)
          else restore (command fuel s' (assign fuel s q assignments) line words)
      | .group alone body redirects =>
        match redirectAll fuel s p 1 redirects with
        | .error p => p
        | .ok (s', q) =>
          let r := run fuel s' body q
          let r := if alone then p.rejoin r else r
          if redirects.any (fun r => r matches .source _) then { r with input := p.input } else r
      | .not body =>
        let p := run fuel s body p
        { p with status := if p.status = 0 then 1 else 0 }
      | .pipe first second =>
        let a := run fuel ⟨.pipe, s.messages⟩ first p.apart
        let joined := p.rejoin a
        let b := run fuel s second { joined with input := a.piped, piped := p.piped, millis := p.millis }
        { p.rejoin b with input := a.input, millis := max a.millis b.millis }
      | .next first second => run fuel s second (run fuel s first p)
      | .and first second =>
        let p := run fuel s first p
        if p.status = 0 then run fuel s second p else p
      | .or first second =>
        let p := run fuel s first p
        if p.status = 0 then p else run fuel s second p
      | .cond test yes no =>
        let p := run fuel s test p
        if p.status = 0 then run fuel s yes p
        else if no matches .skip then { p with status := 0 } else run fuel s no p
      | .loop test body =>
        let q := run fuel s test p
        if q.status = 0 && q.ending.isNone then run fuel s (.loop test body) (run fuel s body q)
        else if q.ending.isSome then q else { q with status := p.status }

end

end Process

end Stencil
