import Stencil.Files.Tree
import Stencil.Schema.Pattern

/-!
# Programs of the host

The programs that commands of a script can start: each one takes arguments, the files and an input,
and prints something and perhaps complains. None of them changes a file.
-/

namespace Stencil

/-- What a program came to. -/
structure Effect where
  printed : List UInt8
  complained : List UInt8
  /-- The input that was not read. -/
  left : List UInt8
  /-- Zero for success. -/
  status : Nat
  millis : Nat

/-- A program: from arguments, files and input to an effect. -/
abbrev Tool := List String → Files → List UInt8 → Effect

namespace Tool

/-- A program that prints a text and reads nothing. -/
def printing (s : String) (status : Nat) (input : List UInt8) : Effect := ⟨Text.bytes s, [], input, status, 0⟩

/-- A program that complains and reads nothing. -/
def complaining (s : String) (status : Nat) (input : List UInt8) : Effect := ⟨[], Text.bytes s, input, status, 0⟩

/-- The wording of a failure of the file system among the messages of programs. -/
def wording : IoFault → String
  | .missing => "No such file or directory"
  | .notDirectory => "Not a directory"
  | .isDirectory => "Is a directory"
  | .denied => "Permission denied"
  | e => e.message

/-! ### Printing -/

/-- Prints its arguments. -/
def echo : Tool := fun args _ input =>
  match args with
  | "-n" :: rest => printing (Text.joinWith " " rest) 0 input
  | args => printing (Text.joinWith " " args ++ "\n") 0 input

/-- The escapes of one character. -/
def escapes : List (Char × UInt8) :=
  [('a', 7), ('b', 8), ('f', 12), ('n', 10), ('r', 13), ('t', 9), ('v', 11), ('\\', 92)]

def isOctal (c : Char) : Bool := '0' ≤ c && c ≤ '7'

/-- The number that octal digits stand for, as a byte. -/
def octal (ds : List Char) : UInt8 :=
  UInt8.ofNat (ds.foldl (fun n c => n * 8 + (c.toNat - '0'.toNat)) 0)

/-- The bytes of a text whose escapes are resolved; `zeroed` tells that octal numbers begin with a
zero. The flag of the answer tells that the text was cut short. -/
def resolve (zeroed : Bool) : Nat → List Char → List UInt8 × Bool
  | 0, _ => ([], false)
  | _, [] => ([], false)
  | fuel + 1, '\\' :: c :: rest =>
    let goOn (bytes : List UInt8) (rest : List Char) : List UInt8 × Bool :=
      let (more, cut) := resolve zeroed fuel rest
      (bytes ++ more, cut)
    if c = 'c' && zeroed then ([], true)
    else
      match escapes.lookup c with
      | some b => goOn [b] rest
      | none =>
        if isOctal c && (!zeroed || c == '0') then
          let ds := ((if zeroed then rest else c :: rest).take 3).takeWhile isOctal
          goOn [octal ds] ((if zeroed then rest else c :: rest).drop ds.length)
        else goOn (Text.bytes (String.ofList ['\\', c])) rest
  | fuel + 1, c :: rest =>
    let (more, cut) := resolve zeroed fuel rest
    (Text.bytes (String.singleton c) ++ more, cut)

/-- Prints its arguments with their escapes resolved. -/
def echoResolved : Tool := fun args _ input =>
  let (ending, args) := match args with
    | "-n" :: rest => ("", rest)
    | args => ("\n", args)
  let text := (Text.joinWith " " args).toList
  let (bytes, cut) := resolve true (text.length + 1) text
  ⟨bytes ++ (if cut then [] else Text.bytes ending), [], input, 0, 0⟩

/-- The bytes of a format with its directives filled in, and the arguments that are left. -/
def fill : Nat → List Char → List String → List UInt8 × List String
  | 0, _, args => ([], args)
  | _, [], args => ([], args)
  | fuel + 1, '%' :: c :: rest, args =>
    let goOn (bytes : List UInt8) (args : List String) : List UInt8 × List String :=
      let (more, args) := fill fuel rest args
      (bytes ++ more, args)
    if c = '%' then goOn [37] args
    else if c = 's' then goOn (Text.bytes (args.headD "")) (args.drop 1)
    else if c = 'd' then goOn (Text.bytes (if args.isEmpty then "0" else args.headD "0")) (args.drop 1)
    else goOn (Text.bytes (String.ofList ['%', c])) args
  | fuel + 1, s, args =>
    let run := match s with
      | '%' :: _ => s.take 1
      | s => s.takeWhile (· != '%')
    let (more, args) := fill fuel (s.drop run.length) args
    ((resolve false (run.length + 1) run).1 ++ more, args)

/-- Prints a format as often as the arguments ask for. -/
def fillAll : Nat → List Char → List String → List UInt8
  | 0, _, _ => []
  | fuel + 1, format, args =>
    let (bytes, left) := fill (format.length + 1) format args
    if left.isEmpty || left.length = args.length then bytes else bytes ++ fillAll fuel format left

/-- Prints its arguments as a format says. -/
def printf : Tool := fun args _ input =>
  match args with
  | [] => complaining "printf: usage: printf format [arg ...]\n" 2 input
  | format :: args => ⟨fillAll (args.length + 1) format.toList args, [], input, 0, 0⟩

/-! ### Reading -/

/-- The input as a program sees it that reads the files of its arguments: what each argument gives,
or the whole input if there are none. -/
def sources (args : List String) (fs : Files) (input : List UInt8) :
    List (String × Except IoFault (List UInt8)) :=
  if args.isEmpty then [("", .ok input)]
  else args.map fun a => (a, if a = "-" then .ok input else fs.readBytes a)

/-- What is left of the input. -/
def leftOf (args : List String) (input : List UInt8) : List UInt8 :=
  if args.isEmpty || args.contains "-" then [] else input

/-- The complaints about files that cannot be read. -/
def complaints (name : String) (found : List (String × Except IoFault (List UInt8))) : List UInt8 :=
  found.flatMap fun (file, r) => match r with
    | .ok _ => []
    | .error e => Text.bytes (name ++ ": " ++ file ++ ": " ++ wording e ++ "\n")

/-- The status of a program that read some of its files. -/
def statusOf (found : List (String × Except IoFault (List UInt8))) : Nat :=
  if found.all fun f => f.2.toBool then 0 else 1

/-- Prints its input. -/
def cat : Tool := fun args fs input =>
  let found := sources args fs input
  ⟨found.flatMap fun f => f.2.toOption.getD [], complaints "cat" found, leftOf args input, statusOf found, 0⟩

/-- A byte between words. -/
def isGap (b : UInt8) : Bool := b == 32 || (9 ≤ b && b ≤ 13)

/-- The number of words. -/
def wordCount (bytes : List UInt8) : Nat :=
  (bytes.foldl (fun (acc : Nat × Bool) b =>
    if isGap b then (acc.1, true) else (if acc.2 then acc.1 + 1 else acc.1, false)) (0, true)).1

/-- What can be counted, by the letter of the option, in the order of printing. -/
def counters : List (Char × (List UInt8 → Nat)) :=
  [('l', fun bs => bs.count 10), ('w', wordCount), ('m', fun bs => (bs.filter fun b => b < 0x80 || 0xC0 ≤ b).length),
   ('c', List.length)]

def padded (width : Nat) (n : Nat) : String :=
  let s := toString n
  String.ofList (List.replicate (width - s.length) ' ') ++ s

/-- Counts lines, words, characters or bytes. -/
def wc : Tool := fun args fs input =>
  let (options, files) := args.partition fun a => a.toList.head? == some '-' && a != "-"
  let letters := options.flatMap fun o => o.toList.drop 1
  let wanted := if letters.isEmpty then ['l', 'w', 'c'] else letters
  let chosen := counters.filter fun c => wanted.contains c.1
  let found := sources files fs input
  let read := found.filterMap fun (file, r) => r.toOption.map fun bs => (file, chosen.map fun c => c.2 bs)
  let whole := found.map fun f => (f.2.toOption.getD []).length
  let plain := chosen.length = 1 && files.length < 2
  let width := if plain then 1 else if files.isEmpty || files.contains "-" then 7 else (toString (whole.foldl (· + ·) 0)).length
  let line (file : String) (counts : List Nat) : String :=
    Text.joinWith " " (counts.map (padded width)) ++ (if file.isEmpty then "" else " " ++ file) ++ "\n"
  let total := if 1 < files.length then
      line "total" ((List.range chosen.length).map fun i => (read.map fun r => (r.2[i]?).getD 0).foldl (· + ·) 0) else ""
  ⟨Text.bytes (String.join (read.map fun r => line r.1 r.2) ++ total), complaints "wc" found,
    leftOf files input, statusOf found, 0⟩

/-! ### Waiting -/

/-- The thousandths of a decimal number without a sign. -/
def thousandths? (s : List Char) : Option Nat :=
  let whole := s.takeWhile Char.isDigit
  let fraction := match s.drop whole.length with
    | [] => some []
    | '.' :: f => if f.all Char.isDigit then some f else none
    | _ => none
  fraction.bind fun f =>
    if whole.isEmpty && f.isEmpty then none
    else (String.ofList (whole ++ (f ++ ['0', '0', '0']).take 3)).toNat?

/-- The units of time behind a number, in seconds. -/
def timeUnits : List (Char × Nat) := [('s', 1), ('m', 60), ('h', 3600), ('d', 86400)]

/-- The milliseconds of an interval. -/
def millis? (arg : String) : Option Nat :=
  let s := arg.toList
  match s.getLast?.bind fun c => timeUnits.lookup c with
  | some seconds => (thousandths? s.dropLast).map (· * seconds)
  | none => thousandths? s

/-- Waits. -/
def sleep : Tool := fun args _ input =>
  match args.find? fun a => (millis? a).isNone with
  | some a => complaining ("sleep: invalid time interval ‘" ++ a ++
      "’\nTry 'sleep --help' for more information.\n") 1 input
  | none =>
    if args.isEmpty then
      complaining "sleep: missing operand\nTry 'sleep --help' for more information.\n" 1 input
    else ⟨[], [], input, 0, (args.filterMap millis?).foldl (· + ·) 0⟩

/-! ### Searching -/

/-- The characters that stand for themselves in a basic pattern, and are special behind a
backslash. -/
def basicOrdinary : List Char := "()\x7b\x7d|+?".toList

/-- A basic pattern in the extended notation. -/
def extended : List Char → List Char
  | '\\' :: c :: rest =>
    if basicOrdinary.contains c then c :: extended rest else '\\' :: c :: extended rest
  | c :: rest => if basicOrdinary.contains c then '\\' :: c :: extended rest else c :: extended rest
  | [] => []

/-- The stretches of a line that match, each as long as it can be; none of them is empty. -/
def matchesIn (p : Pattern) : Nat → Option Char → List Char → List (List Char)
  | 0, _, _ => []
  | _, _, [] => []
  | fuel + 1, before, c :: rest =>
    let s := c :: rest
    let longest := ((p.ends ⟨before, s⟩).map fun q => s.length - q.rest.length).foldl max 0
    if longest = 0 then matchesIn p fuel (some c) rest
    else s.take longest :: matchesIn p fuel (s.take longest).getLast? (s.drop longest)

/-- Prints the lines that match a pattern, or only the stretches that match. -/
def grep : Tool := fun args fs input =>
  let (options, operands) := args.partition fun a => a.toList.head? == some '-' && a != "-"
  let letters := options.flatMap fun o => o.toList.drop 1
  match operands with
  | [] => complaining "Usage: grep [OPTION]... PATTERNS [FILE]...\nTry 'grep --help' for more information.\n" 2 input
  | pattern :: files =>
    let form := if letters.contains 'E' then pattern.toList else extended pattern.toList
    match Pattern.read? (String.ofList form) with
    | none => complaining "grep: Invalid regular expression\n" 2 input
    | some p =>
      let found := sources files fs input
      let lines := found.flatMap fun f => Text.rows (Text.ofBytesLossy (f.2.toOption.getD []))
      let hits := lines.filter fun l => p.foundIn l != letters.contains 'v'
      let printed :=
        if letters.contains 'q' then []
        else if letters.contains 'c' then [toString hits.length]
        else if letters.contains 'o' then
          hits.flatMap fun l => (matchesIn p (l.length + 1) none l.toList).map String.ofList
        else hits
      let status := if statusOf found ≠ 0 then 2 else if hits.isEmpty then 1 else 0
      ⟨Text.bytes (String.join (printed.map (· ++ "\n"))), complaints "grep" found, leftOf files input, status, 0⟩

/-! ### All programs -/

/-- The programs by their names. -/
def all : List (String × Tool) :=
  [("cat", cat), ("wc", wc), ("sleep", sleep), ("grep", grep), ("echo", echo), ("printf", printf),
   ("true", fun _ _ input => printing "" 0 input), ("false", fun _ _ input => printing "" 1 input)]

/-- The directories that programs are in. -/
def directories : List String := ["/bin/", "/usr/bin/"]

/-- The name of a program without the directory that it is in. -/
def nameOf (path : String) : String :=
  match directories.findSome? fun d => Text.after? d.toList path.toList with
  | some name => String.ofList name
  | none => path

end Tool

end Stencil
