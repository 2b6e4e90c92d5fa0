import Stencil.Number.Binary64
import Stencil.Toml.Grammar

/-!
# What the words of a TOML text mean

A word in quotes is a text, once its escapes are resolved. A bare word is a number, a truth value or
a moment in time; a bare word that is none of these is taken for a text whose quotes were forgotten.
Bare words in keys are names.
-/

namespace Stencil.Toml

/-- A number with a fraction or an exponent. -/
inductive Real where
  | finite (x : Binary64)
  | infinite (negative : Bool)
  | nan
  /-- Its magnitude is too large. -/
  | outOfRange
deriving DecidableEq, Repr

/-- What a word means. -/
inductive Scalar where
  | text (s : String)
  /-- An integer; none if its digits are no number. -/
  | integer (i : Option Int)
  | real (x : Real)
  | boolean (b : Bool)
  | moment
deriving DecidableEq, Repr

namespace Word

/-- The stretch of a word between two offsets in it. -/
def part (w : Word) (first last : Nat) : Span := ⟨w.start + first, w.start + last⟩

/-- A flaw at an offset. -/
def flawAt {α : Type} (w : Word) (offset : Nat) (message : String) (expected : List Expected) :
    Except Flaw α :=
  .error (Flaw.at (w.part offset offset) message expected)

/-- A flaw between two offsets, where nothing is expected. -/
def flawIn {α : Type} (w : Word) (first last : Nat) (message : String) : Except Flaw α :=
  .error (Flaw.at (w.part first last) message [])

/-- The number of bytes of a word. -/
def size (w : Word) : Nat := byteLength w.text

/-! ### Texts -/

/-- A character that texts may hold as it is, quotes and line ends aside. -/
def isPlain (c : Char) : Bool := c == '\t' || (0x20 ≤ c.toNat && c.toNat ≤ 0x7E) || 0x80 ≤ c.toNat

/-- A character of a text in double quotes that stands for itself. -/
def isUnescaped (c : Char) : Bool := isPlain c && c != '"' && c != '\\'

/-- The escapes of one character. -/
def escapes : List (Char × Char) :=
  [('b', '\x08'), ('e', '\x1b'), ('f', '\x0c'), ('n', '\n'), ('r', '\r'), ('t', '\t'), ('\\', '\\'), ('"', '"')]

/-- The escapes of a number, with how many digits they have. -/
def numberEscapes : List (Char × Nat) := [('x', 2), ('u', 4), ('U', 8)]

/-- What may stand behind a backslash, as messages list it. -/
def expectedEscapes : List Expected :=
  ["b", "e", "f", "n", "r", "\\", "\"", "x", "u", "U"].map .exactly

/-- The value of a hexadecimal digit. -/
def hexValue? (c : Char) : Option Nat :=
  if c.isDigit then some (c.toNat - '0'.toNat)
  else if 'a' ≤ c ∧ c ≤ 'f' then some (c.toNat - 'a'.toNat + 10)
  else if 'A' ≤ c ∧ c ≤ 'F' then some (c.toNat - 'A'.toNat + 10)
  else none

/-- The number that digits stand for. -/
def ofDigits (base : Nat) (ds : List Nat) : Nat := ds.foldl (fun n d => n * base + d) 0

/-- The character of a number written with so many digits at an offset. -/
def numbered (w : Word) (count offset : Nat) (s : List Char) : Except Flaw Char :=
  let digits := (s.take count).takeWhile fun c => (hexValue? c).isSome
  if digits.length ≠ count then
    w.flawAt (offset + digits.length) "too few unicode value digits" [.some "unicode hexadecimal value"]
  else
    let n := ofDigits 16 (digits.filterMap hexValue?)
    if n.isValidChar then .ok (Char.ofNat n)
    else w.flawAt offset "invalid value" [.some "unicode hexadecimal value"]

/-- The characters that an escape stands for at the head of a text behind the backslash, and how
many characters it has. -/
def escape (w : Word) (offset : Nat) : List Char → Except Flaw (Char × Nat)
  | [] => w.flawAt offset "missing escaped value" expectedEscapes
  | c :: rest =>
    match escapes.lookup c, numberEscapes.lookup c with
    | some d, _ => .ok (d, 1)
    | none, some count => (numbered w count (offset + 1) rest).map fun d => (d, count + 1)
    | none, none => w.flawAt offset "missing escaped value" expectedEscapes

/-- A line end. -/
def isLineEnd (c : Char) : Bool := c == '\n' || c == '\r'

/-- The characters of a text in double quotes from an offset on; `long` tells that it may have
several lines, and a backslash at the end of one joins it to the next word. -/
def resolve (w : Word) (long : Bool) : Nat → Nat → List Char → Except Flaw (List Char)
  | 0, _, _ => .ok []
  | _, _, [] => .ok []
  | fuel + 1, offset, '\\' :: rest =>
    let gap := rest.takeWhile fun c => isLineBlank c || isLineEnd c
    if long && (gap.dropWhile isLineBlank != []) then
      resolve w long fuel (offset + 1 + gap.length) (rest.drop gap.length)
    else
      match escape w (offset + 1) rest with
      | .error e => .error e
      | .ok (c, count) => (resolve w long fuel (offset + 1 + count) (rest.drop count)).map (c :: ·)
  | fuel + 1, offset, c :: rest =>
    if isUnescaped c || (long && (c == '"' || c == '\n')) then
      (resolve w long fuel (offset + c.utf8Size) rest).map (c :: ·)
    else if long && c == '\r' then
      match rest with
      | '\n' :: rest' => (resolve w long fuel (offset + 2) rest').map fun cs => '\r' :: '\n' :: cs
      | _ => w.flawAt (offset + 1) "carriage return must be followed by newline" [.exactly "\n"]
    else
      let run := (c :: rest).takeWhile fun d => !(isUnescaped d || d == '\\')
      let message := if long then "invalid multi-line basic string" else "invalid basic string"
      let expected := if long then [.exactly "\\", .some "characters"]
        else [.some "non-double-quote visible characters", .exactly "\\"]
      .error (Flaw.at (w.part offset (offset + byteLength run)) message expected)

/-- Refuses characters that a text in single quotes may not hold. -/
def checkLiteral (w : Word) (long : Bool) : Nat → List Char → Except Flaw Unit
  | _, [] => .ok ()
  | offset, c :: rest =>
    if long && c == '\r' && rest.head? != some '\n' then
      w.flawAt (offset + 1) "carriage return must be followed by newline" [.exactly "\n"]
    else if (isPlain c && (long || c != '\'')) || (long && isLineEnd c) then
      checkLiteral w long (offset + c.utf8Size) rest
    else if long then
      w.flawAt offset "invalid multi-line literal string" [.some "non-single-quote characters"]
    else w.flawAt offset "invalid literal string" [.some "non-single-quote visible characters"]

/-- The content of a word between its quotes; fails if those at the end are missing. -/
def content (w : Word) (quotes : String) (name : String) : Except Flaw (List Char) :=
  let inner := w.text.drop quotes.length
  let opening := quotes.toList
  if opening.isSuffixOf inner then .ok (inner.take (inner.length - quotes.length))
  else w.flawAt w.size name [.exactly quotes]

/-- How many characters the line end in front of a text has, which does not count. -/
def leadingLineEnd : List Char → Nat
  | '\n' :: _ => 1
  | '\r' :: '\n' :: _ => 2
  | _ => 0

/-- The text of a word in quotes. -/
def unquote (w : Word) : Except Flaw (List Char) :=
  match w.quoting with
  | .bare => .ok w.text
  | .basic => do
    let s ← w.content "\"" "invalid basic string"
    w.resolve false (s.length + 1) 1 s
  | .literal => do
    let s ← w.content "'" "invalid literal string"
    w.checkLiteral false 1 s
    return s
  | .longBasic => do
    let s ← w.content "\"\"\"" "invalid multi-line basic string"
    let skip := leadingLineEnd s
    w.resolve true (s.length + 1) (3 + skip) (s.drop skip)
  | .longLiteral => do
    let s ← w.content "'''" "invalid multi-line literal string"
    let skip := leadingLineEnd s
    w.checkLiteral true (3 + skip) (s.drop skip)
    return s.drop skip

/-! ### Names -/

/-- A character of a bare name. -/
def isNameChar (c : Char) : Bool := c.isAlphanum || c == '-' || c == '_'

/-- What bare names consist of, as messages list it. -/
def expectedName : List Expected := [.some "letters", .some "numbers", .exactly "-", .exactly "_"]

/-- The name that a word of a key stands for. -/
def name (w : Word) : Except Flaw String :=
  match w.quoting with
  | .bare =>
    if w.text.isEmpty then w.flawAt 0 "unquoted keys cannot be empty" expectedName
    else
      match w.text.dropWhile isNameChar with
      | [] => .ok (String.ofList w.text)
      | rest => w.flawAt (w.size - byteLength rest) "invalid unquoted key" expectedName
  | .longBasic =>
    .error (Flaw.at w.span "keys cannot be multi-line basic strings" [.some "basic string"])
  | .longLiteral =>
    .error (Flaw.at w.span "keys cannot be multi-line literal strings" [.some "literal string"])
  | _ => w.unquote.map String.ofList

/-! ### Numbers -/

/-- The flaw of a bare word that is taken for a text. -/
def unquoted {α : Type} (w : Word) : Except Flaw α :=
  .error (Flaw.at w.span "string values must be quoted" [.some "literal string"])

/-- Refuses underscores that do not stand between digits. The stream begins at an offset. -/
def checkUnderscores (w : Word) (isDigit : Char → Bool) (offset : Nat) (stream : List Char) :
    Except Flaw Unit :=
  let message := "`_` may only go between digits"
  let stop := offset + stream.length
  let rec parts (start : Nat) : List (List Char) → Except Flaw Unit
    | [] => .ok ()
    | p :: rest =>
      if 0 < start && p.head?.any (fun c => !isDigit c) then w.flawIn (start - 1) start message
      else if 1 < p.length && start + p.length < w.size && p.getLast?.any (fun c => !isDigit c) then
        w.flawIn (start + p.length) (start + p.length + 1) message
      else if p.isEmpty && start != 0 && start != w.size then w.flawIn start (start + 1) message
      else parts (start + p.length + 1) rest
  if !stream.contains '_' then .ok ()
  else if stream.head? = some '_' then w.flawIn 0 1 message
  else if 1 < stream.length && stream.getLast? = some '_' then w.flawIn (stop - 1) stop message
  else parts offset (Text.splitAll '_' stream)

/-- The digits of a base, without a sign. -/
def natural? (base : Nat) (s : List Char) : Option Nat :=
  let ds := s.map fun c => (hexValue? c).filter (· < base)
  if s.isEmpty || ds.any Option.isNone then none else some (ofDigits base (ds.filterMap id))

/-- An integer with a sign. -/
def signed? : List Char → Option Int
  | '-' :: s => (natural? 10 s).map fun n => -(n : Int)
  | '+' :: s => (natural? 10 s).map Int.ofNat
  | s => (natural? 10 s).map Int.ofNat

/-- A digit of any base. -/
def isAnyDigit (c : Char) : Bool := (hexValue? c).isSome

/-- A word as a decimal integer. -/
def decimal (w : Word) : Except Flaw Scalar := do
  w.checkUnderscores isAnyDigit 0 w.text
  return .integer (signed? (w.text.filter (· != '_')))

/-- Refuses a zero that stands before other digits. -/
def checkZero (w : Word) (offset : Nat) (value : List Char) : Except Flaw Unit :=
  if value.head? = some '0' then w.flawIn offset (offset + 1) "unexpected leading zero" else .ok ()

/-- Reads digits and underscores from an offset on, and tells what is left. -/
def digits (w : Word) (zeroAllowed : Bool) (what : String) (offset : Nat) (s : List Char) :
    Except Flaw (Nat × List Char) :=
  let run := s.takeWhile fun c => c.isDigit || c == '_'
  let count := (run.filter Char.isDigit).length
  if count = 0 then w.flawAt (offset + run.length) what [.some "digits"]
  else if 1 < count && s.head? = some '0' && !zeroAllowed then
    w.flawIn offset (offset + 1) "unexpected leading zero"
  else .ok (offset + run.length, s.drop run.length)

/-- Refuses what is no number with a fraction or an exponent. -/
def checkReal (w : Word) (offset : Nat) (value : List Char) : Except Flaw Unit := do
  let (offset, s) ← w.digits false "invalid mantissa" offset value
  let (offset, s) ← match s with
    | '.' :: rest => w.digits true "invalid fraction" (offset + 1) rest
    | s => .ok (offset, s)
  let (offset, s) ← match s with
    | c :: rest =>
      if c = 'e' ∨ c = 'E' then
        let sign := rest.takeWhile fun c => c == '+' || c == '-'
        let signed := min sign.length 1
        w.digits true "invalid exponent" (offset + 1 + signed) (rest.drop signed)
      else .ok (offset, s)
    | [] => .ok (offset, [])
  if s.isEmpty then .ok () else w.flawIn offset w.size "invalid float"

/-- The number nearest to a decimal. -/
def nearest (negative : Bool) (mantissa : Nat) (exponent : Int) : Real :=
  let size : Int := (Nat.toDigits 10 mantissa).length + exponent
  if mantissa = 0 ∨ size < -400 then .finite (.zero negative)
  else if 400 < size then .outOfRange
  else
    let r := if 0 ≤ exponent then Binary64.roundRatio negative (mantissa * Nat.pow 10 exponent.toNat) 1
      else Binary64.roundRatio negative mantissa (Nat.pow 10 (-exponent).toNat)
    match r with
    | some x => .finite x
    | none => .outOfRange

/-- The value of a number with a fraction or an exponent, its form being right. -/
def realValue (s : List Char) : Real :=
  let negative := s.head? = some '-'
  let body := if s.head? = some '-' ∨ s.head? = some '+' then s.drop 1 else s
  let mantissa := body.takeWhile fun c => c != 'e' && c != 'E'
  let whole := mantissa.takeWhile (· != '.')
  let fraction := mantissa.drop (whole.length + 1)
  let exponent := (signed? (body.drop (mantissa.length + 1))).getD 0
  nearest negative ((natural? 10 (whole ++ fraction)).getD 0) (exponent - (fraction.length : Int))

/-- A word as a number with a fraction or an exponent. -/
def real (w : Word) (offset : Nat) (value : List Char) : Except Flaw Scalar := do
  w.checkReal offset value
  w.checkUnderscores Char.isDigit 0 w.text
  return .real (realValue (w.text.filter (· != '_')))

/-- The moment that a word stands for, as far as its characters go. -/
def moment (w : Word) : Except Flaw Scalar :=
  let fits : Char → Bool := fun c => c.isDigit || "-:.+TtZz ".toList.contains c
  if w.text.all fits then .ok .moment else .error ⟨"invalid datetime", w.span⟩

/-- A word that begins with a digit, its sign dropped. -/
def number (w : Word) (offset : Nat) (value : List Char) : Except Flaw Scalar :=
  match value.dropWhile Char.isDigit with
  | [] => do
    w.checkZero offset value
    w.decimal
  | c :: rest =>
    if c = '-' ∨ c = ':' then w.moment
    else if rest.contains ' ' then w.unquoted
    else if (c :: rest).any fun d => d == '.' || d == 'e' || d == 'E' then w.real offset value
    else if c = '_' then do
      w.checkZero offset value
      w.decimal
    else w.unquoted

/-- The bases that a zero and a letter announce. -/
def bases : List (Char × Nat × String) :=
  [('x', 16, "invalid hexadecimal number"), ('o', 8, "invalid octal number"), ('b', 2, "invalid binary number")]

/-- Refuses characters that are no digits of a base. -/
def checkDigits (w : Word) (base : Nat) (message : String) : Nat → List Char → Except Flaw Unit
  | _, [] => .ok ()
  | offset, c :: rest =>
    if c == '_' || ((hexValue? c).filter (· < base)).isSome then
      checkDigits w base message (offset + 1) rest
    else w.flawAt offset message []

/-- A word as an integer in a base; the value begins with the zero and the letter. -/
def based (w : Word) (withSign : Bool) (offset : Nat) (letter : Char) (base : Nat) (message : String)
    (value : List Char) : Except Flaw Scalar := do
  if withSign then w.flawIn 0 1 "integers with a radix cannot be signed"
  if letter.isUpper then
    .error (Flaw.at (w.part offset (offset + 2)) "radix must be lowercase"
      [.exactly (String.ofList ['0', letter.toLower])])
  w.checkDigits base message (offset + 2) (value.drop 2)
  w.checkUnderscores isAnyDigit (offset + 2) (value.drop 2)
  return .integer ((natural? base ((value.drop 2).filter (· != '_'))).map Int.ofNat)

/-- A word that begins with a zero, its sign dropped. -/
def zeroed (w : Word) (withSign : Bool) (offset : Nat) (value : List Char) : Except Flaw Scalar :=
  match value with
  | [_] => w.decimal
  | _ :: letter :: _ =>
    match bases.lookup letter.toLower with
    | some (base, message) => w.based withSign offset letter base message value
    | none => if letter.toLower = 'd' then w.flawIn 0 2 "redundant integer number prefix" else w.number offset value
  | [] => w.decimal

/-- The words that stand for numbers out of the ordinary. -/
def specials : List (Char × String × (Bool → Real)) :=
  [('i', "inf", .infinite), ('n', "nan", fun _ => .nan)]

/-- A word whose sign was read. -/
def signed (w : Word) (negative : Bool) (value : List Char) : Except Flaw Scalar :=
  match value with
  | [] => w.unquoted
  | c :: _ =>
    if c = '+' ∨ c = '-' then w.flawIn 1 2 "redundant numeric sign"
    else if c = '0' then w.zeroed true 1 value
    else if c.isDigit ∨ c = '_' then w.number 1 value
    else if c = '.' then w.real 1 value
    else
      match specials.lookup c.toLower with
      | some (text, x) =>
        if String.ofList value = text then .ok (.real (x negative))
        else .error (Flaw.at (w.part 1 w.size) "invalid float" [.exactly text])
      | none => w.unquoted

/-- What a bare word means. -/
def plain (w : Word) : Except Flaw Scalar :=
  match w.text with
  | [] => w.unquoted
  | c :: rest =>
    if c = '+' ∨ c = '-' then w.signed (c == '-') rest
    else if c = '0' then w.zeroed false 0 w.text
    else if c.isDigit ∨ c = '_' then w.number 0 w.text
    else if c = '.' then w.real 0 w.text
    else
      match String.ofList w.text with
      | "true" => .ok (.boolean true)
      | "false" => .ok (.boolean false)
      | "inf" => .ok (.real (.infinite false))
      | "nan" => .ok (.real .nan)
      | _ => w.unquoted

/-- What a word means. -/
def scalar (w : Word) : Except Flaw Scalar :=
  match w.quoting with
  | .bare => w.plain
  | _ => w.unquote.map fun s => .text (String.ofList s)

end Word

end Stencil.Toml
