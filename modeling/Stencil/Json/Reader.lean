import Stencil.Json.Printer
import Stencil.Text.Quoted

/-!
# Reading JSON

The reader takes a list of characters and gives a value with the characters behind it. A value is
read by recursion on the depth that is still allowed, a list of items or members by recursion on a
fuel that the length of the text bounds. `Json.readRaw` keeps equal member names apart,
`Json.parse` merges them.

A failure is a cause and a place. Places are counted in bytes, as editors and messages of other
tools count columns: `Located` holds the line and the column.
-/

namespace Stencil

/-- What is wrong with a text. -/
inductive JsonFault where
  | eofList | eofObject | eofString | eofValue
  | expectedColon | expectedListCommaOrEnd | expectedObjectCommaOrEnd
  | expectedIdent | expectedValue
  | invalidEscape | invalidNumber | numberOutOfRange
  | controlCharacter | keyMustBeString | loneLeadingSurrogate
  | trailingComma | trailingCharacters | unexpectedEndOfHexEscape | recursionLimit
  /-- A value of another type stands where one type is wanted. -/
  | unexpectedType (found wanted : String)
deriving DecidableEq, Repr

/-- The wording of a fault. -/
def JsonFault.message : JsonFault → String
  | .eofList => "EOF while parsing a list"
  | .eofObject => "EOF while parsing an object"
  | .eofString => "EOF while parsing a string"
  | .eofValue => "EOF while parsing a value"
  | .expectedColon => "expected `:`"
  | .expectedListCommaOrEnd => "expected `,` or `]`"
  | .expectedObjectCommaOrEnd => "expected `,` or `\x7d`"
  | .expectedIdent => "expected ident"
  | .expectedValue => "expected value"
  | .invalidEscape => "invalid escape"
  | .invalidNumber => "invalid number"
  | .numberOutOfRange => "number out of range"
  | .controlCharacter => "control character (\\u0000-\\u001F) found while parsing a string"
  | .keyMustBeString => "key must be a string"
  | .loneLeadingSurrogate => "lone leading surrogate in hex escape"
  | .trailingComma => "trailing comma"
  | .trailingCharacters => "trailing characters"
  | .unexpectedEndOfHexEscape => "unexpected end of hex escape"
  | .recursionLimit => "recursion limit exceeded"
  | .unexpectedType found wanted => "invalid type: " ++ found ++ ", expected " ++ wanted

/-- A fault and where the reader stood: the characters left, and how many bytes further on the
fault lies. -/
structure Stuck where
  fault : JsonFault
  rest : List Char
  ahead : Nat

/-- A fault with its line and column, both counted from one, the column in bytes. -/
structure Located where
  fault : JsonFault
  line : Nat
  column : Nat
deriving DecidableEq, Repr

/-- The wording of a fault with its place. -/
def Located.message (l : Located) : String :=
  l.fault.message ++ " at line " ++ toString l.line ++ " column " ++ toString l.column

/-- The line and the column of the place behind the first `n` bytes of a text. -/
def placeAfter (n : Nat) : List Char → Nat × Nat → Nat × Nat
  | [], (line, column) => (line, column)
  | c :: cs, (line, column) =>
    if n = 0 then (line, column)
    else if n < c.utf8Size then (line, column + n)
    else placeAfter (n - c.utf8Size) cs (if c = '\n' then (line + 1, 0) else (line, column + c.utf8Size))

/-- The number of bytes of a text. -/
def byteCount (s : List Char) : Nat := s.foldl (fun n c => n + c.utf8Size) 0

/-- The place of a fault in the text that was read. -/
def Stuck.locate (text : List Char) (e : Stuck) : Located :=
  let total := byteCount text
  let offset := min total (total - byteCount e.rest + e.ahead)
  let (line, column) := placeAfter offset text (1, 0)
  ⟨e.fault, line, column⟩

/-- A reader: a value and the rest of the text, or a fault. -/
abbrev Reader (α : Type) := List Char → Except Stuck (α × List Char)

namespace Read

/-- A fault at the last character that was taken. -/
def failAt {α : Type} (fault : JsonFault) (rest : List Char) : Except Stuck α := .error ⟨fault, rest, 0⟩

/-- A fault at the next character. -/
def failNext {α : Type} (fault : JsonFault) (rest : List Char) : Except Stuck α := .error ⟨fault, rest, 1⟩

/-- The four blanks of JSON. -/
def isSpace (c : Char) : Bool := c == ' ' || c == '\n' || c == '\t' || c == '\r'

/-- Drops blanks. -/
def skipSpace (s : List Char) : List Char := s.dropWhile isSpace

/-! ### Words -/

/-- Takes the letters of a word. -/
def word : List Char → List Char → Except Stuck (List Char)
  | [], s => .ok s
  | _ :: _, [] => failNext .eofValue []
  | c :: cs, d :: s => if c = d then word cs s else failAt .expectedIdent s

/-! ### Numbers -/

/-- The value of a decimal digit. -/
def digitValue (c : Char) : Nat := c.toNat - '0'.toNat

/-- Appends digits to a significand until it would leave 64 bits; gives the significand and how
many digits went in. -/
def absorb (significand taken : Nat) : List Char → Nat × Nat
  | [] => (significand, taken)
  | c :: cs =>
    let next := significand * 10 + digitValue c
    if next < Nat.pow 2 64 then absorb next (taken + 1) cs else (significand, taken)

/-- A floating-point number from its decimal parts. -/
def float (negative : Bool) (significand : Nat) (e : Int) (s : List Char) : Except Stuck (Number × List Char) :=
  match Binary64.ofDecimal significand e with
  | some x => .ok (.float (if negative then x.neg else x), s)
  | none => failAt .numberOutOfRange s

/-- Reads the digits of an exponent. One that needs more than 31 bits makes a number zero or puts
it out of range. -/
def exponentDigits (negative : Bool) (significand : Nat) (start : Int) (down : Bool) :
    Nat → List Char → Except Stuck (Number × List Char)
  | e, [] => float negative significand (if down then start - e else start + e) []
  | e, c :: s =>
    if c.isDigit then
      let next := e * 10 + digitValue c
      if Nat.pow 2 31 ≤ next then
        if significand ≠ 0 ∧ down = false then failAt .numberOutOfRange s
        else .ok (.float (Binary64.zero negative), s.dropWhile Char.isDigit)
      else exponentDigits negative significand start down next s
    else float negative significand (if down then start - e else start + e) (c :: s)

/-- Reads what stands behind the letter of an exponent. -/
def exponent (negative : Bool) (significand : Nat) (start : Int) (s : List Char) :
    Except Stuck (Number × List Char) :=
  let (down, s) := match s with
    | '+' :: r => (false, r)
    | '-' :: r => (true, r)
    | r => (false, r)
  match s with
  | [] => failAt .eofValue []
  | c :: r =>
    if c.isDigit then exponentDigits negative significand start down (digitValue c) r
    else failAt .invalidNumber r

/-- Reads the rest of a number whose fraction, if it has one, is already taken up. -/
def numberEnd (negative : Bool) (significand : Nat) (e : Int) (s : List Char) :
    Except Stuck (Number × List Char) :=
  match s with
  | 'e' :: r => exponent negative significand e r
  | 'E' :: r => exponent negative significand e r
  | r => float negative significand e r

/-- An integer if it fits, else a floating-point number. Minus zero is a floating-point number. -/
def integer (negative : Bool) (significand : Nat) : Number :=
  if negative then
    if significand = 0 then .float (Binary64.zero true)
    else if significand ≤ Nat.pow 2 63 then .int (-significand)
    else .float (Binary64.ofInt (-significand))
  else .int significand

/-- Reads what stands behind the integer part: its significand, and how many of its digits were
left out. -/
def numberTail (negative : Bool) (significand dropped : Nat) (s : List Char) :
    Except Stuck (Number × List Char) :=
  match s with
  | '.' :: r =>
    match r.takeWhile Char.isDigit, r.dropWhile Char.isDigit with
    | [], t => failNext (if t.isEmpty then .eofValue else .invalidNumber) t
    | ds, t =>
      let (significand, taken) := absorb significand 0 ds
      numberEnd negative significand ((dropped : Int) - taken) t
  | 'e' :: _ => numberEnd negative significand dropped s
  | 'E' :: _ => numberEnd negative significand dropped s
  | r => if dropped = 0 then .ok (integer negative significand, r) else float negative significand dropped r

/-- Reads a number behind its sign. -/
def number (negative : Bool) : Reader Number
  | [] => failAt .eofValue []
  | '0' :: r =>
    if (r.head?.map Char.isDigit).getD false then failNext .invalidNumber r
    else numberTail negative 0 0 r
  | c :: r =>
    if c.isDigit then
      let ds := c :: r.takeWhile Char.isDigit
      let (significand, taken) := absorb 0 0 ds
      numberTail negative significand (ds.length - taken) (r.dropWhile Char.isDigit)
    else failAt .invalidNumber r

/-! ### Strings -/

/-- The value of a hexadecimal digit. -/
def hexValue (c : Char) : Option Nat :=
  if '0' ≤ c ∧ c ≤ '9' then some (c.toNat - 48)
  else if 'a' ≤ c ∧ c ≤ 'f' then some (c.toNat - 87)
  else if 'A' ≤ c ∧ c ≤ 'F' then some (c.toNat - 55)
  else none

/-- Reads four hexadecimal digits, given as bytes of the text. -/
def hex4 (s : List Char) : Except Stuck (Nat × List Char) :=
  if byteCount (s.take 4) < 4 then failAt .eofString []
  else
    match s with
    | a :: b :: c :: d :: r =>
      match hexValue a, hexValue b, hexValue c, hexValue d with
      | some a, some b, some c, some d => .ok (((a * 16 + b) * 16 + c) * 16 + d, r)
      | _, _, _, _ => .error ⟨.invalidEscape, s, 4⟩
    | s => .error ⟨.invalidEscape, s, 4⟩

/-- Reads a character given by its code, which may need a pair of surrogates. -/
def hexEscape (s : List Char) : Except Stuck (Char × List Char) :=
  match hex4 s with
  | .error e => .error e
  | .ok (n, s) =>
    if 0xDC00 ≤ n ∧ n ≤ 0xDFFF then failAt .loneLeadingSurrogate s
    else if 0xD800 ≤ n ∧ n ≤ 0xDBFF then
      match s with
      | [] => failAt .eofString []
      | '\\' :: [] => failAt .eofString []
      | '\\' :: 'u' :: s =>
        match hex4 s with
        | .error e => .error e
        | .ok (m, s) =>
          if 0xDC00 ≤ m ∧ m ≤ 0xDFFF then
            .ok (Char.ofNat ((n - 0xD800) * 0x400 + (m - 0xDC00) + 0x10000), s)
          else failAt .loneLeadingSurrogate s
      | '\\' :: s => .error ⟨.unexpectedEndOfHexEscape, s, 1⟩
      | s => .error ⟨.unexpectedEndOfHexEscape, s, 1⟩
    else .ok (Char.ofNat n, s)

/-- The character that a letter behind a backslash stands for. -/
def escaped : Char → Option Char
  | '"' => some '"'
  | '\\' => some '\\'
  | '/' => some '/'
  | 'b' => some (Char.ofNat 8)
  | 'f' => some (Char.ofNat 12)
  | 'n' => some '\n'
  | 'r' => some '\r'
  | 't' => some '\t'
  | _ => none

/-- Reads a string behind its opening quote; `taken` holds the characters read, the last first. -/
def stringBody : Nat → List Char → Reader String
  | 0, _, s => failAt .eofString s
  | _ + 1, _, [] => failAt .eofString []
  | fuel + 1, taken, c :: s =>
    if c = '"' then .ok (String.ofList taken.reverse, s)
    else if c = '\\' then
      match s with
      | [] => failAt .eofString []
      | 'u' :: r =>
        match hexEscape r with
        | .error e => .error e
        | .ok (d, r) => stringBody fuel (d :: taken) r
      | d :: r =>
        match escaped d with
        | some d => stringBody fuel (d :: taken) r
        | none => failAt .invalidEscape r
    else if c.toNat < 32 then failAt .controlCharacter s
    else stringBody fuel (c :: taken) s

/-! ### Arrays and objects -/

/-- Reads the items of an array behind the first one, up to the closing bracket. -/
def items (item : Reader Json) : Nat → List Json → Reader (List Json)
  | 0, _, s => failNext .eofList s
  | fuel + 1, taken, s =>
    match skipSpace s with
    | [] => failNext .eofList []
    | ']' :: r => .ok (taken.reverse, r)
    | ',' :: r =>
      match skipSpace r with
      | [] => failNext .eofValue []
      | ']' :: r => failNext .trailingComma (']' :: r)
      | r =>
        match item r with
        | .error e => .error e
        | .ok (j, r) => items item fuel (j :: taken) r
    | r => failNext .expectedListCommaOrEnd r

/-- Reads an array behind its opening bracket. -/
def array (item : Reader Json) (fuel : Nat) : Reader Json := fun s =>
  match skipSpace s with
  | [] => failNext .eofList []
  | ']' :: r => .ok (.arr [], r)
  | r =>
    match item r with
    | .error e => .error e
    | .ok (j, r) =>
      match items item fuel [j] r with
      | .error e => .error e
      | .ok (js, r) => .ok (.arr js, r)

/-- Reads a member from its opening quote on. -/
def member (value : Reader Json) (fuel : Nat) : Reader (String × Json)
  | '"' :: s =>
    match stringBody fuel [] s with
    | .error e => .error e
    | .ok (k, s) =>
      match skipSpace s with
      | [] => failNext .eofObject []
      | ':' :: r =>
        match value (skipSpace r) with
        | .error e => .error e
        | .ok (j, r) => .ok ((k, j), r)
      | r => failNext .expectedColon r
  | s => failNext .keyMustBeString s

/-- Reads the members of an object behind the first one, up to the closing brace. -/
def members (one : Reader (String × Json)) : Nat → Members → Reader Members
  | 0, _, s => failNext .eofObject s
  | fuel + 1, taken, s =>
    match skipSpace s with
    | [] => failNext .eofObject []
    | '}' :: r => .ok (taken.reverse, r)
    | ',' :: r =>
      match skipSpace r with
      | [] => failNext .eofValue []
      | '}' :: r => failNext .trailingComma ('}' :: r)
      | r =>
        match one r with
        | .error e => .error e
        | .ok (m, r) => members one fuel (m :: taken) r
    | r => failNext .expectedObjectCommaOrEnd r

/-- Reads an object behind its opening brace. -/
def object (one : Reader (String × Json)) (fuel : Nat) : Reader Members := fun s =>
  match skipSpace s with
  | [] => failNext .eofObject []
  | '}' :: r => .ok ([], r)
  | r =>
    match one r with
    | .error e => .error e
    | .ok (m, r) => members one fuel [m] r

/-- Reads a value from its first character on; `depth` levels of nesting are allowed. -/
def value (fuel : Nat) : Nat → Reader Json
  | _, [] => failNext .eofValue []
  | depth, c :: s =>
    if c = 'n' then (word ['u', 'l', 'l'] s).map (.null, ·)
    else if c = 't' then (word ['r', 'u', 'e'] s).map (.bool true, ·)
    else if c = 'f' then (word ['a', 'l', 's', 'e'] s).map (.bool false, ·)
    else if c = '-' then (number true s).map fun (n, r) => (.num n, r)
    else if c.isDigit then (number false (c :: s)).map fun (n, r) => (.num n, r)
    else if c = '"' then (stringBody fuel [] s).map fun (t, r) => (.str t, r)
    else if c = '[' then
      match depth with
      | 0 => failNext .recursionLimit (c :: s)
      | depth + 1 => array (value fuel depth) fuel s
    else if c = '{' then
      match depth with
      | 0 => failNext .recursionLimit (c :: s)
      | depth + 1 => (object (member (value fuel depth) fuel) fuel s).map fun (ms, r) => (.obj ms, r)
    else failNext .expectedValue (c :: s)

/-- How deep a text may nest arrays and objects. -/
def depthLimit : Nat := 127

/-- Reads a whole text: one value with blanks around it. -/
def whole {α : Type} (one : Reader α) (text : List Char) : Except Located α :=
  match one (skipSpace text) with
  | .error e => .error (e.locate text)
  | .ok (a, rest) =>
    match skipSpace rest with
    | [] => .ok a
    | r => .error ((⟨.trailingCharacters, r, 1⟩ : Stuck).locate text)

end Read

namespace Json

/-- The value that a text spells, with equal member names still apart. -/
def readRaw (text : List Char) : Except Located Json :=
  Read.whole (Read.value (text.length + 1) Read.depthLimit) text

/-- The value that a text stands for. -/
def parse (text : List Char) : Except Located Json := (readRaw text).map merged

/-- The value that a string stands for. -/
def ofText (s : String) : Except Located Json := parse s.toList

/-- How a message shows a value that has the wrong type. -/
def described : Json → String
  | .null => "null"
  | .bool b => "boolean `" ++ (if b then "true" else "false") ++ "`"
  | .num (.int i) => "integer `" ++ toString i ++ "`"
  | .num (.float x) => "floating point `" ++ String.ofList (DecimalStyle.pointedPlain.text x) ++ "`"
  | .str s => "string " ++ Text.quoted s
  | .arr _ => "sequence"
  | .obj _ => "map"

end Json

namespace Read

/-- Reads an object and nothing else: a value of another type is a fault of its own, found before
an array is entered and behind any other value. -/
def onlyObject (fuel : Nat) : Reader Members
  | '{' :: s => object (member (value fuel 126) fuel) fuel s
  | '[' :: s => .error ⟨.unexpectedType "sequence" "a map", '[' :: s, 0⟩
  | s =>
    match value fuel 127 s with
    | .error e => .error e
    | .ok (j, r) => .error ⟨.unexpectedType j.described "a map", r, 0⟩

end Read

/-- The members of the object that a text stands for. -/
def Json.parseObject (text : List Char) : Except Located Members :=
  (Read.whole (Read.onlyObject (text.length + 1)) text).map fun ms =>
    Members.insertAll [] (Json.mergedMembers ms)

end Stencil
