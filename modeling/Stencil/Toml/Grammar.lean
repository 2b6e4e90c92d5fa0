import Stencil.Text.Utf8
import Stencil.Toml.Token

/-!
# The grammar of TOML

`statements` reads a TOML text as a list of statements: headers of tables and entries. Words are
kept as they stand in the text; what they mean is found out later, so a word may turn out to be
wrong, or empty where one was expected. Every other departure from the grammar is found here, and
only the first one counts.
-/

namespace Stencil.Toml

/-- A word of the text with its place. -/
structure Word where
  quoting : Quoting
  start : Nat
  text : List Char
deriving DecidableEq, Repr

namespace Word

def stop (w : Word) : Nat := w.start + byteLength w.text
def span (w : Word) : Span := ⟨w.start, w.stop⟩

/-- The word that is missing at a place. -/
def missing (place : Nat) : Word := ⟨.bare, place, []⟩

end Word

/-- A value as it is written. -/
inductive Item where
  | word (w : Word)
  | array (span : Span) (items : List Item)
  | table (span : Span) (entries : List (List Word × Item))

/-- A statement: the header of a table, or an entry. -/
inductive Statement where
  | header (ofArray : Bool) (span : Span) (key : List Word)
  | entry (key : List Word) (value : Item)

/-- What was expected, as a message says it. -/
inductive Expected where
  /-- These very characters. -/
  | exactly (text : String)
  /-- Something that the text describes. -/
  | some (description : String)

/-- The wording of what was expected. -/
def Expected.wording : Expected → String
  | .exactly "\n" => "newline"
  | .exactly text => "`" ++ text ++ "`"
  | .some description => description

/-- A message that ends with what was expected. -/
def expecting (message : String) (expected : List Expected) : String :=
  message ++ ", expected " ++
    (if expected.isEmpty then "nothing" else Text.joinWith ", " (expected.map Expected.wording))

/-- A flaw at a stretch. -/
def Flaw.at (span : Span) (message : String) (expected : List Expected) : Flaw :=
  ⟨expecting message expected, span⟩

namespace Grammar

/-- A reader of tokens. -/
abbrev Reader (α : Type) := List Token → Except Flaw (α × List Token)

/-- What is left behind blanks. -/
def skipBlanks : List Token → List Token
  | t :: ts => if t.kind = .blanks then skipBlanks ts else t :: ts
  | [] => []

/-- Where the next token begins. -/
def place : List Token → Nat
  | t :: _ => t.start
  | [] => 0

/-- Refuses a comment with a control character in it. -/
def checkComment (t : Token) : Except Flaw Unit :=
  let fits : Char → Bool := fun c => c == '\t' || (0x20 ≤ c.toNat && c.toNat ≤ 0x7E) || 0x80 ≤ c.toNat
  match t.text.drop 1 |>.dropWhile fits with
  | [] => .ok ()
  | rest =>
    let here := t.stop - byteLength rest
    .error (Flaw.at ⟨here, here⟩ "invalid comment character" [.some "printable characters"])

/-- Refuses a carriage return that no line feed follows. -/
def checkNewline (t : Token) : Except Flaw Unit :=
  if t.text = ['\r'] then
    .error (Flaw.at ⟨t.stop, t.stop⟩ "carriage return must be followed by newline" [.exactly "\n"])
  else .ok ()

/-- What is left behind blanks, comments and line ends. -/
def skipLines : List Token → Except Flaw (List Token)
  | [] => .ok []
  | t :: ts =>
    match t.kind with
    | .blanks => skipLines ts
    | .comment => (checkComment t).bind fun _ => skipLines ts
    | .newline => (checkNewline t).bind fun _ => skipLines ts
    | _ => .ok (t :: ts)

/-- What is left behind the end of a line, which may hold a comment. -/
def endLine : List Token → Except Flaw (List Token)
  | [] => .ok []
  | t :: ts =>
    match t.kind with
    | .blanks => endLine ts
    | .comment => (checkComment t).bind fun _ => endLine ts
    | .newline => (checkNewline t).bind fun _ => .ok ts
    | .done => .ok (t :: ts)
    | _ => .error (Flaw.at t.before "unexpected key or value" [.exactly "\n", .exactly "#"])

/-- The word of a token, if it is one. -/
def word? (t : Token) : Option Word :=
  match t.kind with
  | .word q => some ⟨q, t.start, t.text⟩
  | _ => none

/-- What is left behind a line of which nothing more counts. -/
def dropLine : List Token → Except Flaw (List Token)
  | [] => .ok []
  | t :: ts =>
    match t.kind with
    | .comment => (checkComment t).bind fun _ => dropLine ts
    | .newline => (checkNewline t).bind fun _ => .ok ts
    | .done => .ok (t :: ts)
    | _ => dropLine ts

/-! ### Keys -/

/-- The words of a dotted key behind its first one; `dot` is the end of a dot that waits for its
word. Where a word is missing there is an empty one. -/
def keyRest : Option Nat → List Token → List Word × List Token
  | none, [] => ([], [])
  | some dot, [] => ([.missing dot], [])
  | dot, t :: ts =>
    match t.kind, dot with
    | .blanks, _ => keyRest dot ts
    | .dot, none => keyRest (some t.stop) ts
    | .dot, some d => (.missing d :: (keyRest (some t.stop) ts).1, (keyRest (some t.stop) ts).2)
    | .word q, some _ => (⟨q, t.start, t.text⟩ :: (keyRest none ts).1, (keyRest none ts).2)
    | _, none => ([], t :: ts)
    | _, some d => ([.missing d], t :: ts)

/-- A dotted key whose first word is at hand. -/
def keyFrom (w : Word) (ts : List Token) : List Word × List Token :=
  ((w :: (keyRest none ts).1), (keyRest none ts).2)

/-- The key of a header; `last` is the end of what stands before it. -/
def headerKey (last : Nat) : Reader (List Word)
  | [] => .error (Flaw.at ⟨last, last⟩ "invalid table" [.some "key"])
  | t :: ts =>
    match t.kind with
    | .blanks => headerKey last ts
    | .dot => (headerKey t.stop ts).map fun (ws, rest) => (.missing t.start :: ws, rest)
    | .word q => .ok (keyFrom ⟨q, t.start, t.text⟩ ts)
    | _ => .error (Flaw.at ⟨last, last⟩ "invalid table" [.some "key"])

/-! ### Values -/

/-- How deep arrays and tables may be nested within each other. -/
def maxDepth : Nat := 80

/-- The rest of a bare word that goes on behind a dot. -/
def wordRest : List Token → List Char × List Token
  | [] => ([], [])
  | t :: ts =>
    if t.kind = .dot ∨ t.kind = .word .bare then (t.text ++ (wordRest ts).1, (wordRest ts).2)
    else ([], t :: ts)

/-- The text has the form of a date. -/
def isDate (s : List Char) : Bool :=
  s.length == 10 &&
    (s.zip "dddd-dd-dd".toList).all fun (c, form) => if form == '-' then c == '-' else c.isDigit

/-- A bare word; a date may have a time behind a space. -/
def bareWord (start : Nat) (text : List Char) (ts : List Token) : Word × List Token :=
  let (more, rest) := wordRest ts
  let whole := text ++ more
  match rest with
  | gap :: time :: rest' =>
    if isDate whole && gap.text == [' '] && time.kind == .word .bare &&
        (time.text.head?.any Char.isDigit) then
      let (tail, rest'') := wordRest rest'
      (⟨.bare, start, whole ++ ' ' :: (time.text ++ tail)⟩, rest'')
    else (⟨.bare, start, whole⟩, rest)
  | _ => (⟨.bare, start, whole⟩, rest)

/-- The word that a token begins. -/
def wordFrom (t : Token) (ts : List Token) : Word × List Token :=
  match t.kind with
  | .word .bare => bareWord t.start t.text ts
  | .word q => (⟨q, t.start, t.text⟩, ts)
  | _ => bareWord t.start t.text ts

/-- What a table within a line waits for. -/
inductive Awaited where
  | key | equals | value | comma
deriving DecidableEq

/-- What is expected in a table within a line. -/
def Awaited.expected : Awaited → List Expected
  | .key => [.some "key"]
  | .equals => [.exactly "="]
  | .value => [.some "value"]
  | .comma => [.exactly ","]

/-- The flaw of nesting too deep. -/
def tooDeep (t : Token) : Flaw := ⟨"cannot recurse further; max recursion depth met", t.span⟩

def missingComma (t : Token) : Flaw :=
  Flaw.at t.before "missing comma between array elements" [.exactly ","]

def missingBrace (t : Token) : Flaw :=
  Flaw.at t.before "missing inline table opening" [.exactly "\x7b"]

mutual

/-- Reads a value. The first number bounds the tokens read, the second one the depth. -/
def item : Nat → Nat → Reader Item
  | 0, _, ts => .ok (.word (.missing (place ts)), ts)
  | _, _, [] => .ok (.word (.missing 0), [])
  | fuel + 1, room, t :: ts =>
    match t.kind with
    | .comment | .comma | .newline | .done => .ok (.word (.missing t.start), t :: ts)
    | .blanks => item fuel room ts
    | .equals => .error (Flaw.at t.span "extra `=`" [])
    | .closeBrace => .error (missingBrace t)
    | .closeBracket => .error (Flaw.at t.before "missing array opening" [.exactly "["])
    | .openBracket =>
      match room with
      | 0 => .error (tooDeep t)
      | room + 1 => (items fuel room true ts).map fun ((stop, is), rest) => (.array ⟨t.start, stop⟩ is, rest)
    | .openBrace =>
      match room with
      | 0 => .error (tooDeep t)
      | room + 1 =>
        (entries fuel room .key ts).map fun ((stop, es), rest) => (.table ⟨t.start, stop⟩ es, rest)
    | .dot | .word _ => .ok (.word (wordFrom t ts).1, (wordFrom t ts).2)

/-- Reads the values of an array up to its end; `ready` tells that a value may come next. -/
def items : Nat → Nat → Bool → Reader (Nat × List Item)
  | 0, _, _, ts => .ok ((place ts, []), ts)
  | fuel + 1, room, ready, ts =>
    match skipLines ts with
    | .error e => .error e
    | .ok [] => .ok ((0, []), [])
    | .ok (t :: ts) =>
      match t.kind with
      | .done => .error (Flaw.at t.span "unclosed array" [.exactly "]"])
      | .closeBracket => .ok ((t.stop, []), ts)
      | .comma =>
        if ready then .error (Flaw.at t.span "extra comma in array" [.some "value"])
        else items fuel room true ts
      | .equals => .error (Flaw.at t.span "unexpected `=` in array" [.some "value", .exactly "]"])
      | .closeBrace => .error (if ready then missingBrace t else missingComma t)
      | _ =>
        if ready then
          match item fuel room (t :: ts) with
          | .error e => .error e
          | .ok (i, rest) => (items fuel room false rest).map fun ((stop, is), rest) => ((stop, i :: is), rest)
        else .error (missingComma t)

/-- Reads the entries of a table within a line up to its end. -/
def entries : Nat → Nat → Awaited → Reader (Nat × List (List Word × Item))
  | 0, _, _, ts => .ok ((place ts, []), ts)
  | fuel + 1, room, awaited, ts =>
    match skipLines ts with
    | .error e => .error e
    | .ok [] => .ok ((0, []), [])
    | .ok (t :: ts) =>
      match t.kind, awaited with
      | .done, _ => .error (Flaw.at t.span "unclosed inline table" [.exactly "\x7d"])
      | .closeBrace, .key | .closeBrace, .comma => .ok ((t.stop, []), ts)
      | .comma, .comma => entries fuel room .key ts
      | .comma, a => .error (Flaw.at t.before "extra comma in inline table" a.expected)
      | .word q, .key => entry fuel room (keyFrom ⟨q, t.start, t.text⟩ ts)
      | .dot, .key | .equals, .key => entry fuel room (keyFrom (.missing t.start) (t :: ts))
      | .equals, a => .error (Flaw.at t.before "extra assignment between key-value pairs" a.expected)
      | .closeBracket, _ => .error (Flaw.at t.before "missing array opening" [.exactly "["])
      | .openBracket, .key | .openBrace, .key =>
        .error (Flaw.at t.before "missing key for inline table element" [.some "key"])
      | _, a => .error (Flaw.at t.before "missing comma between key-value pairs" a.expected)

/-- Reads an entry of a table within a line whose key was read, and the entries behind it. -/
def entry : Nat → Nat → List Word × List Token → Except Flaw ((Nat × List (List Word × Item)) × List Token)
  | 0, _, (_, ts) => .ok ((place ts, []), ts)
  | fuel + 1, room, (key, ts) =>
    match skipLines ts with
    | .error e => .error e
    | .ok [] => .ok ((0, []), [])
    | .ok (t :: ts) =>
      match t.kind with
      | .equals =>
        match skipLines ts with
        | .error e => .error e
        | .ok ts =>
          match item fuel room ts with
          | .error e => .error e
          | .ok (i, rest) =>
            (entries fuel room .comma rest).map fun ((stop, es), rest) => ((stop, (key, i) :: es), rest)
      | .done => .error (Flaw.at t.span "unclosed inline table" [.exactly "\x7d"])
      | .comma => .error (Flaw.at t.before "extra comma in inline table" [.exactly "="])
      | _ => .error (Flaw.at t.before "missing assignment between key-value pairs" [.exactly "="])

end

/-! ### Statements -/

/-- Whether a header is one of an array of tables, where its key begins, and what is left. -/
def opened (opening : Token) : List Token → Bool × Nat × List Token
  | t :: rest => if t.kind = .openBracket then (true, t.stop, rest) else (false, opening.stop, t :: rest)
  | [] => (false, opening.stop, [])

/-- Reads a header whose first bracket is at hand. -/
def header (opening : Token) (tokens : List Token) : Except Flaw (Statement × List Token) := do
  let (ofArray, last, ts) := opened opening tokens
  let (key, ts) ← headerKey last ts
  let keyStop := (key.getLast?.map Word.stop).getD last
  let complete := key.getLast?.any fun w => !w.text.isEmpty
  match ofArray, skipBlanks ts with
  | false, ⟨.closeBracket, start, text⟩ :: rest =>
    return (.header false ⟨opening.start, start + byteLength text⟩ key, ← endLine rest)
  | true, ⟨.closeBracket, _, _⟩ :: ⟨.closeBracket, start, text⟩ :: rest =>
    return (.header true ⟨opening.start, start + byteLength text⟩ key, ← endLine rest)
  | true, ⟨.closeBracket, start, text⟩ :: _ =>
    let stop := start + byteLength text
    .error (Flaw.at ⟨stop, stop⟩ "unclosed array table" [.exactly "]"])
  | _, rest =>
    if complete then
      let (name, bracket) := if ofArray then ("unclosed array table", "]]") else ("unclosed table", "]")
      .error (Flaw.at ⟨keyStop, keyStop⟩ name [.exactly bracket])
    else return (.header ofArray ⟨opening.start, keyStop⟩ key, ← dropLine rest)

/-- Reads what stands behind the key of an entry. -/
def entryRest (key : List Word) (ts : List Token) : Except Flaw (Statement × List Token) := do
  match skipBlanks ts with
  | ⟨.equals, _, _⟩ :: rest =>
    let rest := skipBlanks rest
    let (value, rest) ← item (rest.length + 1) maxDepth rest
    return (.entry key value, ← endLine rest)
  | rest => .error (Flaw.at ⟨place rest, place rest⟩ "key with no value" [.exactly "="])

/-- Reads all statements, at most as many as the fuel. -/
def statementsFrom : Nat → List Token → Except Flaw (List Statement)
  | 0, _ => .ok []
  | _, [] => .ok []
  | fuel + 1, t :: ts => do
    let go (r : Except Flaw (Statement × List Token)) : Except Flaw (List Statement) := do
      let (s, rest) ← r
      return s :: (← statementsFrom fuel rest)
    match t.kind with
    | .blanks => statementsFrom fuel ts
    | .comment => do checkComment t; statementsFrom fuel ts
    | .newline => do checkNewline t; statementsFrom fuel ts
    | .done => return []
    | .openBracket => go (header t ts)
    | .closeBracket => .error (Flaw.at t.before "missing table open" [.exactly "["])
    | .comma | .openBrace | .closeBrace =>
      .error (Flaw.at t.before "invalid key-value pair" [.some "key"])
    | .word q =>
      let (key, rest) := keyFrom ⟨q, t.start, t.text⟩ ts
      go (entryRest key rest)
    | .dot | .equals =>
      let (key, rest) := keyFrom (.missing t.start) (t :: ts)
      go (entryRest key rest)

end Grammar

/-- The statements of a TOML text. -/
def statements (source : String) : Except Flaw (List Statement) :=
  let ts := tokens source
  Grammar.statementsFrom ts.length ts

end Stencil.Toml
