import Stencil.Text.Blank
import Stencil.Text.Pieces

/-!
# Command scripts

A script is a list of commands, as a command shell reads them: words with quotes and variables,
redirections, pipelines, lists joined by `&&` and `||`, groups, and the words `if` and `while`.
`Script.read?` reads a text first as lexemes and then as a script; it answers `none` where a quote
or a group is not closed, or a command is missing.
-/

namespace Stencil

mutual

/-- A piece of a word. -/
inductive Piece where
  /-- Characters that stand for themselves. -/
  | plain (s : List Char)
  /-- Characters within quotes or behind a backslash. -/
  | fixed (s : List Char)
  /-- The value of a variable; within quotes it stays one word. -/
  | variable (name : String) (inQuotes : Bool)
  /-- What a script prints. -/
  | output (s : Script) (inQuotes : Bool)

/-- A redirection of one of the streams of a command: 0 is its input, 1 its output, 2 its messages. -/
inductive Redirect where
  /-- From a file. -/
  | source (file : List Piece)
  /-- To a file, whose content goes first if it is kept. -/
  | target (stream : Nat) (keep : Bool) (file : List Piece)
  /-- To where another stream goes. -/
  | like (stream : Nat) (other : List Piece)

/-- A script. -/
inductive Script where
  /-- Nothing. -/
  | skip
  /-- A command: assignments, words and redirections, with the number of its line. -/
  | simple (line : Nat) (assignments : List (String × List Piece)) (words : List (List Piece))
      (redirects : List Redirect)
  | group (apart : Bool) (body : Script) (redirects : List Redirect)
  | not (body : Script)
  | pipe (first second : Script)
  | next (first second : Script)
  | and (first second : Script)
  | or (first second : Script)
  | cond (test yes no : Script)
  | loop (test body : Script)

end

instance : Inhabited Script := ⟨.skip⟩

/-- The parts that a script is read from. -/
inductive Lexeme where
  | word (line : Nat) (pieces : List Piece)
  /-- An operator between words. -/
  | operator (text : String)
  /-- A redirection operator, with the stream that it is about. -/
  | redirect (stream : Option Nat) (text : String)
  | lineEnd

namespace Script

/-! ### Lexemes -/

/-- The characters that end a word. -/
def wordEnds : List Char := " \t\n;&|<>()".toList

/-- A character of the name of a variable. -/
def isNameChar (c : Char) : Bool := c.isAlphanum || c == '_'

/-- Variables of a single character. -/
def specialNames : List Char := "$?#0123456789@*!-".toList

/-- The name of a variable at the head of a text behind the dollar sign, and what is left. -/
def variableName (s : List Char) : Option (String × List Char) :=
  match s with
  | '{' :: rest =>
    let name := rest.takeWhile (· != '}')
    match rest.drop name.length with
    | '}' :: rest => some (String.ofList name, rest)
    | _ => none
  | c :: rest =>
    if specialNames.contains c then some (String.ofList [c], rest)
    else
      let name := s.takeWhile isNameChar
      if name.isEmpty then none else some (String.ofList name, s.drop name.length)
  | [] => none

/-- The text up to the parenthesis that closes a group, and what is behind it; `depth` groups are
open within it. Quoted parts are passed over. -/
def untilClosed : Nat → Option Char → List Char → Option (List Char × List Char)
  | _, _, [] => none
  | depth, none, '\\' :: c :: rest =>
    (untilClosed depth none rest).map fun (a, b) => ('\\' :: c :: a, b)
  | depth, some '"', '\\' :: c :: rest =>
    (untilClosed depth (some '"') rest).map fun (a, b) => ('\\' :: c :: a, b)
  | depth, some q, c :: rest =>
    (untilClosed depth (if c = q then none else some q) rest).map fun (a, b) => (c :: a, b)
  | depth, none, c :: rest =>
    if c = '"' ∨ c = '\'' then (untilClosed depth (some c) rest).map fun (a, b) => (c :: a, b)
    else if c = '(' then (untilClosed (depth + 1) none rest).map fun (a, b) => (c :: a, b)
    else if c = ')' then
      match depth with
      | 0 => some ([], rest)
      | depth + 1 => (untilClosed depth none rest).map fun (a, b) => (c :: a, b)
    else (untilClosed depth none rest).map fun (a, b) => (c :: a, b)

/-- The operators, those that begin another one behind it. -/
def operators : List String := [";;", ";", "&&", "&", "||", "|", "(", ")"]

/-- The redirection operators, those that begin another one behind it. -/
def redirectOperators : List String := [">>", ">&", ">|", ">", "<&", "<"]

/-- The operator at the head of a text, and what is left. -/
def operatorOf (ops : List String) (s : List Char) : Option (String × List Char) :=
  ops.findSome? fun op => (Text.after? op.toList s).map fun rest => (op, rest)

/-- The text of a word that has no quotes and no variables in it. -/
def plainText? : List Piece → Option String
  | [] => some ""
  | .plain s :: rest => (plainText? rest).map fun t => String.ofList s ++ t
  | _ => none

/-- The number that a word of digits alone stands for. -/
def streamOf (pieces : List Piece) : Option Nat :=
  match plainText? pieces with
  | some t => if !t.isEmpty && t.toList.all Char.isDigit then t.toNat? else none
  | none => none

/-- The characters that a backslash escapes within double quotes. -/
def quotable : List Char := "$\x60\"\\".toList

/-! ### Grammar -/

/-- A reader of lexemes. -/
abbrev Reader := List Lexeme → Option (Script × List Lexeme)

/-- The lexemes without the line ends in front. -/
def skipLineEnds : List Lexeme → List Lexeme
  | .lineEnd :: rest => skipLineEnds rest
  | rest => rest

/-- The word is one of the language's own. -/
def isKeyword (keyword : String) (pieces : List Piece) : Bool := plainText? pieces == some keyword

/-- What is left behind a keyword. -/
def afterKeyword (keyword : String) (ls : List Lexeme) : Option (List Lexeme) :=
  match skipLineEnds ls with
  | .word _ pieces :: rest => if isKeyword keyword pieces then some rest else none
  | _ => none

/-- The words that end a list of commands. -/
def closers : List String := ["\x7d", "then", "else", "elif", "fi", "do", "done"]

/-- A list of commands ends here. -/
def atEnd : List Lexeme → Bool
  | [] => true
  | .operator op :: _ => op == ")"
  | .word _ pieces :: _ => closers.any (isKeyword · pieces)
  | _ => false

/-- The assignment that a word spells. -/
def assignment? : List Piece → Option (String × List Piece)
  | .plain s :: rest =>
    let name := s.takeWhile (· != '=')
    match s.drop name.length with
    | '=' :: value =>
      if !name.isEmpty && name.all isNameChar && !(name.head?.any Char.isDigit) then
        some (String.ofList name, .plain value :: rest)
      else none
    | _ => none
  | _ => none

/-- The redirection that an operator and a word spell. -/
def redirectOf (stream : Option Nat) (op : String) (file : List Piece) : Redirect :=
  match op with
  | "<" => .source file
  | "<&" => .like (stream.getD 0) file
  | ">&" => .like (stream.getD 1) file
  | ">>" => .target (stream.getD 1) true file
  | _ => .target (stream.getD 1) false file

/-- Reads redirections. -/
def redirects : List Lexeme → Option (List Redirect × List Lexeme)
  | .redirect stream op :: .word _ file :: rest =>
    (redirects rest).map fun (rs, rest) => (redirectOf stream op file :: rs, rest)
  | .redirect _ _ :: _ => none
  | rest => some ([], rest)

/-- A command whose words are being read. -/
structure Draft where
  line : Nat
  assignments : List (String × List Piece)
  words : List (List Piece)
  redirects : List Redirect

/-- The command. -/
def Draft.script (d : Draft) : Script := .simple d.line d.assignments d.words d.redirects

/-- Adds a word: an assignment as long as there is no other word before it. -/
def Draft.add (d : Draft) (pieces : List Piece) : Draft :=
  match d.words, assignment? pieces with
  | [], some a => { d with assignments := d.assignments ++ [a] }
  | _, _ => { d with words := d.words ++ [pieces] }

/-- Reads the words and redirections of a command. -/
def simpleRest (d : Draft) : List Lexeme → Option (Script × List Lexeme)
  | .word _ pieces :: rest => simpleRest (d.add pieces) rest
  | .redirect stream op :: .word _ file :: rest =>
    simpleRest { d with redirects := d.redirects ++ [redirectOf stream op file] } rest
  | .redirect _ _ :: _ => none
  | rest => some (d.script, rest)

mutual

/-- Reads a list of commands up to where it ends. -/
def list : Nat → Reader
  | 0, _ => none
  | fuel + 1, ls =>
    match ls with
    | .lineEnd :: rest => list fuel rest
    | ls =>
      if atEnd ls then some (.skip, ls)
      else (andOr fuel ls).bind fun (first, rest) => listRest fuel first rest

/-- Reads the commands behind the first one of a list. -/
def listRest : Nat → Script → Reader
  | 0, _, _ => none
  | fuel + 1, first, ls =>
    match ls with
    | .operator ";" :: rest | .operator "&" :: rest | .lineEnd :: rest =>
      (list fuel rest).map fun (second, rest) => (.next first second, rest)
    | ls => if atEnd ls then some (first, ls) else none

/-- Reads commands joined by `&&` and `||`. -/
def andOr : Nat → Reader
  | 0, _ => none
  | fuel + 1, ls => (pipeline fuel ls).bind fun (first, rest) => andOrRest fuel first rest

/-- Reads the commands joined to the first one. -/
def andOrRest : Nat → Script → Reader
  | 0, _, _ => none
  | fuel + 1, first, ls =>
    match ls with
    | .operator "&&" :: rest =>
      (pipeline fuel (skipLineEnds rest)).bind fun (second, rest) => andOrRest fuel (.and first second) rest
    | .operator "||" :: rest =>
      (pipeline fuel (skipLineEnds rest)).bind fun (second, rest) => andOrRest fuel (.or first second) rest
    | ls => some (first, ls)

/-- Reads a pipeline. -/
def pipeline : Nat → Reader
  | 0, _ => none
  | fuel + 1, ls =>
    match ls with
    | .word line pieces :: rest =>
      if isKeyword "!" pieces then (pipeline fuel rest).map fun (p, rest) => (.not p, rest)
      else (command fuel (.word line pieces :: rest)).bind fun (first, rest) => pipeRest fuel first rest
    | ls => (command fuel ls).bind fun (first, rest) => pipeRest fuel first rest

/-- Reads the commands that the output goes on to. -/
def pipeRest : Nat → Script → Reader
  | 0, _, _ => none
  | fuel + 1, first, ls =>
    match ls with
    | .operator "|" :: rest =>
      (command fuel (skipLineEnds rest)).bind fun (second, rest) => pipeRest fuel (.pipe first second) rest
    | ls => some (first, ls)

/-- Reads one command. -/
def command : Nat → Reader
  | 0, _ => none
  | fuel + 1, ls =>
    match ls with
    | .operator "(" :: rest =>
      match list fuel rest with
      | some (body, .operator ")" :: rest) =>
        (redirects rest).map fun (rs, rest) => (.group true body rs, rest)
      | _ => none
    | .word line pieces :: rest =>
      if isKeyword "\x7b" pieces then
        (list fuel rest).bind fun (body, rest) =>
          (afterKeyword "\x7d" rest).bind fun rest =>
            (redirects rest).map fun (rs, rest) => (.group false body rs, rest)
      else if isKeyword "if" pieces then
        (conditional fuel rest).bind fun (body, rest) =>
          (redirects rest).map fun (rs, rest) => (.group false body rs, rest)
      else if isKeyword "while" pieces then
        (list fuel rest).bind fun (test, rest) =>
          (afterKeyword "do" rest).bind fun rest =>
            (list fuel rest).bind fun (body, rest) =>
              (afterKeyword "done" rest).bind fun rest =>
                (redirects rest).map fun (rs, rest) => (.group false (.loop test body) rs, rest)
      else if closers.any (isKeyword · pieces) then none
      else simpleRest ⟨line, [], [], []⟩ (.word line pieces :: rest)
    | .redirect stream op :: rest => simpleRest ⟨1, [], [], []⟩ (.redirect stream op :: rest)
    | _ => none

/-- Reads a condition behind the word `if`. -/
def conditional : Nat → Reader
  | 0, _ => none
  | fuel + 1, ls =>
    (list fuel ls).bind fun (test, rest) =>
      (afterKeyword "then" rest).bind fun rest =>
        (list fuel rest).bind fun (yes, rest) =>
          match afterKeyword "fi" rest, afterKeyword "else" rest, afterKeyword "elif" rest with
          | some rest, _, _ => some (.cond test yes .skip, rest)
          | _, some rest, _ =>
            (list fuel rest).bind fun (no, rest) =>
              (afterKeyword "fi" rest).map fun rest => (.cond test yes no, rest)
          | _, _, some rest => (conditional fuel rest).map fun (no, rest) => (.cond test yes no, rest)
          | _, _, _ => none

end

/-- The script of lexemes, if all of them belong to it. -/
def ofLexemes (ls : List Lexeme) : Option Script :=
  match list (8 * ls.length + 8) ls with
  | some (s, []) => some s
  | _ => none

mutual

/-- The pieces of the text within double quotes, and what is behind them. -/
def quotedPieces : Nat → List Char → Option (List Piece × List Char)
  | 0, _ => none
  | _, [] => none
  | fuel + 1, c :: rest =>
    match c, rest with
    | '"', rest => some ([], rest)
    | '\\', d :: rest' =>
      if d = '\n' then quotedPieces fuel rest'
      else
        let s := if quotable.contains d then [d] else ['\\', d]
        (quotedPieces fuel rest').map fun (ps, r) => (.fixed s :: ps, r)
    | '$', rest =>
      match dollar fuel true rest with
      | none => none
      | some (p, rest) => (quotedPieces fuel rest).map fun (ps, r) => (p :: ps, r)
    | c, rest => (quotedPieces fuel rest).map fun (ps, r) => (.fixed [c] :: ps, r)

/-- What a dollar sign stands for. -/
def dollar : Nat → Bool → List Char → Option (Piece × List Char)
  | 0, _, _ => none
  | fuel + 1, inQuotes, s =>
    match s with
    | '(' :: rest =>
      (untilClosed 0 none rest).bind fun (inner, rest) =>
        ((lexemes fuel 1 inner).bind ofLexemes).map fun script => (.output script inQuotes, rest)
    | s =>
      match variableName s with
      | some (name, rest) => some (.variable name inQuotes, rest)
      | none => some (.fixed ['$'], s)

/-- The pieces of a word, and what is behind it. -/
def wordPieces : Nat → List Char → Option (List Piece × List Char)
  | 0, _ => none
  | _, [] => some ([], [])
  | fuel + 1, c :: rest =>
    if wordEnds.contains c then some ([], c :: rest)
    else
      match c, rest with
      | '\'', rest =>
        let inner := rest.takeWhile (· != '\'')
        match rest.drop inner.length with
        | _ :: rest => (wordPieces fuel rest).map fun (ps, r) => (.fixed inner :: ps, r)
        | [] => none
      | '"', rest =>
        (quotedPieces fuel rest).bind fun (inner, rest) =>
          (wordPieces fuel rest).map fun (ps, r) => (.fixed [] :: inner ++ ps, r)
      | '\\', '\n' :: rest => wordPieces fuel rest
      | '\\', d :: rest => (wordPieces fuel rest).map fun (ps, r) => (.fixed [d] :: ps, r)
      | '$', rest =>
        match dollar fuel false rest with
        | none => none
        | some (p, rest) => (wordPieces fuel rest).map fun (ps, r) => (p :: ps, r)
      | c, rest =>
        (wordPieces fuel rest).map fun (ps, r) =>
          match ps with
          | .plain s :: ps => (.plain (c :: s) :: ps, r)
          | ps => (.plain [c] :: ps, r)

/-- The lexemes of a text whose first line has a number. -/
def lexemes : Nat → Nat → List Char → Option (List Lexeme)
  | 0, _, _ => none
  | _, _, [] => some []
  | fuel + 1, line, c :: rest =>
    if c = ' ' ∨ c = '\t' then lexemes fuel line rest
    else if c = '\n' then (lexemes fuel (line + 1) rest).map (.lineEnd :: ·)
    else if c = '#' then lexemes fuel line (rest.dropWhile (· != '\n'))
    else
      match operatorOf operators (c :: rest), operatorOf redirectOperators (c :: rest) with
      | some (op, rest), _ => (lexemes fuel line rest).map (.operator op :: ·)
      | none, some (op, rest) => (lexemes fuel line rest).map (.redirect none op :: ·)
      | none, none =>
        (wordPieces fuel (c :: rest)).bind fun (ps, behind) =>
          let passed := ((c :: rest).take (rest.length + 1 - behind.length)).count '\n'
          match streamOf ps, operatorOf redirectOperators behind with
          | some n, some (op, behind) => (lexemes fuel (line + passed) behind).map (.redirect (some n) op :: ·)
          | _, _ => (lexemes fuel (line + passed) behind).map (.word line ps :: ·)

end

/-- The script that a text spells. -/
def read? (text : String) : Option Script :=
  (lexemes (4 * text.length + 4) 1 text.toList).bind ofLexemes

end Script

end Stencil
