import Stencil.Text.Blank
import Stencil.Text.Pieces

/-!
# The tokens of a TOML text

A TOML text is cut into tokens without a remainder: each token begins where the one before it ends,
and the last one, `done`, is empty. Positions count bytes. A quoted text that is not closed reaches
to the end of its line, or of the whole text if it may have several lines.
-/

namespace Stencil.Toml

/-- A stretch of a text, in bytes. -/
structure Span where
  start : Nat
  stop : Nat
deriving DecidableEq, Repr, Inhabited

/-- What is wrong, and where. -/
structure Flaw where
  message : String
  span : Span
deriving DecidableEq, Repr

/-- How a text is quoted. -/
inductive Quoting where
  | bare
  /-- One line in single quotes, without escapes. -/
  | literal
  /-- One line in double quotes. -/
  | basic
  /-- Lines in three single quotes, without escapes. -/
  | longLiteral
  /-- Lines in three double quotes. -/
  | longBasic
deriving DecidableEq, Repr

/-- The kinds of tokens. -/
inductive TokenKind where
  | dot | equals | comma | openBracket | closeBracket | openBrace | closeBrace
  | blanks | comment | newline
  /-- A text: a key, or a value that is no array and no table. -/
  | word (q : Quoting)
  | done
deriving DecidableEq, Repr

/-- The number of bytes of characters. -/
def byteLength (cs : List Char) : Nat := (cs.map Char.utf8Size).foldl (· + ·) 0

/-- A token with its place. -/
structure Token where
  kind : TokenKind
  start : Nat
  text : List Char
deriving DecidableEq, Repr

namespace Token

/-- Where the token ends. -/
def stop (t : Token) : Nat := t.start + byteLength t.text

/-- The stretch that a token takes. -/
def span (t : Token) : Span := ⟨t.start, t.stop⟩

/-- The empty stretch before a token. -/
def before (t : Token) : Span := ⟨t.start, t.start⟩

end Token

/-- A blank within a line. -/
def isLineBlank (c : Char) : Bool := c == ' ' || c == '\t'

/-- The characters that end a bare word. -/
def wordEnds : List Char := ".=,[]\x7b\x7d \t#\r\n'\"".toList

/-- The tokens of a single character. -/
def punctuation : List (Char × TokenKind) :=
  [('.', .dot), ('=', .equals), (',', .comma), ('[', .openBracket), (']', .closeBracket),
   ('{', .openBrace), ('}', .closeBrace), ('\n', .newline)]

/-- How far a text in single quotes reaches behind the first one. -/
def literalExtent (s : List Char) : Nat :=
  let run := s.takeWhile fun c => c != '\'' && c != '\n'
  match s.drop run.length with
  | '\'' :: _ => run.length + 1
  | _ => run.length

/-- How far a text in double quotes reaches behind the first one. -/
def basicExtent : List Char → Nat
  | [] => 0
  | '"' :: _ => 1
  | '\n' :: _ => 0
  | '\\' :: '\\' :: rest => 2 + basicExtent rest
  | '\\' :: '"' :: rest => 2 + basicExtent rest
  | _ :: rest => 1 + basicExtent rest

/-- How many quotes belong to a long text at its end: three, and up to two that are content. -/
def closingExtent (quote : Char) (s : List Char) : Nat :=
  3 + min 2 (s.takeWhile (· == quote)).length

/-- How far a text in three quotes reaches behind them. -/
def longExtent (quote : Char) (escapes : Bool) : List Char → Nat
  | [] => 0
  | a :: rest =>
    match a, rest with
    | '\\', b :: rest' =>
      if escapes && (b == '\\' || b == '"') then 2 + longExtent quote escapes rest'
      else 1 + longExtent quote escapes (b :: rest')
    | a, b :: c :: rest' =>
      if a == quote && b == quote && c == quote then closingExtent quote rest'
      else 1 + longExtent quote escapes (b :: c :: rest')
    | _, rest' => 1 + longExtent quote escapes rest'

/-- The kind of a quoted text, and how far it reaches behind its first quote. -/
def quotedWord (quote : Char) (rest : List Char) : TokenKind × Nat :=
  let basic := quote == '"'
  match rest with
  | a :: b :: rest' =>
    if a == quote && b == quote then
      (.word (if basic then .longBasic else .longLiteral), 2 + longExtent quote basic rest')
    else if basic then (.word .basic, basicExtent rest)
    else (.word .literal, literalExtent rest)
  | _ => if basic then (.word .basic, basicExtent rest) else (.word .literal, literalExtent rest)

/-- The kind of the token that a character begins, and how far it reaches behind the character. -/
def scan (c : Char) (rest : List Char) : TokenKind × Nat :=
  match punctuation.lookup c with
  | some kind => (kind, 0)
  | none =>
    if isLineBlank c then (.blanks, (rest.takeWhile isLineBlank).length)
    else if c = '#' then (.comment, (rest.takeWhile fun d => d != '\r' && d != '\n').length)
    else if c = '\r' then (.newline, if rest.head? = some '\n' then 1 else 0)
    else if c = '"' ∨ c = '\'' then quotedWord c rest
    else (.word .bare, (rest.takeWhile fun d => !wordEnds.contains d).length)

/-- The tokens of characters that begin at a place. -/
def tokensFrom (start : Nat) : List Char → List Token
  | [] => [⟨.done, start, []⟩]
  | c :: rest =>
    let (kind, extent) := scan c rest
    let text := c :: rest.take extent
    ⟨kind, start, text⟩ :: tokensFrom (start + byteLength text) (rest.drop extent)
termination_by s => s.length
decreasing_by simp only [List.length_cons, List.length_drop]; omega

/-- The mark that a text may begin with. -/
def byteOrderMark : Char := '\uFEFF'

/-- The tokens of a text. A byte order mark in front belongs to none. -/
def tokens (source : String) : List Token :=
  match source.toList with
  | c :: rest => if c = byteOrderMark then tokensFrom c.utf8Size rest else tokensFrom 0 (c :: rest)
  | [] => tokensFrom 0 []

end Stencil.Toml
