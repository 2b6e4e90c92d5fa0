import Stencil.Fault
import Stencil.Template.Placeholder

/-!
# Tokens of a template

A token is the text between two opening braces and the next two closing braces. `Template.cut`
divides a text into literal text and tokens; nothing is lost by it. `Template.scan` reads every
token: `!` opens a comment, anything else is `name`, `name:type` or `name:type:extra`.
-/

namespace Stencil

namespace Template

/-- A piece of template text. -/
inductive Piece where
  /-- Text outside of tokens, never empty. -/
  | literal (text : List Char)
  /-- The text between the braces. -/
  | token (inside : List Char)
deriving DecidableEq, Repr

/-- The text that a piece was cut from. -/
def Piece.source : Piece → List Char
  | .literal text => text
  | .token inside => '{' :: '{' :: (inside ++ ['}', '}'])

/-- A literal piece, unless it is empty. The text is given from its end. -/
def literalOf (reversed : List Char) : List Piece :=
  if reversed.isEmpty then [] else [.literal reversed.reverse]

/-- Cuts a text. `before` is the literal text so far and `opened` the inside of the token that is
open, both from their ends. Two opening braces that are never closed are literal text. -/
def cutFrom (before : List Char) : Option (List Char) → List Char → List Piece
  | none, '{' :: '{' :: rest => cutFrom before (some []) rest
  | none, c :: rest => cutFrom (c :: before) none rest
  | none, [] => literalOf before
  | some inside, '}' :: '}' :: rest =>
    literalOf before ++ .token inside.reverse :: cutFrom [] none rest
  | some inside, c :: rest => cutFrom before (some (c :: inside)) rest
  | some inside, [] => literalOf (inside ++ '{' :: '{' :: before)

/-- The pieces of a template text. -/
def cut (text : List Char) : List Piece := cutFrom [] none text

/-- The characters that open a name. -/
def isNameStart (c : Char) : Bool := c.isAlpha || c == '_'

/-- The characters of a name. -/
def isNameChar (c : Char) : Bool := c.isAlphanum || c == '_' || c == '.' || c == '-'

/-- A letter or `_`, then letters, digits, `_`, `.` and `-`. -/
def isName : List Char → Bool
  | [] => false
  | c :: rest => isNameStart c && rest.all isNameChar

/-- Why a token is no placeholder. -/
inductive TokenFault where
  | missingName | badName | emptyType | badSetName | emptyFragment
  /-- The default is no value of the type. -/
  | badDefault (text : String) (wanted : Primitive)
deriving DecidableEq, Repr

/-- The wording of the reason. -/
def TokenFault.message : TokenFault → String
  | .missingName => "missing parameter name"
  | .badName =>
    "parameter names start with a letter or '_' and contain only letters, digits, '_', '.' or '-'"
  | .emptyType => "empty type"
  | .badSetName => "schema set names follow the parameter name rules"
  | .emptyFragment => "empty schema fragment name"
  | .badDefault text wanted => "default '" ++ text ++ "' is not a valid " ++ wanted.name

/-- Reads a default. For a string, a text that is no quoted string counts as it is. -/
def readDefault (wanted : Primitive) (text : List Char) : Except TokenFault Json :=
  let verbatim : Except TokenFault Json :=
    if wanted = .string then .ok (.str (String.ofList text))
    else .error (.badDefault (String.ofList text) wanted)
  match Json.parse text with
  | .ok value => if wanted.admits value then .ok value else verbatim
  | .error _ => verbatim

/-- Reads a default if there is one. -/
def readExtra (wanted : Primitive) : Option (List Char) → Except TokenFault (Option Json)
  | none => .ok none
  | some text => (readDefault wanted text).map some

/-- What a type and the text behind it declare for a parameter. -/
def readType (name kind : List Char) (extra : Option (List Char)) :
    Except TokenFault (ParameterType × Option Json) :=
  if kind.isEmpty then .error .emptyType
  else if kind = "text".toList then (readExtra .string extra).map (.text, ·)
  else
    match Primitive.ofName? (String.ofList kind) with
    | some p => (readExtra p extra).map (.primitive p, ·)
    | none =>
      if !isName kind then .error .badSetName
      else
        match extra with
        | some [] => .error .emptyFragment
        | some fragment => .ok (.fragment (String.ofList kind) (String.ofList fragment), none)
        | none => .ok (.fragment (String.ofList kind) (String.ofList name), none)

/-- Reads a placeholder from the text between the braces, its ends trimmed. -/
def readPlaceholder (inside : List Char) : Except TokenFault Placeholder :=
  let parts := (Text.splitAtMost ':' 2 inside).map Text.trim
  let name := parts.headD []
  if name.isEmpty then .error .missingName
  else if !isName name then .error .badName
  else
    match parts[1]? with
    | none => .ok ⟨String.ofList name, String.ofList inside, none, none⟩
    | some kind =>
      (readType name kind parts[2]?).map fun (type, default) =>
        ⟨String.ofList name, String.ofList inside, some type, default⟩

/-- Reads a token from the text between the braces. -/
def readToken (inside : List Char) : Except TokenFault Token :=
  match Text.trim inside with
  | '!' :: comment => .ok (.comment (String.ofList (Text.trim comment)))
  | inside => (readPlaceholder inside).map .placeholder

/-- A part of a template: literal text, or a token with the text it was read from. -/
inductive Part where
  | literal (text : List Char)
  | token (inside : List Char) (token : Token)
deriving DecidableEq

/-- The text of a part. -/
def Part.source : Part → List Char
  | .literal text => text
  | .token inside _ => (Piece.token inside).source

/-- Reads one piece of the template of a name. -/
def Piece.read (template : String) : Piece → Except Problem Part
  | .literal text => .ok (.literal text)
  | .token inside =>
    match readToken inside with
    | .ok t => .ok (.token inside t)
    | .error e =>
      .error (.invalidPlaceholder template (String.ofList (Text.trim inside)) e.message)

/-- The parts of a template text. -/
def parts (template : String) (text : List Char) : Except Problem (List Part) :=
  (cut text).mapM (Piece.read template)

/-- A token and the bytes that it takes up, braces included. -/
structure Span where
  start : Nat
  stop : Nat
  token : Token
deriving DecidableEq

/-- The tokens among parts, the first of which starts at a byte. -/
def spansFrom : Nat → List Part → List Span
  | _, [] => []
  | start, .literal text :: rest => spansFrom (start + byteCount text) rest
  | start, .token inside token :: rest =>
    let stop := start + byteCount (Piece.token inside).source
    ⟨start, stop, token⟩ :: spansFrom stop rest

/-- The tokens of a template text. -/
def scan (template : String) (text : String) : Except Problem (List Span) :=
  (parts template text.toList).map (spansFrom 0)

end Template

end Stencil
