import Stencil.Json.Basic

/-!
# JSON text

`Json.print` writes a value without blanks, `Json.pretty` with one line for each item and member.
In strings the quote, the backslash and the control characters are escaped, and nothing else.
-/

namespace Stencil

namespace Json

/-- The lower-case hexadecimal digit. -/
def hexDigit (n : Nat) : Char := Nat.digitChar n

/-- The written form of a character of a string. -/
def escape (c : Char) : List Char :=
  if c = '"' then ['\\', '"']
  else if c = '\\' then ['\\', '\\']
  else if c = '\n' then ['\\', 'n']
  else if c = '\r' then ['\\', 'r']
  else if c = '\t' then ['\\', 't']
  else if c.toNat = 8 then ['\\', 'b']
  else if c.toNat = 12 then ['\\', 'f']
  else if c.toNat < 32 then
    ['\\', 'u', '0', '0', hexDigit (c.toNat / 16), hexDigit (c.toNat % 16)]
  else [c]

/-- A string in quotes. -/
def quote (s : String) : List Char := '"' :: (s.toList.flatMap escape ++ ['"'])

end Json

/-- The text of a number. -/
def Number.print : Number → List Char
  | .int i => (if i < 0 then ['-'] else []) ++ Nat.toDigits 10 i.natAbs
  | .float x => DecimalStyle.json.text x

namespace Json

mutual

/-- The text of a value, without blanks. -/
def print : Json → List Char
  | .null => ['n', 'u', 'l', 'l']
  | .bool true => ['t', 'r', 'u', 'e']
  | .bool false => ['f', 'a', 'l', 's', 'e']
  | .num n => n.print
  | .str s => quote s
  | .arr [] => ['[', ']']
  | .arr (j :: js) => '[' :: (print j ++ (printItems js ++ [']']))
  | .obj [] => ['{', '}']
  | .obj ((k, j) :: ms) => '{' :: (quote k ++ ':' :: (print j ++ (printMembers ms ++ ['}'])))

/-- The items behind the first one. -/
def printItems : List Json → List Char
  | [] => []
  | j :: js => ',' :: (print j ++ printItems js)

/-- The members behind the first one. -/
def printMembers : List (String × Json) → List Char
  | [] => []
  | (k, j) :: ms => ',' :: (quote k ++ ':' :: (print j ++ printMembers ms))

end

/-- The text of a value as a string. -/
def toText (j : Json) : String := String.ofList j.print

/-- A new line with its indentation. -/
def newLine (level : Nat) : List Char := '\n' :: List.replicate (2 * level) ' '

mutual

/-- The text of a value with one line for each item and member, indented by two blanks. -/
def prettyAt (level : Nat) : Json → List Char
  | .arr [] => ['[', ']']
  | .arr (j :: js) =>
    '[' :: (newLine (level + 1) ++ (prettyAt (level + 1) j ++
      (prettyItems level js ++ (newLine level ++ [']']))))
  | .obj [] => ['{', '}']
  | .obj ((k, j) :: ms) =>
    '{' :: (newLine (level + 1) ++ (quote k ++ ':' :: ' ' :: (prettyAt (level + 1) j ++
      (prettyMembers level ms ++ (newLine level ++ ['}'])))))
  | j => print j

/-- The items behind the first one, each on a line of its own. -/
def prettyItems (level : Nat) : List Json → List Char
  | [] => []
  | j :: js => ',' :: (newLine (level + 1) ++ (prettyAt (level + 1) j ++ prettyItems level js))

/-- The members behind the first one, each on a line of its own. -/
def prettyMembers (level : Nat) : List (String × Json) → List Char
  | [] => []
  | (k, j) :: ms =>
    ',' :: (newLine (level + 1) ++ (quote k ++ ':' :: ' ' :: (prettyAt (level + 1) j ++
      prettyMembers level ms)))

end

/-- The indented text of a value. -/
def pretty (j : Json) : String := String.ofList (prettyAt 0 j)

end Json

end Stencil
