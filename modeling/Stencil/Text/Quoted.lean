import Stencil.Text.Unseen

/-!
# Text quoted in messages

A message that names a character or a text shows it in quotes, with a backslash before the quote
and the backslash, and with the number of a character that cannot be seen.
-/

namespace Stencil.Text

/-- The hexadecimal digits of a number. -/
def hexDigits (n : Nat) : List Char := Nat.toDigits 16 n

/-- The character as it stands between two quotes of the given kind. -/
def shown (quote c : Char) : List Char :=
  if c = '\x00' then ['\\', '0']
  else if c = '\t' then ['\\', 't']
  else if c = '\r' then ['\\', 'r']
  else if c = '\n' then ['\\', 'n']
  else if c = '\\' then ['\\', '\\']
  else if c = quote then ['\\', quote]
  else if isUnseen c then '\\' :: 'u' :: '{' :: (hexDigits c.toNat ++ ['}'])
  else [c]

/-- A character in single quotes. -/
def quotedChar (c : Char) : String := String.ofList ('\'' :: (shown '\'' c ++ ['\'']))

/-- A text in double quotes. -/
def quoted (s : String) : String := String.ofList ('"' :: (s.toList.flatMap (shown '"') ++ ['"']))

end Stencil.Text
