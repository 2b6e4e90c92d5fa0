/-!
# Blank characters

Template text may come from any editor, so blanks are the characters with the Unicode property
`White_Space`, not only the ASCII ones. `Text.trim` drops them at both ends; `Text.isBlankText`
tells a text that holds nothing else.
-/

namespace Stencil.Text

/-- The characters with the Unicode property `White_Space`. -/
def isBlank (c : Char) : Bool :=
  let n := c.toNat
  (9 ≤ n && n ≤ 13) || n == 0x20 || n == 0x85 || n == 0xA0 || n == 0x1680 ||
    (0x2000 ≤ n && n ≤ 0x200A) || n == 0x2028 || n == 0x2029 || n == 0x202F || n == 0x205F ||
    n == 0x3000

/-- The text without the blanks in front. -/
def trimStart (s : List Char) : List Char := s.dropWhile isBlank

/-- The text without the blanks behind. -/
def trimEnd (s : List Char) : List Char := (s.reverse.dropWhile isBlank).reverse

/-- The text without the blanks at its ends. -/
def trim (s : List Char) : List Char := trimEnd (trimStart s)

/-- The string without the blanks at its ends. -/
def trimmed (s : String) : String := String.ofList (trim s.toList)

/-- Nothing but blanks. -/
def isBlankText (s : String) : Bool := s.toList.all isBlank

/-- The first word of a text. -/
def firstWord (s : List Char) : List Char := (trimStart s).takeWhile fun c => !isBlank c

end Stencil.Text
