import Stencil.Fault

/-!
# Styles of printed text

On a terminal that shows colors a text can stand out. An escape sequence turns its style on, and
another one turns all styles off behind it. Where the text itself turns styles off, its own style is
turned on again.
-/

namespace Stencil.Cli

/-- The ways in which a text can stand out. -/
inductive Style where
  | bold | dimmed | red | green | yellow | cyan | boldRed | boldGreen
deriving DecidableEq, Repr

namespace Style

/-- The numbers of a style. -/
def numbers : Style → String
  | bold => "1"
  | dimmed => "2"
  | red => "31"
  | green => "32"
  | yellow => "33"
  | cyan => "36"
  | boldRed => "1;31"
  | boldGreen => "1;32"

/-- The sequence that turns a style on. -/
def start (s : Style) : List Char := '\x1b' :: '[' :: (s.numbers.toList ++ ['m'])

/-- The sequence that turns all styles off. -/
def reset : List Char := ['\x1b', '[', '0', 'm']

/-- The text with a style turned on again wherever it turns styles off. -/
def renewed (s : Style) : List Char → List Char
  | '\x1b' :: '[' :: '0' :: 'm' :: rest => reset ++ s.start ++ renewed s rest
  | c :: rest => c :: renewed s rest
  | [] => []

/-- The text filled up with blanks to a width. -/
def padded (width : Nat) (text : List Char) : List Char :=
  text ++ List.replicate (width - text.length) ' '

/-- The text in a style, if colors are on, filled up to a width; the blanks have the style too. -/
def paintWide (color : Bool) (width : Nat) (s : Style) (text : String) : String :=
  String.ofList
    (if color then s.start ++ padded width (s.renewed text.toList) ++ reset
      else padded width text.toList)

/-- The text in a style, if colors are on. -/
def paint (color : Bool) (s : Style) (text : String) : String := s.paintWide color 0 text

end Style

end Stencil.Cli

/-- A report as a screen shows it. -/
def Stencil.Report.screen (color : Bool) (r : Stencil.Report) : String :=
  let line (s : Stencil.Cli.Style) (word text : String) : String :=
    s.paint color word ++ ": " ++ text ++ "\n"
  line .boldRed "error" r.problem.message ++
    (r.details.map (line .yellow "details")).getD "" ++
    (r.suggestion.map (line .green "suggestion")).getD ""
