/-!
# Styled terminal text

A style is a list of codes between an escape sequence and the final letter; a reset sequence ends
the styled text. Colours apply to every line of a text on its own, styles to the text as a whole.
-/

namespace ScopeScript
namespace Text

/-- The escape character that starts a control sequence of a terminal. -/
def escapeSequence (codes : String) : String :=
  "\x1b[" ++ codes ++ "m"

/-- Text in a style, followed by a reset. -/
def styled (codes : String) (text : String) : String :=
  escapeSequence codes ++ text ++ escapeSequence "0"

/-- The lines of a text. -/
def lines (text : String) : List String :=
  text.splitOn "\n"

/-- Text in a colour, every line on its own. -/
def coloured (code : String) (text : String) : String :=
  "\n".intercalate ((lines text).map (styled code))

namespace Style

/-- Headers and line numbers of reports. -/
def heading : String := "34;1"

/-- Carets and messages of reports, and errors without a source. -/
def alarm : String := "31;1"

/-- Printed numbers. -/
def number : String := "32"

/-- Printed truth values. -/
def truth : String := "34;1"

/-- Printed empty values, and the branches of a tree. -/
def faint : String := "90"

/-- Printed error values. -/
def error : String := "31"

/-- Texts of a tree. -/
def plain : String := "39"

end Style
end Text
end ScopeScript
