import ScopeScript.Text.Styled

/-!
# Messages of a session

A message begins with a coloured mark. Further lines of a message begin with as many blanks in the
colour of the mark. Line breaks at the end of a message are kept as a single one.
-/

namespace ScopeScript

/-- The two sorts of messages. -/
inductive MessageKind
  | info
  | error
  deriving DecidableEq, Repr, Inhabited

namespace MessageKind

/-- The word of a mark. -/
def mark : MessageKind → String
  | info => "  >>"
  | error => "  Error"

/-- The style of a mark. -/
def markStyle : MessageKind → String
  | info => "46;30"
  | error => "41;30"

/-- The colour of a message. -/
def textStyle : MessageKind → String
  | info => "96"
  | error => "91"

end MessageKind

namespace Message

/-- Split off the line breaks at the end of a text, and tell whether there are any. -/
def splitEnd (text : String) : String × Bool :=
  let chars := text.toList.reverse
  let kept := chars.dropWhile (· == '\n')
  (String.ofList kept.reverse, kept.length < chars.length)

/-- A line of a message behind its coloured margin. -/
private def line (kind : MessageKind) (margin text : String) : String :=
  Text.styled kind.markStyle margin ++ " " ++ Text.styled kind.textStyle text

/-- The lines of a message, the first of which has the mark. -/
private def allLines (kind : MessageKind) : List String → List String
  | [] => []
  | first :: rest =>
      let blanks := String.ofList (List.replicate (kind.mark.length + 2) ' ')
      line kind (" " ++ kind.mark ++ " ") first :: rest.map (line kind blanks)

/-- A message as it is shown, without a line break of its own. -/
def render (kind : MessageKind) (text : String) : String :=
  let (kept, hasBreak) := splitEnd text
  "\n".intercalate (allLines kind (Text.lines kept)) ++ (if hasBreak then "\n" else "")

/-- A message on lines of its own. -/
def renderLine (kind : MessageKind) (text : String) : String :=
  render kind text ++ "\n"

end Message

end ScopeScript
