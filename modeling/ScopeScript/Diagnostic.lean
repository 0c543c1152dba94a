import ScopeScript.Span
import ScopeScript.Text.Bytes
import ScopeScript.Text.Styled

/-!
# Diagnostics

A diagnostic is what the lexer, the parser, the scope store or the evaluator has to say about a
piece of source text: its kind, a message, the span it is about, and the file the span refers to.

The position of a diagnostic is its span clamped to the source and given in lines and byte
columns, both counted from one. The report shows the line of the start position with carets
below the bytes of the span.
-/

namespace ScopeScript

/-- The category of a diagnostic. -/
inductive DiagnosticKind
  | unspecified
  | lexical
  | grammar
  | unboundName
  | notCallable
  | arity
  | notScope
  | staleHandle
  | notIterable
  | uncaughtThrow
  | yieldOutside
  | depthExceeded
  | importFailed
  | other (code : Int)
  deriving DecidableEq, Repr, Inhabited

namespace DiagnosticKind

/-- All kinds with a name of their own, in the order of their codes. -/
def all : List DiagnosticKind :=
  [unspecified, lexical, grammar, unboundName, notCallable, arity, notScope, staleHandle,
    notIterable, uncaughtThrow, yieldOutside, depthExceeded, importFailed]

/-- The kind that has a given code. -/
def ofCode (code : Int) : DiagnosticKind :=
  if code < 0 then .other code else (all[code.toNat]?).getD (.other code)

/-- The name of a kind in reports. -/
def name : DiagnosticKind → String
  | unspecified => "no error"
  | lexical => "lexical error"
  | grammar => "syntax error"
  | unboundName => "unbound name"
  | notCallable => "not callable"
  | arity => "wrong number of arguments"
  | notScope => "not a scope"
  | staleHandle => "stale scope handle"
  | notIterable => "not iterable"
  | uncaughtThrow => "uncaught throw"
  | yieldOutside => "yield outside of function"
  | depthExceeded => "recursion too deep"
  | importFailed => "import failed"
  | other code => "error(" ++ toString code ++ ")"

end DiagnosticKind

/-- Something to report about a piece of a source text. -/
structure Diagnostic where
  kind : DiagnosticKind
  span : Span
  message : String
  path : String := ""
  source : String := ""
  deriving DecidableEq, Repr, Inhabited

/-- A line and a byte column, both counted from one. -/
structure Position where
  line : Nat
  column : Nat
  deriving DecidableEq, Repr, Inhabited

namespace Position

/-- The byte of a line break. -/
def lineBreak : UInt8 := 10

/-- The position behind a byte sequence. -/
def behind (before : List UInt8) : Position where
  line := before.count lineBreak + 1
  column := (before.reverse.takeWhile (· != lineBreak)).length + 1

end Position

namespace Diagnostic

/-- Set path and source, unless the diagnostic already has either. -/
def withSource (diagnostic : Diagnostic) (path source : String) : Diagnostic :=
  if diagnostic.path = "" ∧ diagnostic.source = "" then
    { diagnostic with path, source }
  else
    diagnostic

/-- First byte of the span, at most the size of the source. -/
def startOffset (diagnostic : Diagnostic) : Nat :=
  min diagnostic.span.start.toNat (Text.size diagnostic.source)

/-- Position behind the span, at most the size of the source and not before its start. -/
def stopOffset (diagnostic : Diagnostic) : Nat :=
  max diagnostic.startOffset (min diagnostic.span.stop.toNat (Text.size diagnostic.source))

/-- Position of the start of the span. -/
def startPosition (diagnostic : Diagnostic) : Position :=
  .behind ((Text.bytes diagnostic.source).take diagnostic.startOffset)

/-- Position of the end of the span. -/
def stopPosition (diagnostic : Diagnostic) : Position :=
  .behind ((Text.bytes diagnostic.source).take diagnostic.stopOffset)

/-- The message with file, line and column in front. -/
def text (diagnostic : Diagnostic) : String :=
  let position := diagnostic.startPosition
  let place := toString position.line ++ ":" ++ toString position.column ++ ": "
  if diagnostic.path = "" then place ++ diagnostic.message
  else diagnostic.path ++ ":" ++ place ++ diagnostic.message

/-- Whether a byte is a blank that is not shown at the end of a source line. -/
def isTrailingBlank (byte : UInt8) : Bool :=
  byte == 32 || byte == 9 || byte == 13

/-- The bytes of the source line the span starts in, without blanks at its end. -/
def excerpt (diagnostic : Diagnostic) : List UInt8 :=
  let lineStart := diagnostic.startOffset - (diagnostic.startPosition.column - 1)
  let line := ((Text.bytes diagnostic.source).drop lineStart).takeWhile (· != Position.lineBreak)
  (line.reverse.dropWhile isTrailingBlank).reverse

/-- Number of carets: the bytes of the span within the shown line, but at least one. -/
def caretCount (diagnostic : Diagnostic) : Nat :=
  max 1 (min (diagnostic.stopOffset - diagnostic.startOffset)
    (diagnostic.excerpt.length - (diagnostic.startPosition.column - 1)))

/-- The message as it is shown in a report, behind the name of its kind. -/
def headline (diagnostic : Diagnostic) : String :=
  if diagnostic.kind = .unspecified then diagnostic.message
  else diagnostic.kind.name ++ ": " ++ diagnostic.message

/-- Apply a style if colours are wanted. -/
private def paint (color : Bool) (codes text : String) : String :=
  if color then Text.styled codes text else text

/-- The report with the source line and carets below the span. -/
def format (diagnostic : Diagnostic) (color : Bool) : String :=
  let start := diagnostic.startPosition
  let stop := diagnostic.stopPosition
  let header := "--> " ++ diagnostic.path ++ ":" ++ toString start.line ++ ":" ++
    toString start.column ++ "-" ++ toString stop.line ++ ":" ++ toString stop.column
  let lineNumber := toString start.line ++ " |"
  let pointer := String.ofList
    (List.replicate (lineNumber.length + start.column) ' ' ++
      List.replicate diagnostic.caretCount '^')
  paint color Text.Style.heading header ++ "\n" ++
    paint color Text.Style.heading lineNumber ++ " " ++ Text.ofBytes diagnostic.excerpt ++ "\n" ++
    paint color Text.Style.alarm pointer ++ " " ++
    paint color Text.Style.alarm diagnostic.headline

/-- A message that has no source to show. -/
def plainReport (message : String) (color : Bool) : String :=
  paint color Text.Style.alarm message

/-- The report of a diagnostic, or the given one-line text if it has no source. -/
def reportOr (diagnostic : Diagnostic) (text : String) (color : Bool) : String :=
  if diagnostic.source = "" then plainReport text color else diagnostic.format color

/-- What is shown to the user about a diagnostic. -/
def report (diagnostic : Diagnostic) (color : Bool) : String :=
  diagnostic.reportOr diagnostic.text color

end Diagnostic

end ScopeScript
