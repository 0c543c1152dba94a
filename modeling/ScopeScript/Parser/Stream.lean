import ScopeScript.Diagnostic
import ScopeScript.Text.Quoted
import ScopeScript.Token.Lexer

/-!
# Token streams

A parser reads tokens from the front of a stream. The stream remembers the span of the token read
last, because a tree node ends where the last token read for it ends, and the span of the end of
the input, where faults at the end are reported.
-/

namespace ScopeScript
namespace Parser

/-- The tokens still to be read. -/
structure Stream where
  tokens : List Token
  previous? : Option Span
  endSpan : Span

/-- Why a token sequence is not well-formed. -/
inductive Cause
  | expected (wanted found : String)
  | unassignable (target : String)
  | malformedNumber (lexeme : String)

/-- Wording of a cause. -/
def Cause.message : Cause → String
  | expected wanted found => "expected " ++ wanted ++ ", found " ++ found
  | unassignable target => "cannot assign to " ++ target
  | malformedNumber lexeme => "malformed number " ++ Text.quoted lexeme

/-- A cause and the place it is about. -/
structure Fault where
  span : Span
  cause : Cause

/-- The diagnostic for a fault. -/
def Fault.diagnostic (fault : Fault) : Diagnostic where
  kind := .grammar
  span := fault.span
  message := fault.cause.message

end Parser

/-- A parser reads a result from the front of a stream or ends with a fault. -/
abbrev Parser (α : Type) := StateT Parser.Stream (Except Parser.Fault) α

namespace Parser

/-- The next token, if there is one. -/
def front? : Parser (Option Token) := do
  return (← get).tokens.head?

/-- The kind of the next token, if there is one. -/
def frontKind? : Parser (Option TokenKind) := do
  return (← front?).map (·.kind)

/-- The kind of the token behind the next one, if there is one. -/
def secondKind? : Parser (Option TokenKind) := do
  return (← get).tokens.tail.head?.map (·.kind)

/-- Whether the next token is of a kind. -/
def isAt (kind : TokenKind) : Parser Bool := do
  return (← frontKind?) == some kind

/-- Whether the next token is a mark. -/
def isAtMark (mark : Mark) : Parser Bool :=
  isAt (.mark mark)

/-- Whether there are no more tokens. -/
def isAtEnd : Parser Bool := do
  return (← front?).isNone

/-- Where the next token stands. -/
def here : Parser Span := do
  let stream ← get
  return match stream.tokens with
    | token :: _ => token.span
    | [] => stream.endSpan

/-- Drop the next token. -/
def advance : Parser Unit :=
  modify fun stream =>
    match stream.tokens with
    | token :: rest => { stream with tokens := rest, previous? := some token.span }
    | [] => stream

/-- The span from a start to the end of the token read last. -/
def since (start : Span) : Parser Span := do
  return start.extend ((← get).previous?.getD start)

/-- End with a fault. -/
def fail (span : Span) (cause : Cause) : Parser α :=
  throw ⟨span, cause⟩

/-- How a token is called in messages; names and numbers are shown. -/
def describeFound : Option Token → String
  | none => TokenKind.describeEnd
  | some token =>
      if token.kind = .name ∨ token.kind = .number then
        token.kind.describe ++ " `" ++ token.text ++ "`"
      else
        token.kind.describe

/-- End with a fault at the next token, saying what was wanted instead. -/
def unexpected (wanted : String) : Parser α := do
  fail (← here) (.expected wanted (describeFound (← front?)))

/-- Read a token of a kind if it comes next. -/
def accept (kind : TokenKind) : Parser Bool := do
  if ← isAt kind then
    advance
    return true
  else
    return false

/-- Read a mark if it comes next. -/
def acceptMark (mark : Mark) : Parser Bool :=
  accept (.mark mark)

/-- Read a token, which has to be of a kind. -/
def expect (kind : TokenKind) : Parser Token := do
  match ← front? with
  | some token =>
      if token.kind = kind then
        advance
        return token
      else
        unexpected kind.describe
  | none => unexpected kind.describe

/-- Read a mark. -/
def expectMark (mark : Mark) : Parser Unit := do
  let _ ← expect (.mark mark)

/-- Read a keyword. -/
def expectKeyword (keyword : Keyword) : Parser Unit := do
  let _ ← expect (.keyword keyword)

/-- Read a name. -/
def identifier : Parser String := do
  return (← expect .name).text

/-- Read the name of a member. Keywords are names there. -/
def memberName : Parser String := do
  match ← front? with
  | some token =>
      match token.kind with
      | .keyword _ =>
          advance
          return token.text
      | _ => identifier
  | none => identifier

end Parser

end ScopeScript
