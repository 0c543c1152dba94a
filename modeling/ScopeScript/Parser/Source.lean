import ScopeScript.Parser.Statement

/-!
# Parsing source texts

A source text is scanned and its tokens are parsed. Spans may be moved by an offset, for a text
that is part of a larger one. Then the diagnostic carries no source, because only the caller
knows the text that its span refers to.
-/

namespace ScopeScript
namespace Parser

/-- Apply a parser to tokens whose spans have been moved by an offset. Fuel is one more than the
number of tokens. -/
def runOn (parser : Nat → Parser α) (tokens : List Token) (size : Nat) (offset : UInt64) :
    Except Diagnostic α :=
  let stop := size.toUInt64 + offset
  let stream : Stream := ⟨tokens.map (·.shift offset), none, ⟨stop, stop⟩⟩
  match parser (tokens.length + 1) stream with
  | .ok (result, _) => .ok result
  | .error fault => .error fault.diagnostic

/-- Scan and parse a source text. A lexical fault anywhere in the text comes first. -/
def parseWith (parser : Nat → Parser α) (source : String) (offset : UInt64) :
    Except Diagnostic α :=
  let scan := Token.scan source
  match scan.fault? with
  | some fault => .error { fault with span := fault.span.shift offset }
  | none => runOn parser scan.tokens (Text.size source) offset

/-- Attach path and source to a diagnostic whose spans have not been moved. -/
def attach (path source : String) (offset : UInt64) (diagnostic : Diagnostic) : Diagnostic :=
  if offset = 0 then diagnostic.withSource path source else diagnostic

end Parser

/-- Parse a program whose spans are moved by an offset. -/
def Program.parseAt (path source : String) (offset : UInt64) : Except Diagnostic Program :=
  (Parser.parseWith Parser.program source offset).mapError (Parser.attach path source offset)

/-- Parse a program. -/
def Program.parse (path source : String) : Except Diagnostic Program :=
  Program.parseAt path source 0

/-- Parse a single expression. -/
def Expr.parse (source : String) : Except Diagnostic Expr :=
  (Parser.parseWith Parser.wholeExpression source 0).mapError (Parser.attach "<expr>" source 0)

end ScopeScript
