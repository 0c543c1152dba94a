import ScopeScript.Diagnostic
import ScopeScript.Lexer.Rule
import ScopeScript.Text.Quoted
import ScopeScript.Token

/-!
# The lexer of the language

The rules of the language: keywords and marks first, then comments, quoted texts, names, numbers
and blanks. `Token.scan` cuts a source text into tokens and finds the first piece that no rule
recognises; scanning goes on behind it, so all tokens of the text are found.

Inside a quoted text a backslash takes the following byte with it; `Token.unquote` removes the
quotes and resolves these escapes.
-/

namespace ScopeScript
namespace Token

/-- Whether a byte is a decimal digit. -/
def isDigitByte (byte : UInt8) : Bool :=
  48 ≤ byte && byte ≤ 57

/-- Whether a byte is a letter of the basic alphabet. -/
def isLetterByte (byte : UInt8) : Bool :=
  (97 ≤ byte && byte ≤ 122) || (65 ≤ byte && byte ≤ 90)

/-- Whether a byte can start a name. -/
def isNameStart (byte : UInt8) : Bool :=
  isLetterByte byte || byte == Text.byteOf '_'

/-- Whether a byte can continue a name. -/
def isNamePart (byte : UInt8) : Bool :=
  isNameStart byte || isDigitByte byte

/-- Whether a byte separates tokens. -/
def isBlankByte (byte : UInt8) : Bool :=
  byte == 32 || byte == 9 || byte == 10 || byte == 13

/-- A rule for a fixed spelling. -/
def spelled (kind : TokenKind) (spelling : String) : Lexer.Rule TokenKind :=
  ⟨some kind, .exactly (Text.bytes spelling)⟩

/-- Rules for keywords. -/
def keywordRules (keywords : List Keyword) : List (Lexer.Rule TokenKind) :=
  keywords.map fun keyword => spelled (.keyword keyword) keyword.spelling

/-- Rules for marks. -/
def markRules (marks : List Mark) : List (Lexer.Rule TokenKind) :=
  marks.map fun mark => spelled (.mark mark) mark.spelling

/-- Rules for everything without a fixed spelling: comments, quoted texts, names, numbers and
blanks. -/
def openRules : List (Lexer.Rule TokenKind) :=
  [⟨none, .lineFrom (Text.byteOf '/') (Text.byteOf '/') false⟩,
    ⟨none, .enclosed (Text.byteOf '/') (Text.byteOf '*') (Text.byteOf '*') (Text.byteOf '/')⟩,
    ⟨some .text, .quotedText (Text.byteOf '"') (some (Text.byteOf '\\'))⟩,
    ⟨some .text, .quotedText (39) (some (Text.byteOf '\\'))⟩,
    ⟨some .name, .run isNameStart isNamePart⟩,
    ⟨some .number, .decimal (Text.byteOf '.') isDigitByte⟩,
    ⟨some .number, .fraction (Text.byteOf '.') isDigitByte⟩,
    ⟨none, .run isBlankByte isBlankByte⟩]

/-- All rules, for any order in which keywords and marks are listed. -/
def rulesOf (keywords : List Keyword) (marks : List Mark) : List (Lexer.Rule TokenKind) :=
  keywordRules keywords ++ markRules marks ++ openRules

/-- The rules of the language. -/
def rules : List (Lexer.Rule TokenKind) :=
  rulesOf Keyword.all Mark.all

/-- The span of a number of bytes at an offset. -/
def spanAt (offset size : Nat) : Span :=
  ⟨offset.toUInt64, (offset + size).toUInt64⟩

/-- The tokens among pieces, with their spans. -/
def located : Nat → List (Lexer.Piece TokenKind) → List Token
  | _, [] => []
  | offset, .token kind bytes :: rest =>
      ⟨kind, bytes, spanAt offset bytes.length⟩ :: located (offset + bytes.length) rest
  | offset, piece :: rest => located (offset + piece.bytes.length) rest

/-- The first unrecognised piece, with its offset. -/
def firstUnrecognised? : Nat → List (Lexer.Piece TokenKind) → Option (Nat × List UInt8)
  | _, [] => none
  | offset, .unrecognised bytes :: _ => some (offset, bytes)
  | offset, piece :: rest => firstUnrecognised? (offset + piece.bytes.length) rest

/-- What the lexer makes of a source text. -/
structure Scan where
  tokens : List Token
  fault? : Option Diagnostic

/-- The diagnostic for an unrecognised piece. -/
def unexpectedInput (offset : Nat) (bytes : List UInt8) : Diagnostic where
  kind := .lexical
  span := spanAt offset bytes.length
  message := "unexpected input " ++ Text.quotedBytes bytes

/-- Scan bytes with given rules. -/
def scanWith (rules : List (Lexer.Rule TokenKind)) (source : List UInt8) : Scan :=
  let pieces := Lexer.pieces rules source
  { tokens := located 0 pieces
    fault? := (firstUnrecognised? 0 pieces).map fun (offset, bytes) =>
      unexpectedInput offset bytes }

/-- All tokens of a source text, and the first thing in it that is no token. -/
def scan (source : String) : Scan :=
  scanWith rules (Text.bytes source)

/-- The byte that an escaped byte stands for. -/
def unescaped (byte : UInt8) : UInt8 :=
  if byte = Text.byteOf 'n' then 10
  else if byte = Text.byteOf 't' then 9
  else if byte = Text.byteOf 'r' then 13
  else if byte = Text.byteOf '0' then 0
  else byte

/-- Resolve escapes; a backslash at the very end stands for itself. -/
def resolveEscapes : List UInt8 → List UInt8
  | [] => []
  | [byte] => [byte]
  | byte :: next :: rest =>
      if byte = Text.byteOf '\\' then unescaped next :: resolveEscapes rest
      else byte :: resolveEscapes (next :: rest)

/-- The bytes a quoted text stands for. -/
def unquote (lexeme : List UInt8) : List UInt8 :=
  if lexeme.length < 2 then lexeme else resolveEscapes (lexeme.drop 1).dropLast

/-- The text that a quoted text stands for. -/
def content (token : Token) : String :=
  Text.ofBytes (unquote token.lexeme)

end Token
end ScopeScript
