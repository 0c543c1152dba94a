import ScopeScript.Lexer.Regex.Reading
import ScopeScript.Lexer.Rule
import ScopeScript.Span
import ScopeScript.Text.Quoted
import ScopeScript.Token.Lexer

/-!
# Lexers for a given vocabulary

A small lexer whose keywords and literals are chosen by its user. A keyword is a written regular
expression. A literal is one of which every character is escaped, so that marks such as `+` can
be given as they are. Besides them the lexer knows names, whole numbers, texts in double quotes
without escapes, comments to the end of the line, and separators, to which the comma belongs.

A vocabulary makes no lexer if one of its words is no expression or matches the empty text.
-/

namespace ScopeScript
namespace Lexer

/-- The words a lexer treats specially. -/
structure Vocabulary where
  keywords : List String
  literals : List String

/-- Why a word of a vocabulary cannot be used. -/
inductive WordFault
  | malformed (word : String)
  | matchesEmptyText (word : String)

/-- A token of a vocabulary lexer: a number for its kind, its bytes and where they stand. -/
structure Lexeme where
  code : Int
  bytes : List UInt8
  span : Span

namespace Lexeme

/-- Written form of a token. -/
def text (lexeme : Lexeme) : String :=
  "<tok " ++ toString lexeme.code ++ " " ++ Text.quotedBytes lexeme.bytes ++ " " ++
    lexeme.span.text ++ ">"

end Lexeme

namespace Vocabulary

/-- Code of the end of the input. -/
def endCode : Int := -1

/-- Code of the first word of a vocabulary. -/
def firstWordCode : Nat := 10

/-- The classes of tokens that are no words, with their codes: names, numbers and texts. -/
def classCodes : List (String × Int) :=
  [("ID", 1), ("NUM", 2), ("STRING", 3)]

/-- The table of codes: the classes, then the words in their order, keywords first. -/
def codes (vocabulary : Vocabulary) : List (String × Int) :=
  classCodes ++
    ((vocabulary.keywords ++ vocabulary.literals).zipIdx firstWordCode).map fun (word, code) =>
      (word, Int.ofNat code)

/-- Code of a class or word. The last entry of the table counts, so that a word of the same
spelling takes the place of an earlier one. -/
def code (vocabulary : Vocabulary) (name : String) : Int :=
  (vocabulary.codes.reverse.lookup name).getD 0

/-- Whether a byte separates tokens. -/
def isSeparator (byte : UInt8) : Bool :=
  Token.isBlankByte byte || byte == Text.byteOf ','

/-- The expression of a literal: a backslash in front of every character. The empty literal has
only a backslash, which is no expression. -/
def escaped (literal : String) : String :=
  "\\" ++ "\\".intercalate (literal.toList.map String.singleton)

/-- The words of a vocabulary with their written expressions. -/
def expressions (vocabulary : Vocabulary) : List (String × String) :=
  vocabulary.keywords.map (fun keyword => (keyword, keyword)) ++
    vocabulary.literals.map (fun literal => (literal, escaped literal))

/-- The rule of a word. -/
def wordRule (vocabulary : Vocabulary) (word expression : String) :
    Except WordFault (Rule Int) :=
  match Regex.ofBytes? (Text.bytes expression) with
  | none => .error (.malformed word)
  | some regex =>
      if regex.nullable then .error (.matchesEmptyText word)
      else .ok ⟨some (vocabulary.code word), .ofRegex regex⟩

/-- The rules for everything besides the words. -/
def openRules (vocabulary : Vocabulary) : List (Rule Int) :=
  [⟨none, .lineFrom (Text.byteOf '/') (Text.byteOf '/') true⟩,
    ⟨some (vocabulary.code "STRING"), .quotedText (Text.byteOf '"') none⟩,
    ⟨some (vocabulary.code "ID"), .run Token.isLetterByte Token.isNamePart⟩,
    ⟨some (vocabulary.code "NUM"), .run Token.isDigitByte Token.isDigitByte⟩,
    ⟨none, .run isSeparator isSeparator⟩]

/-- The rules of a vocabulary lexer: the words in their order, then the others. -/
def rules (vocabulary : Vocabulary) : Except WordFault (List (Rule Int)) := do
  let wordRules ← vocabulary.expressions.mapM fun (word, expression) =>
    vocabulary.wordRule word expression
  return wordRules ++ vocabulary.openRules

/-- The tokens among pieces, ended by the end of the input. -/
def lexemes : Nat → List (Piece Int) → List Lexeme
  | offset, [] => [⟨endCode, [], Token.spanAt offset 0⟩]
  | offset, .token code bytes :: rest =>
      ⟨code, bytes, Token.spanAt offset bytes.length⟩ :: lexemes (offset + bytes.length) rest
  | offset, piece :: rest => lexemes (offset + piece.bytes.length) rest

/-- The spans of the unrecognised pieces. -/
def gaps : Nat → List (Piece Int) → List Span
  | _, [] => []
  | offset, .unrecognised bytes :: rest =>
      Token.spanAt offset bytes.length :: gaps (offset + bytes.length) rest
  | offset, piece :: rest => gaps (offset + piece.bytes.length) rest

/-- All tokens of a source text and the spans of what is no token. -/
def scan (vocabulary : Vocabulary) (source : String) :
    Except WordFault (List Lexeme × List Span) := do
  let cut := pieces (← vocabulary.rules) (Text.bytes source)
  return (lexemes 0 cut, gaps 0 cut)

end Vocabulary
end Lexer
end ScopeScript
