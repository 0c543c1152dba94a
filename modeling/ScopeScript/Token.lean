import ScopeScript.Span
import ScopeScript.Text.Bytes

/-!
# Tokens

The words of the language: names, numbers, quoted texts, punctuation and operator marks, and
keywords. A token keeps the bytes it was read from and where they stand.
-/

namespace ScopeScript

/-- Punctuation and operator marks. -/
inductive Mark
  | semicolon | comma | colon | dot
  | leftParen | rightParen | leftBrace | rightBrace | leftBracket | rightBracket
  | plus | minus | star | slash | caret | percent | dotDot | amp | pipe | tilde
  | shiftLeft | shiftRight | plusPlus | minusMinus | question | bang | ampAmp | pipePipe
  | assign | colonAssign | plusAssign | minusAssign | starAssign | slashAssign | caretAssign
  | percentAssign
  | equal | notEqual | less | lessEqual | greater | greaterEqual
  deriving DecidableEq, Repr, Inhabited

namespace Mark

/-- All marks, in the order of their codes. -/
def all : List Mark :=
  [semicolon, comma, colon, dot, leftParen, rightParen, leftBrace, rightBrace, leftBracket,
    rightBracket, plus, minus, star, slash, caret, percent, dotDot, amp, pipe, tilde, shiftLeft,
    shiftRight, plusPlus, minusMinus, question, bang, ampAmp, pipePipe, assign, colonAssign,
    plusAssign, minusAssign, starAssign, slashAssign, caretAssign, percentAssign, equal, notEqual,
    less, lessEqual, greater, greaterEqual]

/-- How a mark is written. -/
def spelling : Mark → String
  | semicolon => ";"
  | comma => ","
  | colon => ":"
  | dot => "."
  | leftParen => "("
  | rightParen => ")"
  | leftBrace => "\x7b"
  | rightBrace => "\x7d"
  | leftBracket => "["
  | rightBracket => "]"
  | plus => "+"
  | minus => "-"
  | star => "*"
  | slash => "/"
  | caret => "^"
  | percent => "%"
  | dotDot => ".."
  | amp => "&"
  | pipe => "|"
  | tilde => "~"
  | shiftLeft => "<<"
  | shiftRight => ">>"
  | plusPlus => "++"
  | minusMinus => "--"
  | question => "?"
  | bang => "!"
  | ampAmp => "&&"
  | pipePipe => "||"
  | assign => "="
  | colonAssign => ":="
  | plusAssign => "+="
  | minusAssign => "-="
  | starAssign => "*="
  | slashAssign => "/="
  | caretAssign => "^="
  | percentAssign => "%="
  | equal => "=="
  | notEqual => "!="
  | less => "<"
  | lessEqual => "<="
  | greater => ">"
  | greaterEqual => ">="

end Mark

/-- Reserved words. -/
inductive Keyword
  | kwLet | kwFn | kwAsync | kwScope | kwContext | kwIf | kwElse | kwWhile | kwLoop | kwFor
  | kwIn | kwReturn | kwThrow | kwBreak | kwContinue | kwYield | kwImport | kwAs | kwTry
  | kwCatch | kwTrue | kwFalse | kwNone | kwAwait | kwDelete | kwNew | kwAnd | kwOr | kwXor
  | kwNot | kwBand | kwBor | kwBxor | kwBnot
  deriving DecidableEq, Repr, Inhabited

namespace Keyword

/-- All keywords, in the order of their codes. -/
def all : List Keyword :=
  [kwLet, kwFn, kwAsync, kwScope, kwContext, kwIf, kwElse, kwWhile, kwLoop, kwFor, kwIn, kwReturn,
    kwThrow, kwBreak, kwContinue, kwYield, kwImport, kwAs, kwTry, kwCatch, kwTrue, kwFalse,
    kwNone, kwAwait, kwDelete, kwNew, kwAnd, kwOr, kwXor, kwNot, kwBand, kwBor, kwBxor, kwBnot]

/-- How a keyword is written. -/
def spelling : Keyword → String
  | kwLet => "let"
  | kwFn => "fn"
  | kwAsync => "async"
  | kwScope => "scope"
  | kwContext => "context"
  | kwIf => "if"
  | kwElse => "else"
  | kwWhile => "while"
  | kwLoop => "loop"
  | kwFor => "for"
  | kwIn => "in"
  | kwReturn => "return"
  | kwThrow => "throw"
  | kwBreak => "break"
  | kwContinue => "continue"
  | kwYield => "yield"
  | kwImport => "import"
  | kwAs => "as"
  | kwTry => "try"
  | kwCatch => "catch"
  | kwTrue => "true"
  | kwFalse => "false"
  | kwNone => "None"
  | kwAwait => "await"
  | kwDelete => "delete"
  | kwNew => "new"
  | kwAnd => "and"
  | kwOr => "or"
  | kwXor => "xor"
  | kwNot => "not"
  | kwBand => "band"
  | kwBor => "bor"
  | kwBxor => "bxor"
  | kwBnot => "bnot"

end Keyword

/-- What a token is. -/
inductive TokenKind
  | name
  | number
  | text
  | mark (sign : Mark)
  | keyword (word : Keyword)
  deriving DecidableEq, Repr, Inhabited

namespace TokenKind

/-- How a kind of token is called in messages. -/
def describe : TokenKind → String
  | name => "identifier"
  | number => "number"
  | text => "string"
  | mark sign => "`" ++ sign.spelling ++ "`"
  | keyword word => "`" ++ word.spelling ++ "`"

/-- All kinds, in the order of their codes, which start at two. -/
def all : List TokenKind :=
  [name, number, text] ++ Mark.all.map mark ++ Keyword.all.map keyword

/-- How the end of the input is called in messages. -/
def describeEnd : String := "end of input"

/-- The name of a token code; minus one is the code of the end of the input. -/
def describeCode (code : Int) : String :=
  if code = -1 then
    describeEnd
  else
    match if 2 ≤ code then all[(code - 2).toNat]? else none with
    | some kind => kind.describe
    | none => "token(" ++ toString code ++ ")"

end TokenKind

/-- A word of a source text. -/
structure Token where
  kind : TokenKind
  lexeme : List UInt8
  span : Span
  deriving DecidableEq, Repr, Inhabited

namespace Token

/-- The lexeme of a token as a text. -/
def text (token : Token) : String :=
  Text.ofBytes token.lexeme

/-- Move a token. -/
def shift (token : Token) (distance : UInt64) : Token :=
  { token with span := token.span.shift distance }

/-- Tokens that are moved by nothing stay where they are. -/
theorem map_shift_zero (tokens : List Token) : tokens.map (·.shift 0) = tokens := by
  simp [shift]

end Token

end ScopeScript
