/-!
# Lexical rules

A lexer is a list of rules. At every place of the text the rule with the longest match wins, and
of several longest matches the one that comes first in the list. A rule either makes a token or
skips what it matched.

Where no rule matches, the text up to and including the first byte that rules out any match is
left unrecognised, and scanning goes on behind it.
-/

namespace ScopeScript
namespace Lexer

/-- What a rule matches at the front of a text. -/
structure Pattern where
  /-- Number of bytes of the longest match, if there is a match. -/
  longest? : List UInt8 → Option Nat
  /-- Number of leading bytes that may still grow into a match. -/
  viable : List UInt8 → Nat

/-- A pattern with the kind of token it makes; without a kind its matches are skipped. -/
structure Rule (κ : Type) where
  kind? : Option κ
  pattern : Pattern

/-- A piece of a text after scanning. -/
inductive Piece (κ : Type)
  | token (kind : κ) (bytes : List UInt8)
  | skipped (bytes : List UInt8)
  | unrecognised (bytes : List UInt8)

namespace Piece

/-- The bytes a piece covers. -/
def bytes : Piece κ → List UInt8
  | token _ bytes | skipped bytes | unrecognised bytes => bytes

/-- The piece made by a rule with the given kind. -/
def made (kind? : Option κ) (bytes : List UInt8) : Piece κ :=
  match kind? with
  | some kind => token kind bytes
  | none => skipped bytes

@[simp] theorem bytes_made (kind? : Option κ) (bytes : List UInt8) :
    (made kind? bytes).bytes = bytes := by
  cases kind? <;> rfl

end Piece

/-- The kind and size of the longest match; the first rule wins among equals. -/
def best? : List (Rule κ) → List UInt8 → Option (Option κ × Nat)
  | [], _ => none
  | rule :: rules, input =>
      match rule.pattern.longest? input, best? rules input with
      | none, other => other
      | some size, none => some (rule.kind?, size)
      | some size, some (kind?, other) =>
          if size < other then some (kind?, other) else some (rule.kind?, size)

/-- Number of leading bytes that may still grow into a match of some rule. -/
def viable (rules : List (Rule κ)) (input : List UInt8) : Nat :=
  (rules.map (·.pattern.viable input)).foldr max 0

/-- Cut a text into pieces. -/
def pieces (rules : List (Rule κ)) : List UInt8 → List (Piece κ)
  | [] => []
  | byte :: rest =>
      match best? rules (byte :: rest) with
      | some (kind?, size + 1) =>
          Piece.made kind? (byte :: rest.take size) :: pieces rules (rest.drop size)
      | _ =>
          let size := viable rules (byte :: rest)
          .unrecognised (byte :: rest.take size) :: pieces rules (rest.drop size)
termination_by input => input.length
decreasing_by all_goals simp only [List.length_drop, List.length_cons]; omega

/-- Cutting loses nothing: the pieces join to the text. -/
theorem flatMap_bytes_pieces (rules : List (Rule κ)) (input : List UInt8) :
    (pieces rules input).flatMap Piece.bytes = input := by
  fun_induction pieces rules input with
  | case1 => rfl
  | case2 byte rest kind? size found ih => simp [ih]
  | case3 byte rest size none? ih =>
      simp only [List.flatMap_cons, ih, Piece.bytes]
      simp

namespace Pattern

/-- Number of leading bytes two byte sequences share. -/
def common : List UInt8 → List UInt8 → Nat
  | a :: as, b :: bs => if a = b then common as bs + 1 else 0
  | _, _ => 0

/-- A fixed sequence of bytes. -/
def exactly (bytes : List UInt8) : Pattern where
  longest? input := if bytes.isPrefixOf input then some bytes.length else none
  viable input := common bytes input

/-- One byte of a class, then as many bytes of another class as there are. -/
def run (first rest : UInt8 → Bool) : Pattern where
  longest?
    | [] => none
    | byte :: input => if first byte then some ((input.takeWhile rest).length + 1) else none
  viable
    | [] => 0
    | byte :: input => if first byte then (input.takeWhile rest).length + 1 else 0

/-- Two opening bytes, then everything up to the end of the line; the line break itself belongs
to the match if wanted. -/
def lineFrom (open₁ open₂ : UInt8) (withBreak : Bool) : Pattern where
  longest?
    | a :: b :: input =>
        if a = open₁ ∧ b = open₂ then
          let size := (input.takeWhile (· != 10)).length
          let extra := if withBreak ∧ size < input.length then 1 else 0
          some (size + extra + 2)
        else
          none
    | _ => none
  viable input := common [open₁, open₂] input

/-- Number of bytes up to and including the first occurrence of two given bytes. -/
def through (close₁ close₂ : UInt8) : List UInt8 → Option Nat
  | a :: b :: input =>
      if a = close₁ ∧ b = close₂ then some 2 else (through close₁ close₂ (b :: input)).map (· + 1)
  | _ => none

/-- Everything from two opening bytes to the first two closing bytes behind them. -/
def enclosed (open₁ open₂ close₁ close₂ : UInt8) : Pattern where
  longest?
    | a :: b :: input =>
        if a = open₁ ∧ b = open₂ then (through close₁ close₂ input).map (· + 2) else none
    | _ => none
  viable input :=
    match input with
    | a :: b :: _ =>
        if a = open₁ ∧ b = open₂ then input.length else common [open₁, open₂] input
    | _ => common [open₁, open₂] input

/-- Number of bytes up to and including the closing quote. If there is an escape byte, it takes
the following byte with it. -/
def throughQuote (quote : UInt8) (escape? : Option UInt8) : List UInt8 → Option Nat
  | [] => none
  | byte :: input =>
      if byte = quote then
        some 1
      else if some byte = escape? then
        match input with
        | [] => none
        | _ :: input => (throughQuote quote escape? input).map (· + 2)
      else
        (throughQuote quote escape? input).map (· + 1)

/-- A text between two equal quotes. -/
def quotedText (quote : UInt8) (escape? : Option UInt8) : Pattern where
  longest?
    | [] => none
    | byte :: input =>
        if byte = quote then (throughQuote quote escape? input).map (· + 1) else none
  viable
    | [] => 0
    | byte :: input => if byte = quote then input.length + 1 else 0

/-- A point and the digits behind it: their number of bytes, or zero without any digit. -/
def fractionSize (point : UInt8) (isDigit : UInt8 → Bool) : List UInt8 → Nat
  | [] => 0
  | byte :: input =>
      let digits := (input.takeWhile isDigit).length
      if byte = point ∧ 0 < digits then digits + 1 else 0

/-- Digits with an optional fraction. -/
def decimal (point : UInt8) (isDigit : UInt8 → Bool) : Pattern where
  longest? input :=
    let digits := (input.takeWhile isDigit).length
    if 0 < digits then some (digits + fractionSize point isDigit (input.drop digits)) else none
  viable input := (input.takeWhile isDigit).length

/-- A fraction without digits in front of the point. -/
def fraction (point : UInt8) (isDigit : UInt8 → Bool) : Pattern where
  longest? input :=
    let size := fractionSize point isDigit input
    if 0 < size then some size else none
  viable input := common [point] input

end Pattern

end Lexer
end ScopeScript
