import Mathlib.Algebra.Group.Nat.Defs
import ScopeScript.Proofs.Lexer.Expressions
import ScopeScript.Proofs.Lexer.Winning

/-!
# Scanning loses nothing

The pieces of a scanned text are tokens, gaps and what no rule recognises. A token is the longest
match at its place; a gap is a run of blanks or a comment; what is not recognised is one byte, or
all that remains behind a quote that is not closed. `Scan.Faithful` says this of the tokens with
their spans and of the diagnostic, and `scanWith_faithful` shows it for every text that can be
addressed.
-/

namespace ScopeScript
namespace Token

open Lexer (Piece)

/-! ## Offsets -/

theorem spanAt_start {offset size : Nat} (fits : offset + size < 2 ^ 64) :
    (spanAt offset size).start.toNat = offset := by
  simp only [spanAt, Nat.toUInt64_eq, UInt64.toNat_ofNat']
  omega

theorem spanAt_stop {offset size : Nat} (fits : offset + size < 2 ^ 64) :
    (spanAt offset size).stop.toNat = offset + size := by
  simp only [spanAt, Nat.toUInt64_eq, UInt64.toNat_ofNat']
  omega

/-- Number of bytes that pieces cover. -/
def covered (pieces : List (Piece TokenKind)) : Nat :=
  (pieces.flatMap Piece.bytes).length

@[simp] theorem covered_nil : covered [] = 0 := rfl

@[simp] theorem covered_cons (piece : Piece TokenKind) (pieces : List (Piece TokenKind)) :
    covered (piece :: pieces) = piece.bytes.length + covered pieces := by
  simp [covered]

@[simp] theorem covered_append (pieces others : List (Piece TokenKind)) :
    covered (pieces ++ others) = covered pieces + covered others := by
  simp [covered]

/-- A token is a piece, placed behind the pieces in front of it. -/
theorem exists_of_mem_located {offset : Nat} {pieces : List (Piece TokenKind)} {token : Token}
    (member : token ∈ located offset pieces) :
    ∃ before after, pieces = before ++ .token token.kind token.lexeme :: after ∧
      token.span = spanAt (offset + covered before) token.lexeme.length := by
  induction pieces generalizing offset with
  | nil => cases member
  | cons piece pieces inductionHypothesis =>
      have later (member : token ∈ located (offset + piece.bytes.length) pieces) :
          ∃ before after, piece :: pieces = before ++ .token token.kind token.lexeme :: after ∧
            token.span = spanAt (offset + covered before) token.lexeme.length := by
        obtain ⟨before, after, rfl, span⟩ := inductionHypothesis member
        exact ⟨piece :: before, after, rfl, by rw [span, covered_cons, Nat.add_assoc]⟩
      cases piece with
      | token kind bytes =>
          rcases List.mem_cons.1 member with rfl | member
          · exact ⟨[], pieces, rfl, rfl⟩
          · exact later member
      | skipped bytes => exact later member
      | unrecognised bytes => exact later member

/-- Tokens end before the following ones begin. -/
theorem pairwise_located {offset : Nat} {pieces : List (Piece TokenKind)}
    (fits : offset + covered pieces < 2 ^ 64) :
    (located offset pieces).Pairwise fun token later =>
      token.span.stop.toNat ≤ later.span.start.toNat := by
  induction pieces generalizing offset with
  | nil => exact .nil
  | cons piece pieces inductionHypothesis =>
      rw [covered_cons, ← Nat.add_assoc] at fits
      have rest := inductionHypothesis fits
      cases piece with
      | token kind bytes =>
          refine List.pairwise_cons.2 ⟨fun later member => ?_, rest⟩
          obtain ⟨before, after, rfl, span⟩ := exists_of_mem_located member
          simp only [covered_append, covered_cons, Piece.bytes] at fits
          rw [span, spanAt_start (by omega), spanAt_stop (by omega)]
          omega
      | skipped bytes => exact rest
      | unrecognised bytes => exact rest

/-- There is no fault exactly if every piece is recognised. -/
theorem firstUnrecognised?_eq_none_iff {offset : Nat} {pieces : List (Piece TokenKind)} :
    firstUnrecognised? offset pieces = none ↔ ∀ bytes, Piece.unrecognised bytes ∉ pieces := by
  induction pieces generalizing offset with
  | nil => simp [firstUnrecognised?]
  | cons piece pieces inductionHypothesis =>
      cases piece with
      | token kind bytes => simp [firstUnrecognised?, inductionHypothesis]
      | skipped bytes => simp [firstUnrecognised?, inductionHypothesis]
      | unrecognised bytes =>
          refine iff_of_false (by simp [firstUnrecognised?]) fun none => ?_
          exact none bytes List.mem_cons_self

/-- The fault is about the first piece that is not recognised. -/
theorem exists_of_firstUnrecognised? {offset start : Nat} {pieces : List (Piece TokenKind)}
    {bytes : List UInt8} (found : firstUnrecognised? offset pieces = some (start, bytes)) :
    ∃ before after, pieces = before ++ .unrecognised bytes :: after ∧
      (∀ other, Piece.unrecognised other ∉ before) ∧ start = offset + covered before := by
  induction pieces generalizing offset with
  | nil => cases found
  | cons piece pieces inductionHypothesis =>
      have later (recognised : ∀ other, piece ≠ .unrecognised other)
          (found : firstUnrecognised? (offset + piece.bytes.length) pieces = some (start, bytes)) :
          ∃ before after, piece :: pieces = before ++ .unrecognised bytes :: after ∧
            (∀ other, Piece.unrecognised other ∉ before) ∧ start = offset + covered before := by
        obtain ⟨before, after, rfl, first, rfl⟩ := inductionHypothesis found
        refine ⟨piece :: before, after, rfl, fun other member => ?_, ?_⟩
        · rcases List.mem_cons.1 member with same | member
          · exact recognised other same.symm
          · exact first other member
        · rw [covered_cons, Nat.add_assoc]
      cases piece with
      | token kind bytes => exact later (by simp) found
      | skipped bytes => exact later (by simp) found
      | unrecognised bytes =>
          cases found
          exact ⟨[], pieces, rfl, by simp, rfl⟩

/-! ## What the pieces are -/

/-- Nothing at the front of a text is matched; what is passed over is one byte, or everything if a
quote opens a text that is not closed. -/
def Unrecognised (bytes input : List UInt8) : Prop :=
  (∀ entry ∈ expressions, ∀ other, other <+: input → ¬Matched entry.2 other) ∧
    ∃ byte rest, input = byte :: rest ∧ bytes = if isQuoteByte byte then input else [byte]

/-- A recognised piece is the winner's match. -/
theorem best?_of_cut {input bytes : List UInt8} {kind? : Option TokenKind}
    (cut : Lexer.Cut rules input (Piece.made kind? bytes)) :
    ∃ size, Lexer.best? rules input = some (kind?, size) ∧ bytes = input.take size := by
  generalize isMade : Piece.made kind? bytes = piece at cut
  cases cut with
  | @made otherKind? size found positive =>
      have same : kind? = otherKind? ∧ bytes = input.take size := by
        cases kind? <;> cases otherKind? <;> simp_all [Piece.made]
      exact ⟨size, same.1 ▸ found, same.2⟩
  | unrecognised someBytes nothing => cases kind? <;> cases isMade

/-- A recognised piece is a longest match, of the first expression that has it. -/
theorem longest_of_cut {input bytes : List UInt8} {kind? : Option TokenKind}
    (cut : Lexer.Cut rules input (Piece.made kind? bytes)) : Longest kind? bytes input := by
  obtain ⟨size, found, rfl⟩ := best?_of_cut cut
  exact (longest_of_best? found).2

/-- A piece is left unrecognised where no expression matches. -/
theorem unrecognised_of_cut {input bytes : List UInt8}
    (cut : Lexer.Cut rules input (.unrecognised bytes)) : Unrecognised bytes input := by
  generalize isPiece : Piece.unrecognised bytes = piece at cut
  cases cut with
  | @made kind? size found positive => cases kind? <;> cases isPiece
  | unrecognised someBytes nothing =>
      cases isPiece
      have noRule : Lexer.best? rules input = none := by
        cases found : Lexer.best? rules input with
        | none => rfl
        | some result =>
            -- A match of no bytes would be a match of the empty text.
            have empty := nothing result.1 result.2 found
            have nonempty := (longest_of_best? found).2.nonempty
            rw [empty] at nonempty
            exact absurd List.take_zero nonempty
      refine ⟨fun entry member other => not_matched_of_best? noRule member, ?_⟩
      obtain ⟨byte, rest, rfl⟩ := List.exists_cons_of_ne_nil someBytes
      have viable := viable_of_best? noRule
      refine ⟨byte, rest, rfl, ?_⟩
      split at viable
      · rename_i quote
        rw [if_pos quote, List.take_of_length_le (by simp; omega)]
      · rename_i noQuote
        rw [if_neg noQuote, viable, List.take_succ_cons, List.take_zero]

/-- What matches without making a token is a run of blanks or a comment. -/
theorem gap_of_longest {bytes input : List UInt8} (longest : Longest none bytes input) :
    Matched blanks bytes ∨ Matched lineComment bytes ∨ Matched closedComment bytes := by
  obtain ⟨before, expression, after, split, matched, -⟩ := longest.first
  have member : ((none, expression) : Option TokenKind × String) ∈ expressions :=
    split ▸ List.mem_append_right _ List.mem_cons_self
  simp [expressions, openExpressions] at member
  rcases member with rfl | rfl | rfl
  · exact .inr (.inl matched)
  · exact .inr (.inr matched)
  · exact .inl matched

/-! ## The whole scan -/

namespace Scan

/-- A scan accounts for every byte of a text. -/
structure Faithful (source : List UInt8) (scan : Scan) : Prop where
  /-- Tokens cover some bytes and lie within the text. -/
  inside : ∀ token ∈ scan.tokens, token.span.start.toNat < token.span.stop.toNat ∧
    token.span.stop.toNat ≤ source.length
  /-- Each token ends before the following ones begin. -/
  ordered : scan.tokens.Pairwise fun token later =>
    token.span.stop.toNat ≤ later.span.start.toNat
  /-- The lexeme of a token are the bytes of its span. -/
  lexeme : ∀ token ∈ scan.tokens,
    token.lexeme = (source.take token.span.stop.toNat).drop token.span.start.toNat
  /-- A token is the longest match at its place. -/
  longest : ∀ token ∈ scan.tokens,
    Longest (some token.kind) token.lexeme (source.drop token.span.start.toNat)
  /-- A token is a keyword exactly if the word at its place is one. -/
  keyword : ∀ token ∈ scan.tokens, ∀ word : Keyword,
    token.kind = .keyword word ↔
      (source.drop token.span.start.toNat).takeWhile isNamePart = Text.bytes word.spelling
  /-- The text is divided into the tokens, gaps between them and what is not recognised, and the
  diagnostic is about the first piece that is not recognised. -/
  divided : ∃ pieces : List (Piece TokenKind),
    pieces.flatMap Piece.bytes = source ∧ scan.tokens = located 0 pieces ∧
      (∀ before bytes after, pieces = before ++ .skipped bytes :: after →
        Longest none bytes (source.drop (covered before)) ∧
          (Matched blanks bytes ∨ Matched lineComment bytes ∨ Matched closedComment bytes)) ∧
      (∀ before bytes after, pieces = before ++ .unrecognised bytes :: after →
        Unrecognised bytes (source.drop (covered before))) ∧
      (scan.fault? = none ↔ ∀ bytes, Piece.unrecognised bytes ∉ pieces) ∧
      ∀ fault, scan.fault? = some fault → fault.kind = .lexical ∧
        ∃ before bytes after, pieces = before ++ .unrecognised bytes :: after ∧
          (∀ other, Piece.unrecognised other ∉ before) ∧
          fault.span.start.toNat = covered before ∧
          fault.span.stop.toNat = covered before + bytes.length

end Scan

/-- Scanning does on any bytes what the expressions say. -/
theorem scanWith_faithful {source : List UInt8} (fits : source.length < 2 ^ 64) :
    (scanWith rules source).Faithful source := by
  have joined := Lexer.flatMap_bytes_pieces rules source
  have length : covered (Lexer.pieces rules source) = source.length := by rw [covered, joined]
  -- Every token is a piece that was cut off at its offset.
  have cut (token : Token) (member : token ∈ (scanWith rules source).tokens) :
      token.span.start.toNat + token.lexeme.length = token.span.stop.toNat ∧
        source.drop token.span.start.toNat ≠ [] ∧
        Lexer.Cut rules (source.drop token.span.start.toNat)
          (Piece.made (some token.kind) token.lexeme) := by
    obtain ⟨before, after, split, span⟩ := exists_of_mem_located member
    have bound : covered before + token.lexeme.length < 2 ^ 64 := by
      rw [split, covered_append, covered_cons] at length
      simp only [Piece.bytes] at length
      omega
    rw [Nat.zero_add] at span
    rw [span, spanAt_start bound, spanAt_stop bound]
    exact ⟨rfl, Lexer.cut_of_pieces split⟩
  have inside (token : Token) (member : token ∈ (scanWith rules source).tokens) :
      token.span.start.toNat < token.span.stop.toNat ∧
        token.span.stop.toNat ≤ source.length := by
    obtain ⟨stop, someBytes, isCut⟩ := cut token member
    have longest := longest_of_cut isCut
    have positive := List.length_pos_iff.2 longest.nonempty
    have fits := longest.isPrefix.length_le
    rw [List.length_drop] at fits
    omega
  refine ⟨inside, pairwise_located (by rw [length]; omega), ?lexeme,
    fun token member => longest_of_cut (cut token member).2.2, ?keyword, ?divided⟩
  case lexeme =>
    intro token member
    obtain ⟨stop, -, isCut⟩ := cut token member
    rw [← stop, List.drop_take, Nat.add_sub_cancel_left]
    exact List.prefix_iff_eq_take.1 (longest_of_cut isCut).isPrefix
  case keyword =>
    intro token member word
    obtain ⟨-, someBytes, isCut⟩ := cut token member
    obtain ⟨size, found, -⟩ := best?_of_cut isCut
    exact kind_eq_keyword_iff found someBytes word
  case divided =>
    refine ⟨Lexer.pieces rules source, joined, rfl, fun before bytes after split => ?_,
      fun before bytes after split => unrecognised_of_cut (Lexer.cut_of_pieces split).2, ?_, ?_⟩
    · have longest : Longest none bytes (source.drop (covered before)) :=
        longest_of_cut (Lexer.cut_of_pieces split).2
      exact ⟨longest, gap_of_longest longest⟩
    · exact Option.map_eq_none_iff.trans firstUnrecognised?_eq_none_iff
    · intro fault isFault
      obtain ⟨⟨start, bytes⟩, found, rfl⟩ := Option.map_eq_some_iff.1 isFault
      obtain ⟨before, after, split, first, rfl⟩ := exists_of_firstUnrecognised? found
      have bound : covered before + bytes.length < 2 ^ 64 := by
        rw [split, covered_append, covered_cons] at length
        simp only [Piece.bytes] at length
        omega
      refine ⟨rfl, before, bytes, after, split, first, ?_, ?_⟩
      · simp only [unexpectedInput, Nat.zero_add, spanAt_start bound]
      · simp only [unexpectedInput, Nat.zero_add, spanAt_stop bound]

/-- A text with a keyword, a word that starts like one, a comment and a byte that is no token. -/
theorem scanWith_faithful_words :
    (Text.bytes "let letter = 1..2; // $\n$ 'x").length < 2 ^ 64 ∧
      (scanWith rules (Text.bytes "let letter = 1..2; // $\n$ 'x")).Faithful
        (Text.bytes "let letter = 1..2; // $\n$ 'x") :=
  ⟨by decide +kernel, scanWith_faithful (by decide +kernel)⟩

end Token
end ScopeScript
