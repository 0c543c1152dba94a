import ScopeScript.Proofs.Lexer.Layout

/-!
# One more byte at the end of a text

A line break or a semicolon behind a text is scanned on its own, unless a comment or a blank at the
end of the text takes it in: only these two rules look at such a byte and go on with it
(`ignores_of_mem`). So the line break adds nothing to the words of a text, and the semicolon adds
itself or nothing (`words?_append_break`, `words?_append_semicolon`). Whether there is something
that is no token does not change.
-/

namespace ScopeScript

namespace Lexer

variable {κ : Type} {rules : List (Rule κ)} {input other : List UInt8}

/-- The winner depends on the longest matches alone. -/
theorem best?_congr (same : ∀ rule ∈ rules,
    rule.pattern.longest? input = rule.pattern.longest? other) :
    best? rules input = best? rules other := by
  induction rules with
  | nil => rfl
  | cons rule rules inductionHypothesis =>
      rw [List.forall_mem_cons] at same
      rw [best?, best?, same.1, inductionHypothesis same.2]

namespace Pattern

/-- A byte behind a text that is not empty makes no difference for what is matched. -/
def Ignores (pattern : Pattern) (byte : UInt8) : Prop :=
  ∀ first rest, pattern.longest? (first :: rest ++ [byte]) = pattern.longest? (first :: rest)

variable {byte : UInt8}

/-- A byte outside of the class does not prolong a run. -/
theorem takeWhile_append_singleton {isMember : UInt8 → Bool} (outside : isMember byte = false)
    (input : List UInt8) : (input ++ [byte]).takeWhile isMember = input.takeWhile isMember := by
  induction input with
  | nil => simp [outside]
  | cons first rest inductionHypothesis =>
      rw [List.cons_append, List.takeWhile_cons, List.takeWhile_cons, inductionHypothesis]

/-- A run that ends inside of a text does not get to what is appended. -/
theorem takeWhile_append_of_exists {isMember : UInt8 → Bool} {input : List UInt8}
    (ends : ∃ byte ∈ input, isMember byte = false) (more : List UInt8) :
    (input ++ more).takeWhile isMember = input.takeWhile isMember := by
  induction input with
  | nil => simp at ends
  | cons first rest inductionHypothesis =>
      rw [List.cons_append, List.takeWhile_cons, List.takeWhile_cons]
      split
      · rename_i isFirst
        rw [inductionHypothesis (by simpa [isFirst] using ends)]
      · rfl

/-- A fixed sequence ignores a byte that it does not contain behind its first one. -/
theorem ignores_exactly {bytes : List UInt8} (outside : byte ∉ bytes.tail) :
    (exactly bytes).Ignores byte := by
  intro first rest
  have same : bytes.isPrefixOf (first :: rest ++ [byte]) = bytes.isPrefixOf (first :: rest) := by
    rw [Bool.eq_iff_iff, List.isPrefixOf_iff_prefix, List.isPrefixOf_iff_prefix]
    refine ⟨fun isPrefix => ?_, fun isPrefix => isPrefix.trans (List.prefix_append _ _)⟩
    rcases List.prefix_concat_iff.1 isPrefix with rfl | isPrefix
    · exact absurd (by simp) outside
    · exact isPrefix
  simp only [exactly, same]

/-- A run ignores a byte outside of its class. -/
theorem ignores_run {first rest : UInt8 → Bool} (outside : rest byte = false) :
    (run first rest).Ignores byte := by
  intro head tail
  simp only [run, List.cons_append, takeWhile_append_singleton outside]

/-- The end of a line is no part of a comment that leaves it out. -/
theorem ignores_lineFrom {open₁ open₂ : UInt8} (different : open₂ ≠ 10) :
    (lineFrom open₁ open₂ false).Ignores 10 := by
  rintro first (_ | ⟨second, rest⟩)
  · simp [lineFrom, different.symm]
  · have ended : (rest ++ [10]).takeWhile (· != 10) = rest.takeWhile (· != 10) :=
      takeWhile_append_singleton rfl rest
    simp [lineFrom, ended]

/-- A byte that does not close a comment leaves it open. -/
theorem through_append_singleton {close₁ close₂ : UInt8} (different : byte ≠ close₂)
    (input : List UInt8) :
    through close₁ close₂ (input ++ [byte]) = through close₁ close₂ input := by
  fun_induction through close₁ close₂ input with
  | case1 a b input closes => simp [through, closes]
  | case2 a b input open_ inductionHypothesis =>
      rw [List.cons_append] at inductionHypothesis
      rw [List.cons_append, List.cons_append, through, if_neg open_, inductionHypothesis]
  | case3 input short =>
      rcases input with _ | ⟨a, _ | ⟨b, input⟩⟩
      · rfl
      · simp [through, different]
      · exact absurd rfl (short a b input)

theorem ignores_enclosed {open₁ open₂ close₁ close₂ : UInt8} (notOpen : byte ≠ open₂)
    (notClose : byte ≠ close₂) : (enclosed open₁ open₂ close₁ close₂).Ignores byte := by
  rintro first (_ | ⟨second, rest⟩)
  · simp [enclosed, notOpen]
  · simp [enclosed, through_append_singleton notClose]

/-- A byte that is no quote leaves a text open. -/
theorem throughQuote_append_singleton {quote : UInt8} {escape? : Option UInt8}
    (different : byte ≠ quote) (input : List UInt8) :
    throughQuote quote escape? (input ++ [byte]) = throughQuote quote escape? input := by
  fun_induction throughQuote quote escape? input with
  | case1 =>
      rw [List.nil_append, throughQuote, if_neg different]
      split <;> rfl
  | case2 input => exact throughQuote_quote _ _ _
  | case3 first notQuote isEscape =>
      rw [List.cons_append, List.nil_append, throughQuote_escape notQuote isEscape]
      rfl
  | case4 first notQuote isEscape next input inductionHypothesis =>
      rw [List.cons_append, List.cons_append, throughQuote_escape notQuote isEscape,
        inductionHypothesis]
  | case5 first input notQuote notEscape inductionHypothesis =>
      rw [List.cons_append, throughQuote_plain notQuote notEscape, inductionHypothesis]

theorem ignores_quotedText {quote : UInt8} {escape? : Option UInt8} (different : byte ≠ quote) :
    (quotedText quote escape?).Ignores byte := by
  intro first rest
  simp only [quotedText, List.cons_append, throughQuote_append_singleton different]

/-- A byte that is neither a digit nor the point does not prolong a fraction. -/
theorem fractionSize_append_singleton {point : UInt8} {isDigit : UInt8 → Bool}
    (notDigit : isDigit byte = false) (notPoint : byte ≠ point) (input : List UInt8) :
    fractionSize point isDigit (input ++ [byte]) = fractionSize point isDigit input := by
  cases input with
  | nil => simp [fractionSize, notPoint]
  | cons first rest =>
      simp only [fractionSize, List.cons_append, takeWhile_append_singleton notDigit]

theorem ignores_decimal {point : UInt8} {isDigit : UInt8 → Bool} (notDigit : isDigit byte = false)
    (notPoint : byte ≠ point) : (decimal point isDigit).Ignores byte := by
  intro first rest
  have within : ((first :: rest).takeWhile isDigit).length ≤ (first :: rest).length :=
    (List.takeWhile_prefix _).length_le
  simp only [decimal, takeWhile_append_singleton notDigit, List.drop_append_of_le_length within,
    fractionSize_append_singleton notDigit notPoint]

theorem ignores_fraction {point : UInt8} {isDigit : UInt8 → Bool} (notDigit : isDigit byte = false)
    (notPoint : byte ≠ point) : (fraction point isDigit).Ignores byte := by
  intro first rest
  simp only [fraction, fractionSize_append_singleton notDigit notPoint]

end Pattern
end Lexer

namespace Token

open Lexer (Piece Pattern Rule)

/-! ## Rules -/

/-- Neither the semicolon nor a line break stands inside a keyword. -/
theorem no_ending_in_keyword : ∀ word ∈ Keyword.all,
    10 ∉ (Text.bytes word.spelling).tail ∧ 59 ∉ (Text.bytes word.spelling).tail := by
  decide

/-- Nor does it inside a mark. -/
theorem no_ending_in_mark : ∀ mark ∈ Mark.all,
    10 ∉ (Text.bytes mark.spelling).tail ∧ 59 ∉ (Text.bytes mark.spelling).tail := by
  decide

/-- Only blanks go on with a line break, and only comments to the end of the line go on with a
semicolon. -/
theorem ignores_of_mem {rule : Rule TokenKind} (member : rule ∈ rules) :
    (rule = blankRule ∨ rule.pattern.Ignores 10) ∧
      (rule = lineRule ∨ rule.pattern.Ignores 59) := by
  rcases mem_rules_iff.1 member with ⟨word, rfl⟩ | ⟨mark, rfl⟩ | isOpen
  · have outside := no_ending_in_keyword word (keyword_mem_all _)
    exact ⟨.inr (Pattern.ignores_exactly outside.1), .inr (Pattern.ignores_exactly outside.2)⟩
  · have outside := no_ending_in_mark mark (mark_mem_all _)
    exact ⟨.inr (Pattern.ignores_exactly outside.1), .inr (Pattern.ignores_exactly outside.2)⟩
  · simp only [openRules_eq, List.mem_cons, List.not_mem_nil, or_false] at isOpen
    rcases isOpen with rfl | rfl | rfl | rfl | rfl | rfl | rfl | rfl
    · exact ⟨.inr (Pattern.ignores_lineFrom (by decide)), .inl rfl⟩
    · exact ⟨.inr (Pattern.ignores_enclosed (by decide) (by decide)),
        .inr (Pattern.ignores_enclosed (by decide) (by decide))⟩
    · exact ⟨.inr (Pattern.ignores_quotedText (by decide)),
        .inr (Pattern.ignores_quotedText (by decide))⟩
    · exact ⟨.inr (Pattern.ignores_quotedText (by decide)),
        .inr (Pattern.ignores_quotedText (by decide))⟩
    · exact ⟨.inr (Pattern.ignores_run (by decide)), .inr (Pattern.ignores_run (by decide))⟩
    · exact ⟨.inr (Pattern.ignores_decimal (by decide) (by decide)),
        .inr (Pattern.ignores_decimal (by decide) (by decide))⟩
    · exact ⟨.inr (Pattern.ignores_fraction (by decide) (by decide)),
        .inr (Pattern.ignores_fraction (by decide) (by decide))⟩
    · exact ⟨.inl rfl, .inr (Pattern.ignores_run (by decide))⟩

/-! ## Words of a text -/

/-- The words among pieces, if all of them are recognised. -/
def recognisedWords? : List (Piece TokenKind) → Option (List (TokenKind × List UInt8))
  | [] => some []
  | .token kind bytes :: pieces => (recognisedWords? pieces).map ((kind, bytes) :: ·)
  | .skipped _ :: pieces => recognisedWords? pieces
  | .unrecognised _ :: _ => none

/-- The words a text is scanned into, if all of it is recognised. -/
def words? (input : List UInt8) : Option (List (TokenKind × List UInt8)) :=
  recognisedWords? (Lexer.pieces rules input)

/-- All pieces are recognised if the words of all are given. -/
theorem recognisedWords?_eq_some_iff {pieces : List (Piece TokenKind)}
    {words : List (TokenKind × List UInt8)} :
    recognisedWords? pieces = some words ↔
      pieces.filterMap pieceWord? = words ∧ ∀ bytes, Piece.unrecognised bytes ∉ pieces := by
  induction pieces generalizing words with
  | nil => simp [recognisedWords?]
  | cons piece pieces inductionHypothesis =>
      cases piece with
      | token kind bytes =>
          simp only [recognisedWords?, Option.map_eq_some_iff, inductionHypothesis,
            List.filterMap_cons, pieceWord?, List.mem_cons, reduceCtorEq, false_or]
          constructor
          · rintro ⟨_, ⟨rfl, recognised⟩, whole⟩
            exact ⟨whole, recognised⟩
          · rintro ⟨whole, recognised⟩
            exact ⟨_, ⟨rfl, recognised⟩, whole⟩
      | skipped bytes =>
          simp [recognisedWords?, inductionHypothesis, List.filterMap_cons, pieceWord?]
      | unrecognised bytes =>
          simp only [recognisedWords?, reduceCtorEq, false_iff, not_and]
          exact fun _ none => none bytes List.mem_cons_self

/-- A recognised piece adds its word, if it is one. -/
theorem recognisedWords?_made (kind? : Option TokenKind) (bytes : List UInt8)
    (pieces : List (Piece TokenKind)) :
    recognisedWords? (Piece.made kind? bytes :: pieces) =
      (recognisedWords? pieces).map ((kind?.map (·, bytes)).toList ++ ·) := by
  cases kind? <;> simp [Piece.made, recognisedWords?]

/-- The words are those of the tokens of a scan without a fault. -/
theorem words?_eq_some_iff {input : List UInt8} {words : List (TokenKind × List UInt8)} :
    words? input = some words ↔
      (scanWith rules input).tokens.map word = words ∧ (scanWith rules input).fault? = none := by
  rw [words?, recognisedWords?_eq_some_iff, scanWith, located_word, Option.map_eq_none_iff,
    firstUnrecognised?_eq_none_iff]

/-- A text that is spelled is recognised. -/
theorem Spells.words? {text : List UInt8} {words : List (TokenKind × List UInt8)}
    {Follows : List UInt8 → Prop} (spells : Spells text words Follows) (last : Follows []) :
    Token.words? text = some words :=
  words?_eq_some_iff.2 (spells.scanWith last)

/-- A match is the first word, unless it is skipped. -/
theorem words?_of_best? {input : List UInt8} {kind? : Option TokenKind} {size : Nat}
    (found : Lexer.best? rules input = some (kind?, size)) :
    words? input =
      (words? (input.drop size)).map ((kind?.map (·, input.take size)).toList ++ ·) := by
  obtain ⟨within, longest⟩ := longest_of_best? found
  have length : (input.take size).length = size := List.length_take_of_le within
  have cut : Lexer.best? rules (input.take size ++ input.drop size) =
      some (kind?, (input.take size).length) := by
    rw [List.take_append_drop, found, length]
  have shape := Lexer.pieces_of_best? longest.nonempty cut
  rw [List.take_append_drop] at shape
  rw [words?, shape, recognisedWords?_made]
  rfl

/-- Where nothing matches, the text is not recognised. -/
theorem words?_of_none {input : List UInt8} (someBytes : input ≠ [])
    (nothing : Lexer.best? rules input = none) : words? input = none := by
  obtain ⟨piece, cut, shape⟩ := Lexer.pieces_eq_cons rules someBytes
  cases cut with
  | made found _ => cases nothing.symm.trans found
  | unrecognised _ _ =>
      rw [words?, shape]
      rfl

/-! ## One more byte -/

/-- A byte that no rule goes on with is scanned behind everything else, unless what is left
somewhere takes it in. -/
theorem words?_append_singleton {byte : UInt8} {extra : List (TokenKind × List UInt8)}
    (alone : words? [byte] = some extra)
    (step : ∀ first rest,
      (∀ rule ∈ rules, rule.pattern.longest? (first :: rest ++ [byte]) =
        rule.pattern.longest? (first :: rest)) ∨
      words? (first :: rest) = some [] ∧ words? (first :: rest ++ [byte]) = some [])
    (input : List UInt8) :
    words? (input ++ [byte]) = words? input ∨
      words? (input ++ [byte]) = (words? input).map (· ++ extra) := by
  induction length : input.length using Nat.strong_induction_on generalizing input with
  | _ size inductionHypothesis =>
      subst length
      rcases input with _ | ⟨first, rest⟩
      · exact .inr (by simpa [words?, Lexer.pieces, recognisedWords?] using alone)
      · rcases step first rest with same | ⟨nothing, stillNothing⟩
        · have sameBest := Lexer.best?_congr same
          cases found : Lexer.best? rules (first :: rest) with
          | none =>
              rw [words?_of_none (List.cons_ne_nil first rest) found,
                words?_of_none (by simp) (sameBest.trans found)]
              exact .inl rfl
          | some result =>
              obtain ⟨within, longest⟩ := longest_of_best? found
              rw [words?_of_best? found, words?_of_best? (sameBest.trans found),
                List.take_append_of_le_length within, List.drop_append_of_le_length within]
              have shorter : ((first :: rest).drop result.2).length < (first :: rest).length := by
                have positive := List.length_pos_iff.2 longest.nonempty
                rw [List.length_take] at positive
                rw [List.length_drop]
                omega
              rcases inductionHypothesis _ shorter _ rfl with behind | behind
              · exact .inl (congrArg _ behind)
              · refine .inr ((congrArg _ behind).trans ?_)
                rw [Option.map_map, Option.map_map]
                congr 1
                funext words
                exact (List.append_assoc _ _ _).symm
        · exact .inl (stillNothing.trans nothing.symm)

/-- A line break at the end of a text adds nothing. -/
theorem words?_append_break (input : List UInt8) : words? (input ++ [10]) = words? input := by
  have blankWords {blanks : List UInt8} (areBlanks : ∀ byte ∈ blanks, isBlankByte byte = true) :
      words? blanks = some [] :=
    (spells_blanks areBlanks).words? (by simp)
  refine (words?_append_singleton (blankWords (List.forall_mem_singleton.2 rfl))
    (fun first rest => ?_) input).elim id
    fun found => found.trans (by simp)
  by_cases areBlanks : ∀ byte ∈ first :: rest, isBlankByte byte = true
  · refine .inr ⟨blankWords areBlanks, blankWords ?_⟩
    rw [List.forall_mem_append]
    exact ⟨areBlanks, List.forall_mem_singleton.2 rfl⟩
  · refine .inl fun rule member => ?_
    rcases (ignores_of_mem member).1 with rfl | ignores
    · simp only [List.mem_cons, forall_eq_or_imp, not_and, not_forall,
        Bool.not_eq_true] at areBlanks
      simp only [blankRule, Pattern.run, List.cons_append]
      split
      · rename_i isFirst
        obtain ⟨byte, inside, notBlank⟩ := areBlanks isFirst
        rw [Pattern.takeWhile_append_of_exists ⟨byte, inside, notBlank⟩]
      · rfl
    · exact ignores first rest

/-- A semicolon at the end of a text adds itself, or nothing if it gets into a comment. -/
theorem words?_append_semicolon (input : List UInt8) :
    words? (input ++ [59]) = words? input ∨
      words? (input ++ [59]) = (words? input).map (· ++ [(.mark .semicolon, [59])]) := by
  have alone : words? [59] = some [(.mark .semicolon, [59])] :=
    (spells_mark .semicolon).words? (by simp)
  refine words?_append_singleton alone (fun first rest => ?_) input
  by_cases isComment : ∃ body, first :: rest = lineOpening ++ body ∧ 10 ∉ body
  · obtain ⟨body, isBody, oneLine⟩ := isComment
    rw [isBody]
    refine .inr ⟨(spells_line oneLine).words? (by simp), ?_⟩
    rw [List.append_assoc]
    exact (spells_line (by simpa using oneLine)).words? (by simp)
  · refine .inl fun rule member => ?_
    rcases (ignores_of_mem member).2 with rfl | ignores
    · rcases rest with _ | ⟨second, rest⟩
      · exact if_neg fun opened => absurd opened.2 (by decide)
      · simp only [lineRule, Pattern.lineFrom, List.cons_append]
        split
        · rename_i opened
          have broken : 10 ∈ rest := by
            by_contra oneLine
            exact isComment ⟨rest, by rw [opened.1, opened.2]; rfl, oneLine⟩
          rw [Pattern.takeWhile_append_of_exists ⟨10, broken, rfl⟩]
          simp
        · rfl
    · exact ignores first rest

end Token
end ScopeScript
