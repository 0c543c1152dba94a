import Mathlib.Data.List.Forall2
import ScopeScript.Lexer.Vocabulary
import ScopeScript.Proofs.Lexer.Pieces

/-!
# The rules of the language as regular expressions

Each rule of the language finds the longest match of a written regular expression
(`rules_implement`). So what the lexer makes of the front of a text can be said without patterns:
it is the longest text at that place that any of the expressions matches, and of the expressions
that match it the first one gives the kind (`longest_of_best?`).
-/

namespace ScopeScript
namespace Token

open Lexer (Regex Rule Pattern)

/-- Comments to the end of the line. -/
def lineComment : String := "//[^\\n]*"

/-- Comments up to the first closing sign. -/
def closedComment : String := "/\\*([^*]|(\\*+[^*/]))*\\*+/"

/-- Blanks and line breaks. -/
def blanks : String := "( |\\t|\\n|\\r)+"

/-- The expressions of everything without a fixed spelling. -/
def openExpressions : List (Option TokenKind × String) :=
  [(none, lineComment),
    (none, closedComment),
    (some .text, "\"([^\"\\\\]|(\\\\.))*\""),
    (some .text, "'([^'\\\\]|(\\\\.))*'"),
    (some .name, "([a-z]|[A-Z]|_)([a-z]|[A-Z]|[0-9]|_)*"),
    (some .number, "[0-9]+(\\.[0-9]+)?"),
    (some .number, "\\.[0-9]+"),
    (none, blanks)]

/-- The expressions of the language with the kind of token they make, in the order of the rules.
What matches an expression without a kind is skipped. -/
def expressions : List (Option TokenKind × String) :=
  Keyword.all.map (fun word => (some (.keyword word), word.spelling)) ++
    Mark.all.map (fun mark => (some (.mark mark), Lexer.Vocabulary.escaped mark.spelling)) ++
    openExpressions

/-- A written expression matches a text. -/
def Matched (expression : String) (text : List UInt8) : Prop :=
  ∃ regex, Regex.ofBytes? (Text.bytes expression) = some regex ∧ regex.Matches text

/-- A rule makes the same kind of token as an expression, finds its longest match and never an
empty one. -/
def Implements (rule : Rule TokenKind) (entry : Option TokenKind × String) : Prop :=
  rule.kind? = entry.1 ∧ rule.pattern.Finds (Matched entry.2) ∧ ¬Matched entry.2 []

/-- What an expression matches is said by what it is read as. -/
theorem matched_iff {expression : String} {regex : Regex}
    (reads : Regex.ofBytes? (Text.bytes expression) = some regex) (text : List UInt8) :
    Matched expression text ↔ regex.Matches text := by
  constructor
  · rintro ⟨other, readsOther, matchesText⟩
    cases reads.symm.trans readsOther
    exact matchesText
  · exact fun matchesText => ⟨regex, reads, matchesText⟩

/-- A pattern implements the expression whose matches it finds. -/
theorem implements_of_finds {kind? : Option TokenKind} {pattern : Pattern} {expression : String}
    {regex : Regex} (reads : Regex.ofBytes? (Text.bytes expression) = some regex)
    (nonempty : regex.nullable = false) (finds : pattern.Finds regex.Matches) :
    Implements ⟨kind?, pattern⟩ (kind?, expression) := by
  refine ⟨rfl, finds.congr (matched_iff reads), ?_⟩
  rw [matched_iff reads, Regex.matches_nil_iff, nonempty]
  exact Bool.false_ne_true

/-! ## Fixed spellings -/

/-- The text of a keyword is read as the expression of its bytes. -/
theorem ofBytes?_keyword : ∀ word ∈ Keyword.all,
    Regex.ofBytes? (Text.bytes word.spelling) = some (.bytes (Text.bytes word.spelling)) ∧
      (Regex.bytes (Text.bytes word.spelling)).nullable = false := by
  decide +kernel

/-- The escaped text of a mark is read as the expression of its bytes. -/
theorem ofBytes?_mark : ∀ mark ∈ Mark.all,
    Regex.ofBytes? (Text.bytes (Lexer.Vocabulary.escaped mark.spelling)) =
        some (.bytes (Text.bytes mark.spelling)) ∧
      (Regex.bytes (Text.bytes mark.spelling)).nullable = false := by
  decide +kernel

theorem implements_keyword {word : Keyword} (member : word ∈ Keyword.all) :
    Implements (spelled (.keyword word) word.spelling) (some (.keyword word), word.spelling) := by
  obtain ⟨reads, nonempty⟩ := ofBytes?_keyword word member
  exact implements_of_finds reads nonempty (Pattern.finds_exactly _)

theorem implements_mark {mark : Mark} (member : mark ∈ Mark.all) :
    Implements (spelled (.mark mark) mark.spelling)
      (some (.mark mark), Lexer.Vocabulary.escaped mark.spelling) := by
  obtain ⟨reads, nonempty⟩ := ofBytes?_mark mark member
  exact implements_of_finds reads nonempty (Pattern.finds_exactly _)

/-- The rules of the keywords implement their texts. -/
theorem keywordRules_implement :
    List.Forall₂ Implements (keywordRules Keyword.all)
      (Keyword.all.map fun word => (some (.keyword word), word.spelling)) := by
  rw [keywordRules, List.forall₂_map_left_iff, List.forall₂_map_right_iff, List.forall₂_same]
  exact fun word member => implements_keyword member

/-- The rules of the marks implement their escaped texts. -/
theorem markRules_implement :
    List.Forall₂ Implements (markRules Mark.all)
      (Mark.all.map fun mark =>
        (some (.mark mark), Lexer.Vocabulary.escaped mark.spelling)) := by
  rw [markRules, List.forall₂_map_left_iff, List.forall₂_map_right_iff, List.forall₂_same]
  exact fun mark member => implements_mark member

/-! ## Everything else -/

section

open Lexer.Pattern Lexer.Regex

/-- One byte of a range. -/
def oneIn (low high : UInt8) : Regex :=
  .oneOf ⟨[(low, high)], false⟩

theorem isClass_oneIn (low high : UInt8) :
    (oneIn low high).IsClass fun byte => low ≤ byte && byte ≤ high := by
  refine (isClass_oneOf _).congr fun byte => ?_
  simp [Lexer.ByteClass.contains]

theorem isClass_digit : (oneIn 48 57).IsClass isDigitByte :=
  isClass_oneIn 48 57

theorem isClass_nameStart :
    (((oneIn 97 122).either (oneIn 65 90)).either (Regex.byte 95)).IsClass isNameStart :=
  ((isClass_oneIn 97 122).either (isClass_oneIn 65 90)).either (isClass_byte 95)

theorem isClass_namePart :
    ((((oneIn 97 122).either (oneIn 65 90)).either (oneIn 48 57)).either
      (Regex.byte 95)).IsClass isNamePart := by
  refine ((((isClass_oneIn 97 122).either (isClass_oneIn 65 90)).either
    isClass_digit).either (isClass_byte 95)).congr fun byte => ?_
  rw [isNamePart, isNameStart, Bool.or_right_comm]
  rfl

theorem isClass_blank :
    ((((Regex.byte 32).either (Regex.byte 9)).either (Regex.byte 10)).either
      (Regex.byte 13)).IsClass isBlankByte :=
  (((isClass_byte 32).either (isClass_byte 9)).either (isClass_byte 10)).either (isClass_byte 13)

/-- A quoted text goes up to the first quote that is not escaped. -/
theorem finds_text {quote : UInt8} (different : quote ≠ 92) :
    (quotedText quote (some 92)).Finds
      ((Regex.byte quote).sequence
        (((except [quote, 92]).either ((Regex.byte 92).sequence (except []))).anyNumber.sequence
          (Regex.byte quote))).Matches := by
  refine finds_quotedText different ((isClass_except [quote, 92]).congr fun byte => ?_)
    (isClass_except [])
  rw [List.all_cons, List.all_cons, List.all_nil, Bool.and_true]

/-- The open rules implement their expressions. -/
theorem openRules_implement : List.Forall₂ Implements openRules openExpressions := by
  refine .cons ?lineComment <| .cons ?closedComment <| .cons ?doubleQuoted <|
    .cons ?singleQuoted <| .cons ?name <| .cons ?number <| .cons ?fraction <| .cons ?blanks .nil
  case lineComment =>
    refine implements_of_finds (by decide +kernel) rfl
      (finds_lineFrom 47 47 ((isClass_except [10]).congr fun byte => ?_))
    simp
  case closedComment =>
    refine implements_of_finds (by decide +kernel) rfl
      (finds_enclosed 47 42 (by decide) ((isClass_except [Text.byteOf '*']).congr fun byte => ?_)
        ((isClass_except [Text.byteOf '*', Text.byteOf '/']).congr fun byte => ?_))
    · simp
    · simp
  case doubleQuoted => exact implements_of_finds (by decide +kernel) rfl (finds_text (by decide))
  case singleQuoted => exact implements_of_finds (by decide +kernel) rfl (finds_text (by decide))
  case name =>
    exact implements_of_finds (by decide +kernel) rfl
      (finds_run isClass_nameStart isClass_namePart)
  case number =>
    exact implements_of_finds (by decide +kernel) rfl (finds_decimal isClass_digit (by decide))
  case fraction => exact implements_of_finds (by decide +kernel) rfl (finds_fraction isClass_digit)
  case blanks => exact implements_of_finds (by decide +kernel) rfl (finds_run_self isClass_blank)

end

/-- All rules implement the expressions, in the same order. -/
theorem rules_implement : List.Forall₂ Implements rules expressions :=
  List.rel_append (List.rel_append keywordRules_implement markRules_implement) openRules_implement

/-! ## The longest match -/

/-- What is related to a list in parts is related part by part. -/
theorem forall₂_split {Related : α → β → Prop} {before after : List α} {value : α} {others : List β}
    (related : List.Forall₂ Related (before ++ value :: after) others) :
    ∃ otherBefore other otherAfter, others = otherBefore ++ other :: otherAfter ∧
      List.Forall₂ Related before otherBefore ∧ Related value other := by
  induction before generalizing others with
  | nil =>
      obtain ⟨other, rest, headRelated, -, rfl⟩ := List.forall₂_cons_left_iff.1 related
      exact ⟨[], other, rest, rfl, .nil, headRelated⟩
  | cons first before inductionHypothesis =>
      obtain ⟨front, rest, headRelated, restRelated, rfl⟩ := List.forall₂_cons_left_iff.1 related
      obtain ⟨otherBefore, other, otherAfter, rfl, beforeRelated, valueRelated⟩ :=
        inductionHypothesis restRelated
      exact ⟨front :: otherBefore, other, otherAfter, rfl, .cons headRelated beforeRelated,
        valueRelated⟩

/-- Every element of a related list is related to one. -/
theorem exists_related {Related : α → β → Prop} {values : List α} {others : List β}
    (related : List.Forall₂ Related values others) {other : β} (member : other ∈ others) :
    ∃ value ∈ values, Related value other := by
  obtain ⟨before, after, rfl⟩ := List.append_of_mem member
  have flipped : List.Forall₂ (flip Related) (before ++ other :: after) values := related.flip
  obtain ⟨otherBefore, value, otherAfter, rfl, -, valueRelated⟩ := forall₂_split flipped
  exact ⟨value, by simp, valueRelated⟩

/-- A text is the longest one at the front of an input that an expression of the language matches,
and the first expression that matches it makes the given kind of token. -/
structure Longest (kind? : Option TokenKind) (lexeme input : List UInt8) : Prop where
  isPrefix : lexeme <+: input
  nonempty : lexeme ≠ []
  first : ∃ before expression after, expressions = before ++ (kind?, expression) :: after ∧
    Matched expression lexeme ∧ ∀ earlier ∈ before, ¬Matched earlier.2 lexeme
  longest : ∀ entry ∈ expressions, ∀ other, other <+: input → Matched entry.2 other →
    other.length ≤ lexeme.length

/-- What wins at the front of a text is the longest match. -/
theorem longest_of_best? {kind? : Option TokenKind} {input : List UInt8} {size : Nat}
    (found : Lexer.best? rules input = some (kind?, size)) :
    size ≤ input.length ∧ Longest kind? (input.take size) input := by
  obtain ⟨before, rule, after, split, rfl, wins⟩ := Lexer.exists_wins_of_best? found
  have related := rules_implement
  rw [split] at related
  obtain ⟨entriesBefore, ⟨entryKind?, expression⟩, entriesAfter, entriesSplit, beforeRelated,
    sameKind, finds, notEmpty⟩ := forall₂_split related
  obtain ⟨inside, matched⟩ := finds.found wins.found
  have length : (input.take size).length = size := by rw [List.length_take, Nat.min_eq_left inside]
  refine ⟨inside, List.take_prefix _ _, fun nothing => notEmpty (nothing ▸ matched), ?_, ?_⟩
  · refine ⟨entriesBefore, expression, entriesAfter, ?_, matched,
      fun earlier member isMatched => ?_⟩
    · rw [entriesSplit, sameKind]
    · obtain ⟨other, otherMember, -, otherFinds, -⟩ := exists_related beforeRelated member
      obtain ⟨otherSize, otherFound, longer⟩ :=
        otherFinds.longest (List.take_prefix size input) isMatched
      have shorter := wins.before_lt other otherMember otherSize otherFound
      omega
  · intro entry member other isPrefix isMatched
    obtain ⟨otherRule, otherMember, -, otherFinds, -⟩ := exists_related rules_implement member
    obtain ⟨otherSize, otherFound, longer⟩ := otherFinds.longest isPrefix isMatched
    have noLonger : otherSize ≤ size := wins.le (split ▸ otherMember) otherFound
    omega

/-- Where no rule wins, no expression matches. -/
theorem not_matched_of_best? {input : List UInt8} (nothing : Lexer.best? rules input = none)
    {entry : Option TokenKind × String} (member : entry ∈ expressions) {other : List UInt8}
    (isPrefix : other <+: input) : ¬Matched entry.2 other := by
  obtain ⟨rule, ruleMember, -, finds, -⟩ := exists_related rules_implement member
  exact finds.not_of_none (Lexer.best?_eq_none_iff.1 nothing rule ruleMember) isPrefix

end Token
end ScopeScript
