import ScopeScript.Proofs.Lexer.Spelling

/-!
# The order of keywords and marks

Which rule comes first decides only between matches of equal length. Two keywords never match
equally long at the same place, as no two of them are spelled alike, and neither do two marks. So
the order within each of these groups decides nothing (`best?_perm`); the order of the groups is
the same for all lexers of the language. Hence all orders of keywords and marks give lexers that
cut every text into the same tokens and find the same fault (`scan_ignores_registration_order`).
-/

namespace ScopeScript
namespace Lexer

variable {κ : Type} {rules others : List (Rule κ)} {input : List UInt8}

/-- Rules that match equally long make tokens of the same kind. -/
def TieFree (rules : List (Rule κ)) : Prop :=
  ∀ rule ∈ rules, ∀ other ∈ rules, ∀ input size,
    rule.pattern.longest? input = some size → other.pattern.longest? input = some size →
      rule.kind? = other.kind?

theorem TieFree.tail {rule : Rule κ} (tieFree : TieFree (rule :: rules)) : TieFree rules :=
  fun first isFirst second isSecond =>
    tieFree first (List.mem_cons_of_mem rule isFirst) second (List.mem_cons_of_mem rule isSecond)

/-- Whether rules can tie does not depend on their order. -/
theorem TieFree.perm (tieFree : TieFree rules) (perm : rules.Perm others) : TieFree others :=
  fun first isFirst second isSecond =>
    tieFree first (perm.mem_iff.2 isFirst) second (perm.mem_iff.2 isSecond)

/-- Rules in front of others see of these only what wins among them. -/
theorem best?_append_congr (before : List (Rule κ))
    (same : best? rules input = best? others input) :
    best? (before ++ rules) input = best? (before ++ others) input := by
  induction before with
  | nil => exact same
  | cons rule before inductionHypothesis =>
      simp only [List.cons_append, best?, inductionHypothesis]

/-- Two rules can change places unless they tie and make different tokens. -/
theorem best?_swap {first second : Rule κ}
    (tie : ∀ size, first.pattern.longest? input = some size →
      second.pattern.longest? input = some size → first.kind? = second.kind?) :
    best? (second :: first :: rules) input = best? (first :: second :: rules) input := by
  simp only [best?]
  grind

/-- The order of rules without ties decides nothing, whatever rules follow. -/
theorem best?_perm (perm : rules.Perm others) (tieFree : TieFree rules) (after : List (Rule κ)) :
    best? (rules ++ after) input = best? (others ++ after) input := by
  induction perm with
  | nil => rfl
  | cons rule perm inductionHypothesis =>
      exact best?_append_congr [rule] (inductionHypothesis tieFree.tail)
  | swap first second rules =>
      exact best?_swap fun size => tieFree first (by simp) second (by simp) input size
  | trans perm _ firstHypothesis secondHypothesis =>
      exact (firstHypothesis tieFree).trans (secondHypothesis (tieFree.perm perm))

/-- What is viable does not depend on the order of the rules. -/
theorem viable_perm (perm : rules.Perm others) : viable rules input = viable others input := by
  refine (perm.map fun rule => rule.pattern.viable input).foldr_eq' ?_ 0
  intro first _ second _ size
  omega

/-- Rules with the same winners cut every text into the same pieces. -/
theorem pieces_congr (winners : ∀ input, best? rules input = best? others input)
    (viables : ∀ input, viable rules input = viable others input) (source : List UInt8) :
    pieces rules source = pieces others source := by
  fun_induction pieces rules source with
  | case1 => simp [pieces]
  | case2 byte rest kind? size found inductionHypothesis =>
      rw [pieces, ← winners, found]
      simp only [inductionHypothesis]
  | case3 byte rest size nothing inductionHypothesis =>
      rw [pieces, ← winners, ← viables]
      split
      · rename_i found
        exact absurd found (nothing _ _)
      · rw [inductionHypothesis]

end Lexer

namespace Token

/-- The expressions of all rules, for any order in which keywords and marks are listed. -/
def expressionsOf (words : List Keyword) (marks : List Mark) : List (Option TokenKind × String) :=
  words.map (fun word => (some (.keyword word), word.spelling)) ++
    marks.map (fun mark => (some (.mark mark), Lexer.Vocabulary.escaped mark.spelling)) ++
    openExpressions

/-- Rules with different spellings do not tie. -/
theorem tieFree_map_spelled {kind : α → TokenKind} {spelling : α → String}
    (injective : ∀ value other, Text.bytes (spelling value) = Text.bytes (spelling other) →
      value = other) (values : List α) :
    Lexer.TieFree (values.map fun value => spelled (kind value) (spelling value)) := by
  intro rule member other otherMember input size found matched
  obtain ⟨value, -, rfl⟩ := List.mem_map.1 member
  obtain ⟨otherValue, -, rfl⟩ := List.mem_map.1 otherMember
  obtain ⟨isPrefix, rfl⟩ := longest?_spelled.1 found
  obtain ⟨otherPrefix, length⟩ := longest?_spelled.1 matched
  -- Both spellings are the front of the text, and equally long.
  have same := (List.prefix_of_prefix_length_le isPrefix otherPrefix length.le).eq_of_length length
  rw [injective value otherValue same]

/-- Keywords never tie with each other. -/
theorem tieFree_keywordRules (words : List Keyword) : Lexer.TieFree (keywordRules words) :=
  tieFree_map_spelled (fun word other =>
    keyword_spelling_injective word (keyword_mem_all word) other (keyword_mem_all other)) words

/-- Nor do marks. -/
theorem tieFree_markRules (marks : List Mark) : Lexer.TieFree (markRules marks) :=
  tieFree_map_spelled (fun mark other =>
    mark_spelling_injective mark (mark_mem_all mark) other (mark_mem_all other)) marks

variable {words otherWords : List Keyword} {marks otherMarks : List Mark}

/-- The winner does not depend on the order of the keywords and that of the marks. -/
theorem best?_rulesOf (sameWords : words.Perm otherWords) (sameMarks : marks.Perm otherMarks)
    (input : List UInt8) :
    Lexer.best? (rulesOf words marks) input =
      Lexer.best? (rulesOf otherWords otherMarks) input := by
  calc Lexer.best? (rulesOf words marks) input
      = Lexer.best? (keywordRules words ++ (markRules marks ++ openRules)) input := by
        rw [rulesOf, List.append_assoc]
    _ = Lexer.best? (keywordRules otherWords ++ (markRules marks ++ openRules)) input :=
        Lexer.best?_perm (sameWords.map _) (tieFree_keywordRules words) _
    _ = Lexer.best? (keywordRules otherWords ++ (markRules otherMarks ++ openRules)) input :=
        Lexer.best?_append_congr _
          (Lexer.best?_perm (sameMarks.map _) (tieFree_markRules marks) openRules)
    _ = Lexer.best? (rulesOf otherWords otherMarks) input := by
        rw [rulesOf, List.append_assoc]

/-- And neither does what is viable. -/
theorem viable_rulesOf (sameWords : words.Perm otherWords) (sameMarks : marks.Perm otherMarks)
    (input : List UInt8) :
    Lexer.viable (rulesOf words marks) input =
      Lexer.viable (rulesOf otherWords otherMarks) input :=
  Lexer.viable_perm (((sameWords.map _).append (sameMarks.map _)).append_right openRules)

/-- In whatever order keywords and marks are listed, the rules are those of their expressions. -/
theorem rulesOf_implement (words : List Keyword) (marks : List Mark) :
    List.Forall₂ Implements (rulesOf words marks) (expressionsOf words marks) := by
  refine List.rel_append (List.rel_append ?keywords ?marks) openRules_implement
  case keywords =>
    rw [keywordRules, List.forall₂_map_left_iff, List.forall₂_map_right_iff, List.forall₂_same]
    exact fun word _ => implements_keyword (keyword_mem_all word)
  case marks =>
    rw [markRules, List.forall₂_map_left_iff, List.forall₂_map_right_iff, List.forall₂_same]
    exact fun mark _ => implements_mark (mark_mem_all mark)

/-- In whatever order the expressions of keywords and of marks are registered in front of the
others, the tokens of a text with their kinds, lexemes and spans are the same, and so is the first
fault. -/
theorem scan_ignores_registration_order (sameWords : words.Perm otherWords)
    (sameMarks : marks.Perm otherMarks) (source : List UInt8) :
    List.Forall₂ Implements (rulesOf words marks) (expressionsOf words marks) ∧
      scanWith (rulesOf words marks) source = scanWith (rulesOf otherWords otherMarks) source := by
  refine ⟨rulesOf_implement words marks, ?_⟩
  unfold scanWith
  rw [Lexer.pieces_congr (best?_rulesOf sameWords sameMarks) (viable_rulesOf sameWords sameMarks)]

/-- Keywords and marks in reverse order, and a text with words and marks of which one starts like
another, a comment and a quote that is not closed. -/
theorem scan_ignores_reversed_order :
    Keyword.all.reverse.Perm Keyword.all ∧ Mark.all.reverse.Perm Mark.all ∧
      List.Forall₂ Implements (rulesOf Keyword.all.reverse Mark.all.reverse)
        (expressionsOf Keyword.all.reverse Mark.all.reverse) ∧
      scanWith (rulesOf Keyword.all.reverse Mark.all.reverse)
          (Text.bytes "asynch as new newer <= < == .. /* */ 'x") =
        scanWith (rulesOf Keyword.all Mark.all)
          (Text.bytes "asynch as new newer <= < == .. /* */ 'x") :=
  ⟨List.reverse_perm _, List.reverse_perm _,
    scan_ignores_registration_order (List.reverse_perm _) (List.reverse_perm _) _⟩

end Token
end ScopeScript
