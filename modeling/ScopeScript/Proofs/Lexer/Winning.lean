import ScopeScript.Proofs.Lexer.Pieces
import ScopeScript.Token.Lexer

/-!
# Which rule wins

The first byte of a text tells which rules can match at its front (`Pattern.Starts`). So the winner
is found by looking at few rules: a word wins as a whole and is a keyword or a name
(`best?_word`), and where nothing matches, nothing is about to match either, unless a quoted text
was opened (`viable_of_best?`).
-/

namespace ScopeScript

namespace Lexer.Pattern

/-- Every match of a pattern starts with a byte of a class. -/
def Starts (pattern : Pattern) (isStart : UInt8 → Bool) : Prop :=
  ∀ {byte rest size}, pattern.longest? (byte :: rest) = some size → isStart byte = true

/-- A fixed sequence starts with its first byte. -/
theorem starts_exactly {bytes : List UInt8} {isStart : UInt8 → Bool}
    (head : bytes.head?.any isStart = true) : (exactly bytes).Starts isStart := by
  intro byte tail size found
  simp only [exactly, List.isPrefixOf_iff_prefix] at found
  split at found
  · rename_i isPrefix
    obtain ⟨rest, append⟩ := isPrefix
    cases bytes with
    | nil => cases head
    | cons first others =>
        obtain ⟨rfl, -⟩ := List.cons_eq_cons.1 append
        exact head
  · cases found

/-- A run starts with a byte of its first class. -/
theorem starts_run (first rest : UInt8 → Bool) : (run first rest).Starts first := by
  intro byte tail size found
  simp only [run] at found
  split at found
  · assumption
  · cases found

/-- A comment to the end of the line starts with its first opening byte. -/
theorem starts_lineFrom (open₁ open₂ : UInt8) (withBreak : Bool) :
    (lineFrom open₁ open₂ withBreak).Starts (· == open₁) := by
  intro byte tail size found
  cases tail with
  | nil => cases found
  | cons next tail =>
      simp only [lineFrom] at found
      split at found
      · rename_i same
        simp [same.1]
      · cases found

/-- And so does a comment that is closed. -/
theorem starts_enclosed (open₁ open₂ close₁ close₂ : UInt8) :
    (enclosed open₁ open₂ close₁ close₂).Starts (· == open₁) := by
  intro byte tail size found
  cases tail with
  | nil => cases found
  | cons next tail =>
      simp only [enclosed] at found
      split at found
      · rename_i same
        simp [same.1]
      · cases found

theorem starts_quotedText (quote : UInt8) (escape? : Option UInt8) :
    (quotedText quote escape?).Starts (· == quote) := by
  intro byte tail size found
  simp only [quotedText] at found
  split at found
  · rename_i same
    simp [same]
  · cases found

theorem starts_decimal (point : UInt8) (isDigit : UInt8 → Bool) :
    (decimal point isDigit).Starts isDigit := by
  intro byte tail size found
  simp only [decimal, List.takeWhile_cons] at found
  split at found
  · rename_i someDigits
    by_contra notDigit
    simp [notDigit] at someDigits
  · cases found

theorem starts_fraction (point : UInt8) (isDigit : UInt8 → Bool) :
    (fraction point isDigit).Starts (· == point) := by
  intro byte tail size found
  simp only [fraction, fractionSize] at found
  split at found
  · rename_i isFraction
    simp [isFraction.1]
  · cases found

end Lexer.Pattern

namespace Token

open Lexer (Rule)

/-- A property of bytes holds of all of them if it holds of the first 256 numbers. -/
theorem forall_byte {p : UInt8 → Bool}
    (holds : (List.range 256).all (fun number => p (UInt8.ofNat number)) = true) (byte : UInt8) :
    p byte = true := by
  have member : byte.toNat ∈ List.range 256 := List.mem_range.2 byte.toNat_lt
  simpa using List.all_eq_true.1 holds byte.toNat member

theorem keyword_mem_all (word : Keyword) : word ∈ Keyword.all := by
  cases word <;> decide

theorem mark_mem_all (mark : Mark) : mark ∈ Mark.all := by
  cases mark <;> decide

/-- What the first byte of a text tells about what stands at its front. -/
inductive Lead
  | word | digit | quote | blank | sign | other
  deriving DecidableEq

/-- Whether a byte alone is a mark. -/
def isMarkByte (byte : UInt8) : Bool :=
  Mark.all.any fun mark => Text.bytes mark.spelling == [byte]

/-- Whether a byte opens a quoted text. -/
def isQuoteByte (byte : UInt8) : Bool :=
  byte == Text.byteOf '"' || byte == 39

/-- What a byte leads in. -/
def lead (byte : UInt8) : Lead :=
  if isNameStart byte then .word
  else if isDigitByte byte then .digit
  else if isQuoteByte byte then .quote
  else if isBlankByte byte then .blank
  else if isMarkByte byte then .sign
  else .other

/-- Whether a byte is one of those that lead in something. -/
def Lead.contains : Lead → UInt8 → Bool
  | .word => isNameStart
  | .digit => isDigitByte
  | .quote => isQuoteByte
  | .blank => isBlankByte
  | .sign => isMarkByte
  | .other => fun _ => false

/-- No byte leads in more than one thing, so the order in which `lead` asks does not matter. -/
theorem lead_eq_iff {byte : UInt8} {kind : Lead} (known : kind ≠ .other) :
    lead byte = kind ↔ kind.contains byte = true := by
  have all := forall_byte (p := fun byte => [Lead.word, .digit, .quote, .blank, .sign].all
    fun kind => decide (lead byte = kind) == kind.contains byte) (by decide +kernel) byte
  have member : kind ∈ [Lead.word, .digit, .quote, .blank, .sign] := by
    cases kind <;> simp at known ⊢
  rw [← beq_iff_eq.1 (List.all_eq_true.1 all kind member), decide_eq_true_eq]

/-- A byte leads a word exactly if names start with it. -/
theorem lead_eq_word_iff {byte : UInt8} : lead byte = .word ↔ isNameStart byte = true :=
  lead_eq_iff nofun

theorem lead_eq_digit_iff {byte : UInt8} : lead byte = .digit ↔ isDigitByte byte = true :=
  lead_eq_iff nofun

theorem lead_eq_quote_iff {byte : UInt8} : lead byte = .quote ↔ isQuoteByte byte = true :=
  lead_eq_iff nofun

theorem lead_eq_blank_iff {byte : UInt8} : lead byte = .blank ↔ isBlankByte byte = true :=
  lead_eq_iff nofun

theorem lead_eq_sign_iff {byte : UInt8} : lead byte = .sign ↔ isMarkByte byte = true :=
  lead_eq_iff nofun

/-- The rule for names. -/
def nameRule : Rule TokenKind :=
  ⟨some .name, .run isNameStart isNamePart⟩

/-- The rule for numbers that begin with a digit. -/
def numberRule : Rule TokenKind :=
  ⟨some .number, .decimal (Text.byteOf '.') isDigitByte⟩

/-- The rule for numbers that begin with a point. -/
def fractionRule : Rule TokenKind :=
  ⟨some .number, .fraction (Text.byteOf '.') isDigitByte⟩

/-- The rule for quoted texts with a given quote. -/
def textRule (quote : UInt8) : Rule TokenKind :=
  ⟨some .text, .quotedText quote (some (Text.byteOf '\\'))⟩

/-- The rule for blanks. -/
def blankRule : Rule TokenKind :=
  ⟨none, .run isBlankByte isBlankByte⟩

/-- The rule for comments to the end of the line. -/
def lineRule : Rule TokenKind :=
  ⟨none, .lineFrom (Text.byteOf '/') (Text.byteOf '/') false⟩

/-- The rule for closed comments. -/
def closedRule : Rule TokenKind :=
  ⟨none, .enclosed (Text.byteOf '/') (Text.byteOf '*') (Text.byteOf '*') (Text.byteOf '/')⟩

/-- The rules that are no fixed spellings, in their order. -/
theorem openRules_eq : openRules = [lineRule, closedRule, textRule (Text.byteOf '"'), textRule 39,
    nameRule, numberRule, fractionRule, blankRule] :=
  rfl

/-- A rule is that of a keyword, of a mark, or an open one. -/
theorem mem_rules_iff {rule : Rule TokenKind} :
    rule ∈ rules ↔
      (∃ word : Keyword, rule = spelled (.keyword word) word.spelling) ∨
        (∃ mark : Mark, rule = spelled (.mark mark) mark.spelling) ∨ rule ∈ openRules := by
  simp only [rules, rulesOf, List.mem_append, keywordRules, markRules, List.mem_map,
    keyword_mem_all, mark_mem_all, true_and, or_assoc, eq_comm]

theorem mem_rules_of_open {rule : Rule TokenKind} (isOpen : rule ∈ openRules) : rule ∈ rules :=
  mem_rules_iff.2 (.inr (.inr isOpen))

/-- The rules that can match at the front of a text with a given first byte. -/
inductive Fits (byte : UInt8) : Rule TokenKind → Prop
  | keyword (word : Keyword) :
      lead byte = .word → Fits byte (spelled (.keyword word) word.spelling)
  | name : lead byte = .word → Fits byte nameRule
  | number : lead byte = .digit → Fits byte numberRule
  | text : lead byte = .quote → Fits byte (textRule byte)
  | blanks : lead byte = .blank → Fits byte blankRule
  | mark (mark : Mark) : lead byte = .sign → Fits byte (spelled (.mark mark) mark.spelling)
  | lineComment : lead byte = .sign → byte = Text.byteOf '/' → Fits byte lineRule
  | closedComment : lead byte = .sign → byte = Text.byteOf '/' → Fits byte closedRule
  | fraction : lead byte = .sign → byte = Text.byteOf '.' → Fits byte fractionRule

/-- Keywords start like names. -/
theorem head_keyword : ∀ word ∈ Keyword.all,
    (Text.bytes word.spelling).head?.any isNameStart = true := by
  decide +kernel

/-- Marks start with one of their own bytes. -/
theorem head_mark : ∀ mark ∈ Mark.all,
    (Text.bytes mark.spelling).head?.any isMarkByte = true := by
  decide +kernel

/-- A rule that matches fits the first byte. -/
theorem fits_of_match {rule : Rule TokenKind} (member : rule ∈ rules) {byte : UInt8}
    {rest : List UInt8} {size : Nat} (found : rule.pattern.longest? (byte :: rest) = some size) :
    Fits byte rule := by
  rcases mem_rules_iff.1 member with ⟨word, rfl⟩ | ⟨mark, rfl⟩ | isOpen
  · have start := Lexer.Pattern.starts_exactly (head_keyword word (keyword_mem_all _)) found
    exact .keyword word (lead_eq_word_iff.2 start)
  · have start := Lexer.Pattern.starts_exactly (head_mark mark (mark_mem_all _)) found
    exact .mark mark (lead_eq_sign_iff.2 start)
  · simp only [openRules_eq, List.mem_cons, List.not_mem_nil, or_false] at isOpen
    rcases isOpen with rfl | rfl | rfl | rfl | rfl | rfl | rfl | rfl
    · obtain rfl := beq_iff_eq.1 (Lexer.Pattern.starts_lineFrom _ _ _ found)
      exact .lineComment (by decide +kernel) rfl
    · obtain rfl := beq_iff_eq.1 (Lexer.Pattern.starts_enclosed _ _ _ _ found)
      exact .closedComment (by decide +kernel) rfl
    · obtain rfl := beq_iff_eq.1 (Lexer.Pattern.starts_quotedText _ _ found)
      exact .text (by decide +kernel)
    · obtain rfl := beq_iff_eq.1 (Lexer.Pattern.starts_quotedText _ _ found)
      exact .text (by decide +kernel)
    · exact .name (lead_eq_word_iff.2 (Lexer.Pattern.starts_run _ _ found))
    · exact .number (lead_eq_digit_iff.2 (Lexer.Pattern.starts_decimal _ _ found))
    · obtain rfl := beq_iff_eq.1 (Lexer.Pattern.starts_fraction _ _ found)
      exact .fraction (by decide +kernel) rfl
    · exact .blanks (lead_eq_blank_iff.2 (Lexer.Pattern.starts_run _ _ found))

/-! ## Words -/

/-- The rule of a spelling matches exactly where the spelling stands. -/
theorem longest?_spelled {kind : TokenKind} {spelling : String} {input : List UInt8} {size : Nat} :
    (spelled kind spelling).pattern.longest? input = some size ↔
      Text.bytes spelling <+: input ∧ size = (Text.bytes spelling).length := by
  simp only [spelled, Lexer.Pattern.exactly, List.isPrefixOf_iff_prefix]
  split <;> simp_all [eq_comm]

/-- Keywords consist of parts of names. -/
theorem isNamePart_keyword : ∀ word ∈ Keyword.all,
    ∀ byte ∈ Text.bytes word.spelling, isNamePart byte = true := by
  decide +kernel

/-- Keywords are told apart by their spelling. -/
theorem keyword_spelling_injective : ∀ word ∈ Keyword.all, ∀ other ∈ Keyword.all,
    Text.bytes word.spelling = Text.bytes other.spelling → word = other := by
  decide +kernel

/-- The kind of a word: a keyword if it is spelled like one, and else a name. -/
def wordKind (word : List UInt8) : TokenKind :=
  match Keyword.all.find? fun keyword => Text.bytes keyword.spelling == word with
  | some keyword => .keyword keyword
  | none => .name

/-- A word is a keyword exactly if it is spelled like one. -/
theorem wordKind_eq_keyword_iff {run : List UInt8} {word : Keyword} :
    wordKind run = .keyword word ↔ run = Text.bytes word.spelling := by
  unfold wordKind
  constructor
  · intro isKeyword
    split at isKeyword
    · rename_i found
      cases isKeyword
      have same := List.find?_some found
      exact (beq_iff_eq.1 same).symm
    · cases isKeyword
  · rintro rfl
    split
    · rename_i other found
      have same := List.find?_some found
      rw [keyword_spelling_injective other (keyword_mem_all _) word (keyword_mem_all _)
        (beq_iff_eq.1 same)]
    · rename_i nothing
      have differs := List.find?_eq_none.1 nothing word (keyword_mem_all _)
      simp at differs

section

variable {byte : UInt8} {rest : List UInt8}

/-- A keyword at the front of a text is the whole word there or shorter. -/
theorem keyword_le_word {word : Keyword} {input : List UInt8}
    (isPrefix : Text.bytes word.spelling <+: input) :
    Text.bytes word.spelling = input.takeWhile isNamePart ∨
      (Text.bytes word.spelling).length < (input.takeWhile isNamePart).length := by
  have parts := isNamePart_keyword word (keyword_mem_all _)
  have inside := Lexer.Pattern.length_le_takeWhile isPrefix parts
  refine (Nat.eq_or_lt_of_le inside).imp_left fun same => ?_
  exact List.IsPrefix.eq_of_length
    (List.prefix_of_prefix_length_le isPrefix (List.takeWhile_prefix _) inside) same

/-- Only keywords and names start with a letter or an underscore. -/
theorem keyword_or_name (start : lead byte = .word) {rule : Rule TokenKind} (member : rule ∈ rules)
    {size : Nat} (found : rule.pattern.longest? (byte :: rest) = some size) :
    (∃ word : Keyword, rule = spelled (.keyword word) word.spelling ∧
      Text.bytes word.spelling <+: byte :: rest ∧ size = (Text.bytes word.spelling).length) ∨
      rule = nameRule := by
  have fits := fits_of_match member found
  cases fits with
  | keyword word _ => exact .inl ⟨word, rfl, longest?_spelled.1 found⟩
  | name _ => exact .inr rfl
  | _ => simp_all

/-- A word wins as a whole. -/
theorem best?_word (start : isNameStart byte = true) :
    Lexer.best? rules (byte :: rest) =
      some (some (wordKind ((byte :: rest).takeWhile isNamePart)),
        ((byte :: rest).takeWhile isNamePart).length) := by
  have isWord := lead_eq_word_iff.2 start
  have nameFound : nameRule.pattern.longest? (byte :: rest) =
      some ((byte :: rest).takeWhile isNamePart).length := by
    have part : isNamePart byte = true := by simp [isNamePart, start]
    rw [List.takeWhile_cons_of_pos part]
    exact if_pos start
  unfold wordKind
  split
  · rename_i word found
    obtain ⟨same, earlier, later, split, differ⟩ := List.find?_eq_some_iff_append.1 found
    have spelling := beq_iff_eq.1 same
    have rulesSplit : rules = keywordRules earlier ++ spelled (.keyword word) word.spelling ::
        (keywordRules later ++ markRules Mark.all ++ openRules) := by
      rw [rules, rulesOf, split]
      simp [keywordRules]
    have wins : Lexer.Wins (keywordRules earlier) (spelled (.keyword word) word.spelling)
        (keywordRules later ++ markRules Mark.all ++ openRules) (byte :: rest)
        ((byte :: rest).takeWhile isNamePart).length := by
      refine ⟨longest?_spelled.2 ⟨spelling ▸ List.takeWhile_prefix _, by rw [spelling]⟩,
        fun other isBefore size matched => ?_, fun other isAfter size matched => ?_⟩
      · obtain ⟨first, isEarlier, rfl⟩ := List.mem_map.1 isBefore
        obtain ⟨isPrefix, rfl⟩ := longest?_spelled.1 matched
        have differs := differ first isEarlier
        rcases keyword_le_word isPrefix with same | shorter
        · simp [same] at differs
        · exact shorter
      · have member : other ∈ rules := by
          rw [rulesSplit]
          exact List.mem_append_right _ (List.mem_cons_of_mem _ isAfter)
        rcases keyword_or_name isWord member matched with ⟨later, rfl, isPrefix, rfl⟩ | rfl
        · rcases keyword_le_word isPrefix with same | shorter
          · rw [same]
          · exact Nat.le_of_lt shorter
        · cases nameFound.symm.trans matched
          exact Nat.le_refl _
    rw [rulesSplit]
    exact Lexer.best?_of_wins wins
  · rename_i nothing
    refine Lexer.best?_of_forall (mem_rules_of_open (by simp [openRules_eq])) nameFound ?_
    intro other member size matched
    refine (keyword_or_name isWord member matched).symm.imp_right ?_
    rintro ⟨word, rfl, isPrefix, rfl⟩
    have differs := List.find?_eq_none.1 nothing word (keyword_mem_all _)
    rcases keyword_le_word isPrefix with same | shorter
    · simp [same] at differs
    · exact shorter

/-- A token is a keyword exactly if the word at its place is one. -/
theorem kind_eq_keyword_iff {input : List UInt8} {kind : TokenKind} {size : Nat}
    (found : Lexer.best? rules input = some (some kind, size)) (nonempty : input ≠ [])
    (word : Keyword) :
    kind = .keyword word ↔ input.takeWhile isNamePart = Text.bytes word.spelling := by
  obtain ⟨byte, rest, rfl⟩ := List.exists_cons_of_ne_nil nonempty
  by_cases start : isNameStart byte = true
  · rw [best?_word start] at found
    cases found
    exact wordKind_eq_keyword_iff
  · have head := head_keyword word (keyword_mem_all _)
    constructor
    · rintro rfl
      obtain ⟨before, rule, after, split, sameKind, wins⟩ := Lexer.exists_wins_of_best? found
      have member : rule ∈ rules := split ▸ List.mem_append_right _ List.mem_cons_self
      cases fits_of_match member wins.found with
      | keyword _ isWord => exact absurd (lead_eq_word_iff.1 isWord) start
      | _ => cases sameKind
    · intro same
      rw [← same, List.takeWhile_cons] at head
      split at head
      · exact absurd head start
      · cases head

end

/-! ## Where nothing matches -/

/-- A sequence with another first byte shares nothing. -/
theorem common_eq_zero {bytes rest : List UInt8} {byte : UInt8}
    (differs : bytes.head? ≠ some byte) : Lexer.Pattern.common bytes (byte :: rest) = 0 := by
  cases bytes with
  | nil => rfl
  | cons first others => exact if_neg (by simpa using differs)

/-- A byte that leads in a word, a number, a blank or a mark leads in a match. -/
theorem lead_of_best? {byte : UInt8} {rest : List UInt8}
    (nothing : Lexer.best? rules (byte :: rest) = none) :
    lead byte = .quote ∨ lead byte = .other := by
  rw [Lexer.best?_eq_none_iff] at nothing
  cases isLead : lead byte with
  | quote => exact .inl rfl
  | other => exact .inr rfl
  | word =>
      have unmatched := nothing nameRule (mem_rules_of_open (by simp [openRules_eq]))
      simp [nameRule, Lexer.Pattern.run, lead_eq_word_iff.1 isLead] at unmatched
  | digit =>
      have unmatched := nothing numberRule (mem_rules_of_open (by simp [openRules_eq]))
      simp [numberRule, Lexer.Pattern.decimal, lead_eq_digit_iff.1 isLead] at unmatched
  | blank =>
      have unmatched := nothing blankRule (mem_rules_of_open (by simp [openRules_eq]))
      simp [blankRule, Lexer.Pattern.run, lead_eq_blank_iff.1 isLead] at unmatched
  | sign =>
      obtain ⟨mark, -, spelling⟩ := List.any_eq_true.1 (lead_eq_sign_iff.1 isLead)
      have matched : (spelled (.mark mark) mark.spelling).pattern.longest? (byte :: rest) =
          some (Text.bytes mark.spelling).length :=
        longest?_spelled.2 ⟨beq_iff_eq.1 spelling ▸ ⟨rest, rfl⟩, rfl⟩
      cases (nothing _ (mem_rules_iff.2 (.inr (.inl ⟨mark, rfl⟩)))).symm.trans matched

/-- A byte that leads in nothing is not the first one of anything. -/
theorem viable_of_other {byte : UInt8} (unknown : lead byte = .other) {rule : Rule TokenKind}
    (member : rule ∈ rules) (rest : List UInt8) : rule.pattern.viable (byte :: rest) = 0 := by
  have notWord : ¬isNameStart byte = true := by simp [← lead_eq_word_iff, unknown]
  have notDigit : ¬isDigitByte byte = true := by simp [← lead_eq_digit_iff, unknown]
  have notBlank : ¬isBlankByte byte = true := by simp [← lead_eq_blank_iff, unknown]
  have notMark : ¬isMarkByte byte = true := by simp [← lead_eq_sign_iff, unknown]
  have notQuote : byte ≠ Text.byteOf '"' ∧ byte ≠ 39 := by
    have none : ¬isQuoteByte byte = true := by simp [← lead_eq_quote_iff, unknown]
    simpa [isQuoteByte] using none
  have notHead {bytes : List UInt8} {isStart : UInt8 → Bool} (differs : ¬isStart byte = true)
      (head : bytes.head?.any isStart = true) : Lexer.Pattern.common bytes (byte :: rest) = 0 :=
    common_eq_zero fun same => by simp_all
  rcases mem_rules_iff.1 member with ⟨word, rfl⟩ | ⟨mark, rfl⟩ | isOpen
  · exact notHead notWord (head_keyword word (keyword_mem_all _))
  · exact notHead notMark (head_mark mark (mark_mem_all _))
  · simp only [openRules_eq, List.mem_cons, List.not_mem_nil, or_false] at isOpen
    rcases isOpen with rfl | rfl | rfl | rfl | rfl | rfl | rfl | rfl
    · exact notHead notMark (by decide +kernel)
    · have notSlash : byte ≠ Text.byteOf '/' := by
        rintro rfl
        exact notMark (by decide +kernel)
      cases rest with
      | nil => exact if_neg notSlash.symm
      | cons next rest =>
          refine (if_neg fun opened => notSlash opened.1).trans ?_
          exact if_neg notSlash.symm
    · exact if_neg notQuote.1
    · exact if_neg notQuote.2
    · exact if_neg notWord
    · simp [numberRule, Lexer.Pattern.decimal, notDigit]
    · exact notHead notMark (by decide +kernel)
    · exact if_neg notBlank

/-- Where no rule matches, all that remains is viable behind an open quote, and nothing
elsewhere. -/
theorem viable_of_best? {byte : UInt8} {rest : List UInt8}
    (nothing : Lexer.best? rules (byte :: rest) = none) :
    if isQuoteByte byte then rest.length < Lexer.viable rules (byte :: rest)
    else Lexer.viable rules (byte :: rest) = 0 := by
  rcases lead_of_best? nothing with isQuote | isOther
  · have quote := lead_eq_quote_iff.1 isQuote
    rw [if_pos quote]
    have member : textRule byte ∈ rules := by
      simp only [isQuoteByte, Bool.or_eq_true, beq_iff_eq] at quote
      rcases quote with rfl | rfl <;> exact mem_rules_of_open (by simp [openRules_eq])
    have whole : (textRule byte).pattern.viable (byte :: rest) = rest.length + 1 := if_pos rfl
    exact whole.ge.trans (Lexer.le_viable member)
  · have notQuote : ¬isQuoteByte byte = true := by simp [← lead_eq_quote_iff, isOther]
    rw [if_neg notQuote]
    refine Nat.le_zero.1 (Lexer.viable_le fun rule member => ?_)
    rw [viable_of_other isOther member]

end Token

end ScopeScript
