import ScopeScript.Proofs.Lexer.Scanning

/-!
# Spelling tokens

`Spells text words Follows` says that scanning a text gives the given words, whatever allowed text
follows it. Words, numbers, quoted texts, marks and blanks spell themselves as long as what follows
does not go on with them, and texts that are spelled one behind the other spell their words in that
order (`Spells.append`).
-/

namespace ScopeScript
namespace Token

open Lexer (Piece)

/-- The kind and the bytes of a token, wherever it stands. -/
def word (token : Token) : TokenKind × List UInt8 :=
  (token.kind, token.lexeme)

/-- The kind and the bytes of a piece that is a token. -/
def pieceWord? : Piece TokenKind → Option (TokenKind × List UInt8)
  | .token kind bytes => some (kind, bytes)
  | _ => none

/-- Scanning a text gives some words and goes on with what follows it. -/
def Spells (text : List UInt8) (words : List (TokenKind × List UInt8))
    (Follows : List UInt8 → Prop) : Prop :=
  ∀ rest, Follows rest → ∃ front, Lexer.pieces rules (text ++ rest) =
      front ++ Lexer.pieces rules rest ∧ front.filterMap pieceWord? = words ∧
    ∀ bytes, Piece.unrecognised bytes ∉ front

namespace Spells

variable {text more : List UInt8} {words others : List (TokenKind × List UInt8)}
  {Follows Later : List UInt8 → Prop}

/-- Texts that are spelled one behind the other spell their words in that order. -/
theorem append (first : Spells text words Follows) (second : Spells more others Later)
    (joins : ∀ rest, Later rest → Follows (more ++ rest)) :
    Spells (text ++ more) (words ++ others) Later := by
  intro rest allowed
  obtain ⟨front, cut, rfl, recognised⟩ := first (more ++ rest) (joins rest allowed)
  obtain ⟨back, cutBack, rfl, recognisedBack⟩ := second rest allowed
  refine ⟨front ++ back, ?_, List.filterMap_append, fun bytes member => ?_⟩
  · rw [List.append_assoc, cut, cutBack, List.append_assoc]
  · rcases List.mem_append.1 member with inFront | inBack
    · exact recognised bytes inFront
    · exact recognisedBack bytes inBack

/-- Less may be allowed to follow. -/
theorem mono (spells : Spells text words Follows) (stronger : ∀ rest, Later rest → Follows rest) :
    Spells text words Later :=
  fun rest allowed => spells rest (stronger rest allowed)

/-- A text that wins as a whole is one piece. -/
theorem of_best? (kind? : Option TokenKind) (someBytes : text ≠ [])
    (wins : ∀ rest, Follows rest →
      Lexer.best? rules (text ++ rest) = some (kind?, text.length)) :
    Spells text ((kind?.map fun kind => (kind, text)).toList) Follows := by
  intro rest allowed
  refine ⟨[Piece.made kind? text], Lexer.pieces_of_best? someBytes (wins rest allowed), ?_, ?_⟩
  · cases kind? <;> rfl
  · cases kind? <;> simp [Piece.made]

end Spells

/-- Where tokens stand does not change their words. -/
theorem located_word (offset : Nat) (pieces : List (Piece TokenKind)) :
    (located offset pieces).map word = pieces.filterMap pieceWord? := by
  induction pieces generalizing offset with
  | nil => rfl
  | cons piece pieces inductionHypothesis =>
      cases piece <;> simp [located, List.filterMap_cons, pieceWord?, word, inductionHypothesis]

/-- A text that may stand at the end is scanned into the words it spells. -/
theorem Spells.scanWith {text : List UInt8} {words : List (TokenKind × List UInt8)}
    {Follows : List UInt8 → Prop} (spells : Spells text words Follows) (last : Follows []) :
    (scanWith rules text).tokens.map word = words ∧ (scanWith rules text).fault? = none := by
  obtain ⟨front, cut, spelled, recognised⟩ := spells [] last
  have pieces : Lexer.pieces rules text = front := by simpa [Lexer.pieces] using cut
  constructor
  · rw [Token.scanWith, located_word, pieces, spelled]
  · rw [Token.scanWith, pieces]
    exact Option.map_eq_none_iff.2 (firstUnrecognised?_eq_none_iff.2 recognised)

/-! ## Words -/

/-- What follows goes on neither with a word nor with a number. -/
def Apart (rest : List UInt8) : Prop :=
  ∀ byte tail, rest = byte :: tail → isNamePart byte = false ∧
    (byte = Text.byteOf '.' → ∀ next, tail.head? = some next → isDigitByte next = false)

theorem apart_nil : Apart [] := by
  rintro byte tail ⟨⟩

/-- What begins with neither a part of a name nor a dot stands apart. -/
theorem apart_of_head {byte : UInt8} (notPart : isNamePart byte = false)
    (notDot : byte ≠ Text.byteOf '.') (tail : List UInt8) : Apart (byte :: tail) := by
  rintro _ _ ⟨⟩
  exact ⟨notPart, fun isDot => absurd isDot notDot⟩

theorem Apart.not_part {rest : List UInt8} (apart : Apart rest) :
    ∀ byte, rest.head? = some byte → isNamePart byte = false := by
  intro byte head
  obtain ⟨tail, rfl⟩ := List.head?_eq_some_iff.1 head
  exact (apart byte tail rfl).1

/-- A letter or an underscore and more of these and digits. -/
def IsWord (text : List UInt8) : Prop :=
  ∃ byte rest, text = byte :: rest ∧ isNameStart byte = true ∧
    ∀ other ∈ rest, isNamePart other = true

/-- A run ends where something else follows. -/
theorem takeWhile_append_of_head {isMember : UInt8 → Bool} {text rest : List UInt8}
    (members : ∀ byte ∈ text, isMember byte = true)
    (ends : ∀ byte, rest.head? = some byte → isMember byte = false) :
    (text ++ rest).takeWhile isMember = text := by
  rw [List.takeWhile_append_of_pos members]
  cases rest with
  | nil => simp
  | cons byte tail => simp [ends byte rfl]

/-- A word is scanned whole as a keyword or a name. -/
theorem IsWord.spells {text : List UInt8} (isWord : IsWord text) :
    Spells text [(wordKind text, text)]
      fun rest => ∀ byte, rest.head? = some byte → isNamePart byte = false := by
  obtain ⟨byte, tail, rfl, start, parts⟩ := isWord
  refine Spells.of_best? (some _) (List.cons_ne_nil _ _) fun rest ends => ?_
  have members : ∀ other ∈ byte :: tail, isNamePart other = true :=
    List.forall_mem_cons.2 ⟨by simp [isNamePart, start], parts⟩
  have whole := takeWhile_append_of_head members ends
  rw [List.cons_append] at whole ⊢
  rw [best?_word start, whole]

/-- Keywords are words. -/
theorem isWord_keyword (word : Keyword) : IsWord (Text.bytes word.spelling) := by
  have head := head_keyword word (keyword_mem_all _)
  have parts := isNamePart_keyword word (keyword_mem_all _)
  cases shape : Text.bytes word.spelling with
  | nil => simp [shape] at head
  | cons byte rest =>
      rw [shape] at head parts
      exact ⟨byte, rest, rfl, head, fun other member => parts other (List.mem_cons_of_mem _ member)⟩

/-- Every keyword is scanned as itself. -/
theorem spells_keyword (word : Keyword) :
    Spells (Text.bytes word.spelling) [(.keyword word, Text.bytes word.spelling)]
      fun rest => ∀ byte, rest.head? = some byte → isNamePart byte = false := by
  have kind : wordKind (Text.bytes word.spelling) = .keyword word :=
    wordKind_eq_keyword_iff.2 rfl
  exact kind ▸ (isWord_keyword word).spells

/-! ## Numbers -/

/-- Digits, and maybe a point and more digits behind them. -/
def IsDecimal (text : List UInt8) : Prop :=
  ∃ whole tail, text = whole ++ tail ∧ whole ≠ [] ∧ (∀ byte ∈ whole, isDigitByte byte = true) ∧
    (tail = [] ∨ ∃ places, places ≠ [] ∧ (∀ byte ∈ places, isDigitByte byte = true) ∧
      tail = Text.byteOf '.' :: places)

theorem isDigitByte_of_not_isNamePart {byte : UInt8} (outside : isNamePart byte = false) :
    isDigitByte byte = false := by
  rw [isNamePart, Bool.or_eq_false_iff] at outside
  exact outside.2

theorem Apart.head_isDigitByte {rest : List UInt8} (apart : Apart rest) :
    ∀ byte, rest.head? = some byte → isDigitByte byte = false := by
  intro byte head
  obtain ⟨tail, rfl⟩ := List.head?_eq_some_iff.1 head
  exact isDigitByte_of_not_isNamePart (apart byte tail rfl).1

/-- No fraction follows a number that stands apart. -/
theorem Apart.fractionSize {rest : List UInt8} (apart : Apart rest) :
    Lexer.Pattern.fractionSize (Text.byteOf '.') isDigitByte rest = 0 := by
  cases rest with
  | nil => rfl
  | cons byte tail =>
      refine if_neg fun isFraction => ?_
      have noDigit := (apart byte tail rfl).2 isFraction.1
      cases tail with
      | nil => simp at isFraction
      | cons next tail => simp [noDigit next rfl] at isFraction

/-- A decimal is scanned whole as a number. -/
theorem IsDecimal.spells {text : List UInt8} (isDecimal : IsDecimal text) :
    Spells text [(.number, text)] Apart := by
  obtain ⟨whole, tail, rfl, someDigits, digits, isTail⟩ := isDecimal
  refine Spells.of_best? (some _) (by simp [someDigits]) fun rest apart => ?_
  rw [List.append_assoc]
  have positive := List.length_pos_iff.2 someDigits
  -- The digits in front end at the point or at the end, and so does the fraction.
  have leading : (whole ++ (tail ++ rest)).takeWhile isDigitByte = whole := by
    refine takeWhile_append_of_head digits fun byte head => ?_
    rcases isTail with rfl | ⟨places, -, -, rfl⟩
    · exact apart.head_isDigitByte byte head
    · cases head
      decide
  have fraction : Lexer.Pattern.fractionSize (Text.byteOf '.') isDigitByte (tail ++ rest) =
      tail.length := by
    rcases isTail with rfl | ⟨places, somePlaces, areDigits, rfl⟩
    · exact apart.fractionSize
    · have places := takeWhile_append_of_head areDigits apart.head_isDigitByte
      rw [List.cons_append, Lexer.Pattern.fractionSize, places,
        if_pos ⟨rfl, List.length_pos_iff.2 somePlaces⟩, List.length_cons]
  have found : numberRule.pattern.longest? (whole ++ (tail ++ rest)) =
      some (whole ++ tail).length := by
    simp only [numberRule, Lexer.Pattern.decimal]
    rw [leading, if_pos positive, List.drop_left, fraction, List.length_append]
  refine Lexer.best?_of_forall (mem_rules_of_open (by simp [openRules_eq])) found ?_
  intro other member size matched
  obtain ⟨first, others, rfl⟩ := List.exists_cons_of_ne_nil someDigits
  have isDigit := lead_eq_digit_iff.2 (digits first List.mem_cons_self)
  cases fits_of_match member matched with
  | number _ => exact .inl rfl
  | _ => simp_all

/-! ## Quoted texts -/

/-- A text between quotes in which the first quote that no backslash takes with it is the last
byte. -/
theorem spells_text {quote : UInt8} (isQuote : isQuoteByte quote = true) {body : List UInt8}
    (closes : Lexer.Pattern.throughQuote quote (some (Text.byteOf '\\')) (body ++ [quote]) =
      some (body.length + 1)) :
    Spells (quote :: body ++ [quote]) [(.text, quote :: body ++ [quote])] fun _ => True := by
  refine Spells.of_best? (some _) (by simp) fun rest _ => ?_
  have whole := (Lexer.Pattern.throughQuote_stable closes).2 rest
  rw [List.take_of_length_le (by simp)] at whole
  have found : (textRule quote).pattern.longest? (quote :: body ++ [quote] ++ rest) =
      some (quote :: body ++ [quote]).length := by
    refine (if_pos rfl).trans ((congrArg (Option.map (· + 1)) whole).trans ?_)
    simp
  have member : textRule quote ∈ rules := by
    simp only [isQuoteByte, Bool.or_eq_true, beq_iff_eq] at isQuote
    rcases isQuote with rfl | rfl <;> exact mem_rules_of_open (by simp [openRules_eq])
  refine Lexer.best?_of_forall member found ?_
  intro other otherMember size matched
  have isLead := lead_eq_quote_iff.2 isQuote
  cases fits_of_match otherMember matched with
  | text _ => exact .inl rfl
  | _ => simp_all

/-! ## Blanks and marks -/

theorem Spells.nil (Follows : List UInt8 → Prop) : Spells [] [] Follows :=
  fun _ _ => ⟨[], rfl, rfl, by simp⟩

/-- Blanks are skipped together. -/
theorem spells_blanks {blanks : List UInt8} (areBlanks : ∀ byte ∈ blanks, isBlankByte byte = true) :
    Spells blanks [] fun rest => ∀ byte, rest.head? = some byte → isBlankByte byte = false := by
  cases blanks with
  | nil => exact Spells.nil _
  | cons byte blanks =>
      rw [List.forall_mem_cons] at areBlanks
      refine Spells.of_best? none (List.cons_ne_nil _ _) fun rest ends => ?_
      have found : blankRule.pattern.longest? (byte :: blanks ++ rest) =
          some (byte :: blanks).length := by
        simp only [blankRule, Lexer.Pattern.run, List.cons_append]
        rw [if_pos areBlanks.1, takeWhile_append_of_head areBlanks.2 ends, List.length_cons]
      refine Lexer.best?_of_forall (mem_rules_of_open (by simp [openRules_eq])) found ?_
      intro other member size matched
      have isBlank := lead_eq_blank_iff.2 areBlanks.1
      cases fits_of_match member matched with
      | blanks _ => exact .inl rfl
      | _ => simp_all

theorem spells_blank :
    Spells [32] [] fun rest => ∀ byte, rest.head? = some byte → isBlankByte byte = false :=
  spells_blanks (List.forall_mem_singleton.2 rfl)

/-- A byte behind a mark makes something longer of it. -/
def continuesMark (mark : Mark) (byte : UInt8) : Bool :=
  Mark.all.any (fun other => Text.bytes other.spelling == Text.bytes mark.spelling ++ [byte]) ||
    (mark == .slash && (byte == Text.byteOf '/' || byte == Text.byteOf '*')) ||
    (mark == .dot && isDigitByte byte)

/-- Marks have one or two bytes. -/
theorem length_mark : ∀ mark ∈ Mark.all,
    1 ≤ (Text.bytes mark.spelling).length ∧ (Text.bytes mark.spelling).length ≤ 2 := by
  decide +kernel

/-- Marks are told apart by their spelling. -/
theorem mark_spelling_injective : ∀ mark ∈ Mark.all, ∀ other ∈ Mark.all,
    Text.bytes mark.spelling = Text.bytes other.spelling → mark = other := by
  decide +kernel

/-- Two marks begin with a slash. -/
theorem mark_of_head_slash : ∀ mark ∈ Mark.all,
    (Text.bytes mark.spelling).head? = some (Text.byteOf '/') →
      mark = .slash ∨ mark = .slashAssign := by
  decide +kernel

/-- Two marks begin with a dot. -/
theorem mark_of_head_dot : ∀ mark ∈ Mark.all,
    (Text.bytes mark.spelling).head? = some (Text.byteOf '.') → mark = .dot ∨ mark = .dotDot := by
  decide +kernel

/-- Another mark at the same place is shorter, unless the next byte makes something longer. -/
theorem shorter_mark {mark other : Mark} {rest : List UInt8}
    (ends : ∀ byte, rest.head? = some byte → continuesMark mark byte = false)
    (isPrefix : Text.bytes other.spelling <+: Text.bytes mark.spelling ++ rest) :
    other = mark ∨ (Text.bytes other.spelling).length < (Text.bytes mark.spelling).length := by
  rcases Nat.lt_or_ge (Text.bytes other.spelling).length (Text.bytes mark.spelling).length with
    shorter | longer
  · exact .inr shorter
  · obtain ⟨extension, append⟩ := List.prefix_of_prefix_length_le (List.prefix_append _ rest)
      isPrefix longer
    have markLength := length_mark mark (mark_mem_all _)
    have otherLength := length_mark other (mark_mem_all _)
    rw [← append, List.length_append] at otherLength
    match extension with
    | [] =>
        rw [List.append_nil] at append
        exact .inl (mark_spelling_injective _ (mark_mem_all _) _ (mark_mem_all _) append).symm
    | [byte] =>
        rw [← append, List.prefix_append_right_inj] at isPrefix
        obtain ⟨tail, rfl⟩ := isPrefix
        have continues : continuesMark mark byte = true := by
          simp only [continuesMark, Bool.or_eq_true, List.any_eq_true, beq_iff_eq]
          exact .inl (.inl ⟨other, mark_mem_all _, append.symm⟩)
        rw [ends byte rfl] at continues
        cases continues
    | _ :: _ :: _ =>
        simp only [List.length_cons] at otherLength
        omega

/-- No comment begins where something else follows a slash. -/
theorem no_comment {rest : List UInt8}
    (other : ∀ byte, rest.head? = some byte → byte ≠ Text.byteOf '/' ∧ byte ≠ Text.byteOf '*') :
    lineRule.pattern.longest? (Text.byteOf '/' :: rest) = none ∧
      closedRule.pattern.longest? (Text.byteOf '/' :: rest) = none := by
  cases rest with
  | nil => exact ⟨rfl, rfl⟩
  | cons byte tail =>
      obtain ⟨notSlash, notStar⟩ := other byte rfl
      exact ⟨if_neg fun opened => notSlash opened.2, if_neg fun opened => notStar opened.2⟩

/-- No number begins where something else follows a point. -/
theorem no_fraction {rest : List UInt8}
    (other : ∀ byte, rest.head? = some byte → isDigitByte byte = false) :
    fractionRule.pattern.longest? (Text.byteOf '.' :: rest) = none := by
  have none : rest.takeWhile isDigitByte = [] :=
    takeWhile_append_of_head (List.forall_mem_nil _) other
  simp [fractionRule, Lexer.Pattern.fraction, Lexer.Pattern.fractionSize, none]

/-- Behind a slash that ends a mark no comment is opened. -/
theorem not_slash_of_ends {mark : Mark} {rest : List UInt8}
    (ends : ∀ byte, rest.head? = some byte → continuesMark mark byte = false)
    {others : List UInt8} (shape : Text.bytes mark.spelling = Text.byteOf '/' :: others) :
    ∀ byte, (others ++ rest).head? = some byte →
      byte ≠ Text.byteOf '/' ∧ byte ≠ Text.byteOf '*' := by
  have head : (Text.bytes mark.spelling).head? = some (Text.byteOf '/') := by rw [shape]; rfl
  intro byte next
  rcases mark_of_head_slash mark (mark_mem_all _) head with rfl | rfl
  · obtain rfl : [] = others := by simpa using (List.cons_eq_cons.1 shape).2
    have continues := ends byte next
    simp_all [continuesMark]
  · obtain rfl : [61] = others := by simpa using (List.cons_eq_cons.1 shape).2
    cases next
    decide

/-- Behind a dot that ends a mark no fraction begins. -/
theorem not_digit_of_ends {mark : Mark} {rest : List UInt8}
    (ends : ∀ byte, rest.head? = some byte → continuesMark mark byte = false)
    {others : List UInt8} (shape : Text.bytes mark.spelling = Text.byteOf '.' :: others) :
    ∀ byte, (others ++ rest).head? = some byte → isDigitByte byte = false := by
  have head : (Text.bytes mark.spelling).head? = some (Text.byteOf '.') := by rw [shape]; rfl
  intro byte next
  rcases mark_of_head_dot mark (mark_mem_all _) head with rfl | rfl
  · obtain rfl : [] = others := by simpa using (List.cons_eq_cons.1 shape).2
    have continues := ends byte next
    simp_all [continuesMark]
  · obtain rfl : [46] = others := by simpa using (List.cons_eq_cons.1 shape).2
    cases next
    decide

/-- Every mark is scanned as itself where it does not go on. -/
theorem spells_mark (mark : Mark) :
    Spells (Text.bytes mark.spelling) [(.mark mark, Text.bytes mark.spelling)]
      fun rest => ∀ byte, rest.head? = some byte → continuesMark mark byte = false := by
  have isMark := head_mark mark (mark_mem_all _)
  obtain ⟨first, others, shape⟩ : ∃ first others, Text.bytes mark.spelling = first :: others :=
    List.exists_cons_of_length_pos (length_mark mark (mark_mem_all _)).1
  refine Spells.of_best? (some _) (by simp [shape]) fun rest ends => ?_
  have found : (spelled (.mark mark) mark.spelling).pattern.longest?
      (Text.bytes mark.spelling ++ rest) = some (Text.bytes mark.spelling).length :=
    longest?_spelled.2 ⟨List.prefix_append _ _, rfl⟩
  refine Lexer.best?_of_forall (mem_rules_iff.2 (.inr (.inl ⟨mark, rfl⟩))) found ?_
  intro other member size matched
  have isSign : lead first = .sign := by
    rw [shape] at isMark
    exact lead_eq_sign_iff.2 isMark
  have matchedFirst := matched
  rw [shape, List.cons_append] at matchedFirst
  cases fits_of_match member matchedFirst with
  | mark otherMark _ =>
      obtain ⟨isPrefix, rfl⟩ := longest?_spelled.1 matched
      exact (shorter_mark ends isPrefix).imp_left fun same => by rw [same]
  | lineComment _ slash =>
      rw [slash] at shape matchedFirst
      cases (no_comment (not_slash_of_ends ends shape)).1.symm.trans matchedFirst
  | closedComment _ slash =>
      rw [slash] at shape matchedFirst
      cases (no_comment (not_slash_of_ends ends shape)).2.symm.trans matchedFirst
  | fraction _ point =>
      rw [point] at shape matchedFirst
      cases (no_fraction (not_digit_of_ends ends shape)).symm.trans matchedFirst
  | _ => simp_all

/-- Where two bytes are no mark, a mark at the front of a text is a single byte. -/
theorem length_mark_at_front {mark : Mark} {first second : UInt8} {rest : List UInt8}
    (noMark : ∀ other ∈ Mark.all, Text.bytes other.spelling ≠ [first, second])
    (isPrefix : Text.bytes mark.spelling <+: first :: second :: rest) :
    (Text.bytes mark.spelling).length = 1 := by
  obtain ⟨atLeast, atMost⟩ := length_mark mark (mark_mem_all _)
  by_contra notOne
  have two : (Text.bytes mark.spelling).length = 2 := by omega
  apply noMark mark (mark_mem_all _)
  rw [List.prefix_iff_eq_take.1 isPrefix, two]
  rfl

/-- A dot and a digit are no mark. -/
theorem no_mark_of_digit {byte : UInt8} (digit : isDigitByte byte = true) :
    ∀ mark ∈ Mark.all, Text.bytes mark.spelling ≠ [Text.byteOf '.', byte] := by
  have all := forall_byte (p := fun byte => !isDigitByte byte ||
    decide (∀ mark ∈ Mark.all, Text.bytes mark.spelling ≠ [Text.byteOf '.', byte]))
    (by decide +kernel) byte
  rwa [digit, Bool.not_true, Bool.false_or, decide_eq_true_eq] at all

/-- A fraction without an integer part is scanned as a number. -/
theorem spells_fraction {digit : UInt8} {places : List UInt8} (isDigit : isDigitByte digit = true)
    (areDigits : ∀ byte ∈ places, isDigitByte byte = true) :
    Spells (Text.byteOf '.' :: digit :: places) [(.number, Text.byteOf '.' :: digit :: places)]
      Apart := by
  refine Spells.of_best? (some _) (List.cons_ne_nil _ _) fun rest apart => ?_
  have found : fractionRule.pattern.longest? (Text.byteOf '.' :: digit :: places ++ rest) =
      some (Text.byteOf '.' :: digit :: places).length := by
    have digits := takeWhile_append_of_head (List.forall_mem_cons.2 ⟨isDigit, areDigits⟩)
      apart.head_isDigitByte
    simp only [fractionRule, Lexer.Pattern.fraction, Lexer.Pattern.fractionSize, List.cons_append]
    rw [← List.cons_append, digits]
    simp
  refine Lexer.best?_of_forall (mem_rules_of_open (by simp [openRules_eq])) found ?_
  intro other member size matched
  have isSign : lead (Text.byteOf '.') = .sign := by decide +kernel
  have notSlash : Text.byteOf '.' ≠ Text.byteOf '/' := by decide
  have fits := fits_of_match member matched
  generalize Text.byteOf '.' = first at isSign notSlash fits
  cases fits with
  | mark otherMark _ =>
      obtain ⟨isPrefix, rfl⟩ := longest?_spelled.1 matched
      rw [length_mark_at_front (no_mark_of_digit isDigit) isPrefix]
      exact .inr (Nat.succ_lt_succ (Nat.succ_pos _))
  | fraction _ _ => exact .inl rfl
  | _ => simp_all

end Token
end ScopeScript
