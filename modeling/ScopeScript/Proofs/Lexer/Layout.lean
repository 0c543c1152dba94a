import ScopeScript.Proofs.Lexer.Spelling

/-!
# Lexemes and their layout

A text is laid out as lexemes with separators between them: a blank, and then any blanks and
comments. A closed comment ends with the first closing sign, so it may hold rows of stars and
slashes, and a quoted text may hold what opens a comment. Scanning such a text gives back the
lexemes with the places at which they were written, and no diagnostic (`scanWith_text`).
-/

namespace ScopeScript
namespace Token

open Lexer (Piece)

/-! ## Lexemes -/

/-- What stands between quotes: bytes other than the quote and the backslash, and any bytes that
a backslash takes with it. -/
inductive QuotedBody (quote : UInt8) : List UInt8 → Prop
  | nil : QuotedBody quote []
  | plain {byte : UInt8} {rest : List UInt8} : byte ≠ quote → byte ≠ Text.byteOf '\\' →
      QuotedBody quote rest → QuotedBody quote (byte :: rest)
  | escaped (byte : UInt8) {rest : List UInt8} : QuotedBody quote rest →
      QuotedBody quote (Text.byteOf '\\' :: byte :: rest)

/-- How a token of a kind is written. -/
inductive IsLexeme : TokenKind → List UInt8 → Prop
  | mark (mark : Mark) : IsLexeme (.mark mark) (Text.bytes mark.spelling)
  | keyword (word : Keyword) : IsLexeme (.keyword word) (Text.bytes word.spelling)
  | name {text : List UInt8} : IsWord text →
      (∀ word : Keyword, text ≠ Text.bytes word.spelling) → IsLexeme .name text
  | number {text : List UInt8} : IsDecimal text → IsLexeme .number text
  | fraction {digit : UInt8} {places : List UInt8} : isDigitByte digit = true →
      (∀ byte ∈ places, isDigitByte byte = true) →
      IsLexeme .number (Text.byteOf '.' :: digit :: places)
  | text {quote : UInt8} {body : List UInt8} : isQuoteByte quote = true → QuotedBody quote body →
      IsLexeme .text (quote :: body ++ [quote])

/-- A quoted text is closed by its last quote. -/
theorem QuotedBody.closes {quote : UInt8} {body : List UInt8} (isBody : QuotedBody quote body)
    (different : quote ≠ Text.byteOf '\\') :
    Lexer.Pattern.throughQuote quote (some (Text.byteOf '\\')) (body ++ [quote]) =
      some (body.length + 1) := by
  induction isBody with
  | nil => exact Lexer.Pattern.throughQuote_quote _ _ _
  | plain notQuote notEscape _ inductionHypothesis =>
      rw [List.cons_append, Lexer.Pattern.throughQuote_plain notQuote (by simpa using notEscape),
        inductionHypothesis]
      rfl
  | escaped byte _ inductionHypothesis =>
      rw [List.cons_append, List.cons_append,
        Lexer.Pattern.throughQuote_escape different.symm rfl, inductionHypothesis]
      rfl

/-- What is no keyword is a name. -/
theorem wordKind_eq_name {text : List UInt8} (noKeyword : ∀ word : Keyword,
    text ≠ Text.bytes word.spelling) : wordKind text = .name := by
  unfold wordKind
  split
  · rename_i word found
    have same := List.find?_some found
    exact absurd (beq_iff_eq.1 same).symm (noKeyword word)
  · rfl

/-- What follows is a blank or nothing. -/
def BlankFollows (rest : List UInt8) : Prop :=
  ∀ byte, rest.head? = some byte → isBlankByte byte = true

/-- What follows is no blank. -/
def NoBlankFollows (rest : List UInt8) : Prop :=
  ∀ byte, rest.head? = some byte → isBlankByte byte = false

theorem isNamePart_blank {byte : UInt8} (blank : isBlankByte byte = true) :
    isNamePart byte = false ∧ byte ≠ Text.byteOf '.' := by
  have all := forall_byte (p := fun byte => !isBlankByte byte ||
    (!isNamePart byte && byte != Text.byteOf '.')) (by decide +kernel) byte
  simpa [blank] using all

theorem continuesMark_blank (mark : Mark) {byte : UInt8} (blank : isBlankByte byte = true) :
    continuesMark mark byte = false := by
  have all := forall_byte (p := fun byte => !isBlankByte byte ||
    decide (∀ mark ∈ Mark.all, continuesMark mark byte = false)) (by decide +kernel) byte
  rw [blank, Bool.not_true, Bool.false_or, decide_eq_true_eq] at all
  exact all mark (mark_mem_all _)

/-- In front of a blank everything stands apart. -/
theorem BlankFollows.apart {rest : List UInt8} (follows : BlankFollows rest) : Apart rest := by
  cases rest with
  | nil => exact apart_nil
  | cons byte rest =>
      obtain ⟨notPart, notDot⟩ := isNamePart_blank (follows byte rfl)
      exact apart_of_head notPart notDot rest

namespace IsLexeme

variable {kind : TokenKind} {bytes : List UInt8}

/-- A lexeme is scanned as one token if a blank or nothing follows it. -/
theorem spells (isLexeme : IsLexeme kind bytes) : Spells bytes [(kind, bytes)] BlankFollows := by
  cases isLexeme with
  | mark mark =>
      exact (spells_mark mark).mono fun _ follows byte head =>
        continuesMark_blank mark (follows byte head)
  | keyword word => exact (spells_keyword word).mono fun _ follows => follows.apart.not_part
  | name isWord noKeyword =>
      have spelled := isWord.spells.mono fun _ follows => BlankFollows.apart follows |>.not_part
      rwa [wordKind_eq_name noKeyword] at spelled
  | number isDecimal => exact isDecimal.spells.mono fun _ follows => follows.apart
  | fraction isDigit areDigits =>
      exact (spells_fraction isDigit areDigits).mono fun _ follows => follows.apart
  | @text quote body isQuote isBody =>
      have different : quote ≠ Text.byteOf '\\' := by
        rintro rfl
        revert isQuote
        decide
      exact (spells_text isQuote (isBody.closes different)).mono fun _ _ => trivial

/-- A lexeme does not begin with a blank. -/
theorem exists_head (isLexeme : IsLexeme kind bytes) :
    ∃ byte tail, bytes = byte :: tail ∧ isBlankByte byte = false := by
  have noBlank {byte : UInt8} {leading : Lead} (leads : lead byte = leading)
      (notBlank : leading ≠ .blank) : isBlankByte byte = false := by
    rw [← Bool.not_eq_true, ← lead_eq_blank_iff, leads]
    exact notBlank
  have ofWord {bytes : List UInt8} (isWord : IsWord bytes) :
      ∃ byte tail, bytes = byte :: tail ∧ isBlankByte byte = false := by
    obtain ⟨byte, tail, rfl, start, -⟩ := isWord
    exact ⟨byte, tail, rfl, noBlank (lead_eq_word_iff.2 start) nofun⟩
  cases isLexeme with
  | mark mark =>
      have head := head_mark mark (mark_mem_all _)
      cases shape : Text.bytes mark.spelling with
      | nil => simp [shape] at head
      | cons byte tail =>
          rw [shape] at head
          exact ⟨byte, tail, rfl, noBlank (lead_eq_sign_iff.2 head) nofun⟩
  | keyword word => exact ofWord (isWord_keyword word)
  | name isWord _ => exact ofWord isWord
  | number isDecimal =>
      obtain ⟨whole, tail, rfl, someDigits, digits, -⟩ := isDecimal
      obtain ⟨byte, rest, rfl⟩ := List.exists_cons_of_ne_nil someDigits
      have leads := lead_eq_digit_iff.2 (digits byte List.mem_cons_self)
      exact ⟨byte, rest ++ tail, rfl, noBlank leads nofun⟩
  | fraction _ _ => exact ⟨_, _, rfl, by decide⟩
  | text isQuote _ => exact ⟨_, _, rfl, noBlank (lead_eq_quote_iff.2 isQuote) nofun⟩

/-- A lexeme does not begin with a blank. -/
theorem noBlankFollows (isLexeme : IsLexeme kind bytes) (rest : List UInt8) :
    NoBlankFollows (bytes ++ rest) := by
  obtain ⟨first, tail, rfl, noBlank⟩ := isLexeme.exists_head
  rintro _ ⟨⟩
  exact noBlank

end IsLexeme

/-! ## Gaps -/

/-- The bytes that open a closed comment. -/
def commentOpening : List UInt8 := [Text.byteOf '/', Text.byteOf '*']

/-- The bytes that end a closed comment. -/
def commentClosing : List UInt8 := [Text.byteOf '*', Text.byteOf '/']

/-- The bytes that open a comment to the end of the line. -/
def lineOpening : List UInt8 := [Text.byteOf '/', Text.byteOf '/']

/-- Any sequence of blanks, closed comments and comments that end with their line. -/
inductive IsGap : List UInt8 → Prop
  | nil : IsGap []
  | blank {byte : UInt8} {rest : List UInt8} :
      isBlankByte byte = true → IsGap rest → IsGap (byte :: rest)
  | closed {body rest : List UInt8} :
      ¬commentClosing <:+: body → IsGap rest →
      IsGap (commentOpening ++ body ++ commentClosing ++ rest)
  | line {body rest : List UInt8} :
      10 ∉ body → IsGap rest → IsGap (lineOpening ++ body ++ 10 :: rest)

/-- The first closing sign is the one behind a body that holds none, whatever stars it ends with. -/
theorem through_body {body : List UInt8} (holdsNone : ¬commentClosing <:+: body) :
    Lexer.Pattern.through (Text.byteOf '*') (Text.byteOf '/') (body ++ commentClosing) =
      some (body.length + 2) := by
  induction body with
  | nil => rfl
  | cons byte body inductionHypothesis =>
      have isOpen : byte ≠ Text.byteOf '*' ∨
          (body ++ commentClosing).head? ≠ some (Text.byteOf '/') := by
        by_contra closes
        push Not at closes
        obtain ⟨rfl, head⟩ := closes
        cases body with
        | nil => exact absurd head (by decide)
        | cons next body =>
            cases head
            exact holdsNone ⟨[], body, rfl⟩
      have inner := inductionHypothesis fun isInfix => holdsNone (List.infix_cons isInfix)
      rw [List.cons_append, Lexer.Pattern.through_cons isOpen, inner]
      rfl

/-- No mark opens a comment. -/
theorem no_mark_comment : ∀ mark ∈ Mark.all, Text.bytes mark.spelling ≠ commentOpening ∧
    Text.bytes mark.spelling ≠ lineOpening := by
  decide +kernel

/-- Marks and comments begin with a slash. -/
theorem rule_at_slash {rule : Lexer.Rule TokenKind} (member : rule ∈ rules) {rest : List UInt8}
    {size : Nat} (matched : rule.pattern.longest? (Text.byteOf '/' :: rest) = some size) :
    (∃ mark : Mark, rule = spelled (.mark mark) mark.spelling) ∨ rule = lineRule ∨
      rule = closedRule := by
  have isSign : lead (Text.byteOf '/') = .sign := by decide +kernel
  have notPoint : Text.byteOf '/' ≠ Text.byteOf '.' := by decide
  have fits := fits_of_match member matched
  generalize Text.byteOf '/' = first at isSign notPoint fits
  cases fits with
  | mark mark _ => exact .inl ⟨mark, rfl⟩
  | lineComment _ _ => exact .inr (.inl rfl)
  | closedComment _ _ => exact .inr (.inr rfl)
  | fraction _ isPoint => exact absurd isPoint notPoint
  | _ => simp_all

/-- A comment up to its closing sign is skipped. -/
theorem spells_closed {body : List UInt8} (holdsNone : ¬commentClosing <:+: body) :
    Spells (commentOpening ++ body ++ commentClosing) [] fun _ => True := by
  refine Spells.of_best? none (by simp [commentOpening]) fun rest _ => ?_
  have whole := (Lexer.Pattern.through_stable (through_body holdsNone)).2 rest
  rw [List.take_of_length_le (by simp [commentClosing])] at whole
  have found : closedRule.pattern.longest? (commentOpening ++ body ++ commentClosing ++ rest) =
      some (commentOpening ++ body ++ commentClosing).length := by
    have opened : closedRule.pattern.longest? (commentOpening ++ (body ++ commentClosing ++ rest)) =
        (Lexer.Pattern.through (Text.byteOf '*') (Text.byteOf '/')
          (body ++ commentClosing ++ rest)).map (· + 2) := rfl
    rw [List.append_assoc, List.append_assoc, ← List.append_assoc body, opened, whole]
    simp [commentOpening, commentClosing]
  refine Lexer.best?_of_forall (mem_rules_of_open (by simp [openRules_eq])) found ?_
  intro other member size matched
  rcases rule_at_slash member matched with ⟨mark, rfl⟩ | rfl | rfl
  · obtain ⟨isPrefix, rfl⟩ := longest?_spelled.1 matched
    have single := length_mark_at_front (fun mark member => (no_mark_comment mark member).1)
      isPrefix
    refine .inr ?_
    simp [single, commentOpening]
  · cases matched
  · exact .inl rfl

/-- A comment up to the end of its line is skipped. -/
theorem spells_line {body : List UInt8} (oneLine : 10 ∉ body) :
    Spells (lineOpening ++ body) [] fun rest => ∀ byte, rest.head? = some byte → byte = 10 := by
  refine Spells.of_best? none (by simp [lineOpening]) fun rest ends => ?_
  have found : lineRule.pattern.longest? (lineOpening ++ body ++ rest) =
      some (lineOpening ++ body).length := by
    have members : ∀ byte ∈ body, (byte != 10) = true := by
      intro byte member
      rw [bne_iff_ne]
      rintro rfl
      exact oneLine member
    have toBreak : (body ++ rest).takeWhile (· != 10) = body := by
      refine takeWhile_append_of_head members fun byte head => ?_
      rw [ends byte head]
      rfl
    have opened : lineRule.pattern.longest? (lineOpening ++ (body ++ rest)) =
        some (((body ++ rest).takeWhile (· != 10)).length + 0 + 2) := rfl
    rw [List.append_assoc, opened, toBreak]
    simp [lineOpening]
  refine Lexer.best?_of_forall (mem_rules_of_open (by simp [openRules_eq])) found ?_
  intro other member size matched
  rcases rule_at_slash member matched with ⟨mark, rfl⟩ | rfl | rfl
  · obtain ⟨isPrefix, rfl⟩ := longest?_spelled.1 matched
    have single := length_mark_at_front (fun mark member => (no_mark_comment mark member).2)
      isPrefix
    refine .inr ?_
    simp [single, lineOpening]
  · exact .inl rfl
  · cases matched

/-- A gap is passed over if no blank follows it. -/
theorem IsGap.spells {gap : List UInt8} (isGap : IsGap gap) : Spells gap [] NoBlankFollows := by
  -- Blanks are passed over as a whole, so those in front of a gap go along in the induction.
  suffices behind : ∀ blanks : List UInt8, (∀ byte ∈ blanks, isBlankByte byte = true) →
      Spells (blanks ++ gap) [] NoBlankFollows from behind [] (by simp)
  induction isGap with
  | nil =>
      intro blanks areBlanks
      rw [List.append_nil]
      exact spells_blanks areBlanks
  | @blank byte rest isBlank _ inductionHypothesis =>
      intro blanks areBlanks
      have more : ∀ other ∈ blanks ++ [byte], isBlankByte other = true := by
        rw [List.forall_mem_append]
        exact ⟨areBlanks, by simpa using isBlank⟩
      simpa using inductionHypothesis (blanks ++ [byte]) more
  | @closed body rest holdsNone _ inductionHypothesis =>
      intro blanks areBlanks
      have after := (spells_closed holdsNone).append (inductionHypothesis [] (by simp)) (by simp)
      refine (spells_blanks areBlanks).append after fun _ _ => ?_
      rintro _ ⟨⟩
      decide
  | @line body rest oneLine _ inductionHypothesis =>
      intro blanks areBlanks
      have after := (spells_line oneLine).append
        (inductionHypothesis [10] (List.forall_mem_singleton.2 rfl)) (by simp)
      refine (spells_blanks areBlanks).append after fun _ _ => ?_
      rintro _ ⟨⟩
      decide

/-! ## Layouts -/

/-- A kind of token with bytes that are written for it. -/
structure Lexeme where
  kind : TokenKind
  bytes : List UInt8
  isLexeme : IsLexeme kind bytes

/-- Blanks and comments. -/
structure Gap where
  bytes : List UInt8
  isGap : IsGap bytes

/-- A blank and then any gap. -/
structure Separator where
  blank : UInt8
  isBlank : isBlankByte blank = true
  gap : Gap

/-- The bytes of a separator. -/
def Separator.bytes (separator : Separator) : List UInt8 :=
  separator.blank :: separator.gap.bytes

/-- Lexemes with a separator behind each, and maybe a last one with nothing behind it. -/
structure Layout where
  opening : Gap
  items : List (Lexeme × Separator)
  last? : Option Lexeme

namespace Layout

/-- The lexemes that are laid out. -/
def lexemes (layout : Layout) : List (TokenKind × List UInt8) :=
  (layout.items.map Prod.fst ++ layout.last?.toList).map fun lexeme => (lexeme.kind, lexeme.bytes)

/-- The bytes of separated lexemes. -/
def itemsText : List (Lexeme × Separator) → Option Lexeme → List UInt8
  | [], last? => (last?.map Lexeme.bytes).getD []
  | (lexeme, separator) :: items, last? =>
      lexeme.bytes ++ (separator.bytes ++ itemsText items last?)

/-- The written text. -/
def text (layout : Layout) : List UInt8 :=
  layout.opening.bytes ++ itemsText layout.items layout.last?

/-- The token that a lexeme makes at an offset. -/
def placed (offset : Nat) (lexeme : Lexeme) : Token :=
  ⟨lexeme.kind, lexeme.bytes, spanAt offset lexeme.bytes.length⟩

/-- The tokens of separated lexemes, from an offset on. -/
def itemTokens : Nat → List (Lexeme × Separator) → Option Lexeme → List Token
  | offset, [], last? => (last?.map (placed offset)).toList
  | offset, (lexeme, separator) :: items, last? =>
      placed offset lexeme ::
        itemTokens (offset + lexeme.bytes.length + separator.bytes.length) items last?

/-- The tokens of a layout: each lexeme where it was written. -/
def tokens (layout : Layout) : List Token :=
  itemTokens layout.opening.bytes.length layout.items layout.last?

end Layout

/-- Pieces that follow are placed behind those in front. -/
theorem located_append (offset : Nat) (pieces others : List (Piece TokenKind)) :
    located offset (pieces ++ others) =
      located offset pieces ++ located (offset + covered pieces) others := by
  induction pieces generalizing offset with
  | nil => rfl
  | cons piece pieces inductionHypothesis =>
      rw [covered_cons, ← Nat.add_assoc]
      cases piece with
      | token kind bytes => exact congrArg (List.cons _) (inductionHypothesis _)
      | skipped bytes => exact inductionHypothesis _
      | unrecognised bytes => exact inductionHypothesis _

/-- From an offset on, an input is scanned into tokens and nothing is unrecognised. -/
def Scans (offset : Nat) (input : List UInt8) (tokens : List Token) : Prop :=
  located offset (Lexer.pieces rules input) = tokens ∧
    ∀ bytes, Piece.unrecognised bytes ∉ Lexer.pieces rules input

theorem Scans.nil (offset : Nat) : Scans offset [] [] := by
  simp [Scans, Lexer.pieces, located]

/-- What scans a whole text is the result of scanning it. -/
theorem Scans.scanWith {input : List UInt8} {tokens : List Token} (scanned : Scans 0 input tokens) :
    Token.scanWith rules input = ⟨tokens, none⟩ := by
  have noFault : firstUnrecognised? 0 (Lexer.pieces rules input) = none :=
    firstUnrecognised?_eq_none_iff.2 scanned.2
  rw [Token.scanWith]
  simp only [noFault]
  exact congrArg (Scan.mk · none) scanned.1

namespace Spells

variable {text rest : List UInt8} {words : List (TokenKind × List UInt8)}
  {Follows : List UInt8 → Prop} {offset : Nat} {tokens : List Token}

/-- The tokens of a spelled text come in front of those of what follows it. -/
theorem scans (spells : Spells text words Follows) (allowed : Follows rest)
    (scanned : Scans (offset + text.length) rest tokens) :
    ∃ front, covered front = text.length ∧ front.filterMap pieceWord? = words ∧
      Scans offset (text ++ rest) (located offset front ++ tokens) := by
  obtain ⟨front, cut, spelled, recognised⟩ := spells rest allowed
  have joined := Lexer.flatMap_bytes_pieces rules (text ++ rest)
  rw [cut, List.flatMap_append, Lexer.flatMap_bytes_pieces, List.append_cancel_right_eq] at joined
  have length : covered front = text.length := congrArg List.length joined
  refine ⟨front, length, spelled, ?_, fun bytes member => ?_⟩
  · rw [cut, located_append, length, scanned.1]
  · rw [cut] at member
    exact (List.mem_append.1 member).elim (recognised bytes) (scanned.2 bytes)

/-- A gap has no tokens. -/
theorem scans_gap (spells : Spells text [] Follows) (allowed : Follows rest)
    (scanned : Scans (offset + text.length) rest tokens) : Scans offset (text ++ rest) tokens := by
  obtain ⟨front, -, spelled, whole⟩ := spells.scans allowed scanned
  have nothing : located offset front = [] := by
    rw [← List.map_eq_nil_iff, located_word, spelled]
  rwa [nothing] at whole

/-- A lexeme is the token at its place. -/
theorem scans_token {kind : TokenKind} (spells : Spells text [(kind, text)] Follows)
    (allowed : Follows rest) (scanned : Scans (offset + text.length) rest tokens) :
    Scans offset (text ++ rest) (⟨kind, text, spanAt offset text.length⟩ :: tokens) := by
  obtain ⟨front, length, spelled, whole⟩ := spells.scans allowed scanned
  have single : (located offset front).map word = [(kind, text)] := by
    rw [located_word, spelled]
  obtain ⟨token, isSingle, isWord⟩ := List.map_eq_singleton_iff.1 single
  obtain ⟨rfl, rfl⟩ := Prod.mk.inj isWord
  obtain ⟨before, after, split, span⟩ :=
    exists_of_mem_located (isSingle ▸ List.mem_singleton_self token)
  -- The lexeme is as long as all that was cut off, so nothing stands in front of it.
  have nothing : covered before = 0 := by
    rw [split, covered_append, covered_cons] at length
    simp only [Piece.bytes] at length
    omega
  rw [isSingle] at whole
  rw [nothing, Nat.add_zero] at span
  rwa [← span]

end Spells

namespace Layout

theorem noBlankFollows_itemsText (items : List (Lexeme × Separator)) (last? : Option Lexeme) :
    NoBlankFollows (itemsText items last?) := by
  cases items with
  | nil =>
      cases last? with
      | none => rintro byte ⟨⟩
      | some lexeme => simpa [itemsText] using lexeme.isLexeme.noBlankFollows []
  | cons item items => exact item.1.isLexeme.noBlankFollows _

/-- Lexemes and what separates them are scanned as the lexemes. -/
theorem scans_items (offset : Nat) (items : List (Lexeme × Separator)) (last? : Option Lexeme) :
    Scans offset (itemsText items last?) (itemTokens offset items last?) := by
  induction items generalizing offset with
  | nil =>
      cases last? with
      | none => exact .nil offset
      | some lexeme =>
          have scanned : Scans offset (lexeme.bytes ++ []) [placed offset lexeme] :=
            lexeme.isLexeme.spells.scans_token (by rintro byte ⟨⟩) (.nil _)
          rwa [List.append_nil] at scanned
  | cons item items inductionHypothesis =>
      obtain ⟨lexeme, separator⟩ := item
      refine lexeme.isLexeme.spells.scans_token ?_ ?_
      · rintro _ ⟨⟩
        exact separator.isBlank
      · have isGap : IsGap separator.bytes := .blank separator.isBlank separator.gap.isGap
        exact isGap.spells.scans_gap (noBlankFollows_itemsText items last?) (inductionHypothesis _)

/-- The tokens of a layout have its lexemes as their words. -/
theorem itemTokens_word (offset : Nat) (items : List (Lexeme × Separator)) (last? : Option Lexeme) :
    (itemTokens offset items last?).map word =
      (items.map Prod.fst ++ last?.toList).map fun lexeme => (lexeme.kind, lexeme.bytes) := by
  induction items generalizing offset with
  | nil => cases last? <;> rfl
  | cons item items inductionHypothesis =>
      exact congrArg (List.cons _) (inductionHypothesis _)

theorem tokens_word (layout : Layout) : layout.tokens.map word = layout.lexemes :=
  itemTokens_word _ _ _

/-- Lexemes that are laid out are read back where they were written. -/
theorem scanWith_text (layout : Layout) :
    scanWith rules layout.text = ⟨layout.tokens, none⟩ := by
  have items := scans_items (0 + layout.opening.bytes.length) layout.items layout.last?
  have scanned := layout.opening.isGap.spells.scans_gap (noBlankFollows_itemsText _ _) items
  rw [Nat.zero_add] at scanned
  exact scanned.scanWith

end Layout

end Token
end ScopeScript
