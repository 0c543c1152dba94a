import ScopeScript.Proofs.Parser.Offset
import ScopeScript.Proofs.Parser.Precedence
import ScopeScript.Proofs.Parser.Provenance
import ScopeScript.Proofs.Text.Unquoting

/-!
# The words of rendered forms

A rendered form is put together from texts that are scanned into some words, begin with an operand
and end where something goes on neither with a word nor with a number (`Worded`). For every kind of
node, the text around the parts keeps their words apart: no two of them that come next to each other
begin something longer.
-/

namespace ScopeScript

namespace Token

/-- A byte that begins an operand. -/
def isOpening (byte : UInt8) : Bool :=
  isNameStart byte || isDigitByte byte || byte == Text.byteOf '"' || byte == Text.byteOf '(' ||
    byte == Text.byteOf '['

/-- What follows begins with an operand. -/
def Opens (rest : List UInt8) : Prop :=
  ∃ byte tail, rest = byte :: tail ∧ isOpening byte = true

/-- What begins with an operand does so whatever follows. -/
theorem Opens.append {text : List UInt8} (opens : Opens text) (rest : List UInt8) :
    Opens (text ++ rest) := by
  obtain ⟨byte, tail, rfl, opening⟩ := opens
  exact ⟨byte, tail ++ rest, rfl, opening⟩

/-- A byte goes on with a mark if it makes a longer mark, a comment or a number of it. -/
theorem exists_of_continuesMark {mark : Mark} {byte : UInt8}
    (continues : continuesMark mark byte = true) :
    (∃ other : Mark, Text.bytes other.spelling = Text.bytes mark.spelling ++ [byte]) ∨
      (mark = .slash ∧ (byte = Text.byteOf '/' ∨ byte = Text.byteOf '*')) ∨
      mark = .dot ∧ isDigitByte byte = true := by
  simp only [continuesMark, Bool.or_eq_true, Bool.and_eq_true, List.any_eq_true,
    beq_iff_eq] at continues
  rcases continues with (⟨other, -, longer⟩ | slash) | dot
  · exact .inl ⟨other, longer⟩
  · exact .inr (.inl slash)
  · exact .inr (.inr dot)

/-- Behind its first byte no mark contains the first byte of an operand. -/
theorem isOpening_tail : ∀ mark ∈ Mark.all, ∀ byte ∈ (Text.bytes mark.spelling).tail,
    isOpening byte = false := by
  decide +kernel

/-- No mark but the dot goes on with an operand. -/
theorem continuesMark_of_opens {mark : Mark} (notDot : mark ≠ .dot) {rest : List UInt8}
    (opens : Opens rest) : ∀ byte, rest.head? = some byte → continuesMark mark byte = false := by
  rintro byte head
  obtain ⟨_, tail, rfl, opening⟩ := opens
  cases head
  refine Bool.eq_false_iff.2 fun continues => ?_
  rcases exists_of_continuesMark continues with ⟨other, longer⟩ | ⟨-, rfl | rfl⟩ | ⟨isDot, -⟩
  · obtain ⟨first, others, shape⟩ :=
      List.exists_cons_of_length_pos (length_mark mark (mark_mem_all _)).1
    have inside : byte ∈ (Text.bytes other.spelling).tail := by simp [longer, shape]
    have closed := isOpening_tail other (mark_mem_all _) byte inside
    rw [opening] at closed
    cases closed
  · revert opening
    decide
  · revert opening
    decide
  · exact notDot isDot

/-- Marks that are complete whatever follows. -/
def completeMarks : List Mark :=
  [.leftParen, .rightParen, .leftBracket, .rightBracket, .comma, .question]

/-- No mark begins with a complete one. -/
theorem eq_of_prefix_complete : ∀ mark ∈ completeMarks, ∀ other ∈ Mark.all,
    Text.bytes mark.spelling <+: Text.bytes other.spelling → other = mark := by
  decide

/-- So a complete mark is scanned whatever follows. -/
theorem spells_complete (mark : Mark) (complete : mark ∈ completeMarks) :
    Spells (Text.bytes mark.spelling) [(.mark mark, Text.bytes mark.spelling)] fun _ => True := by
  refine (spells_mark mark).mono fun rest _ byte _ => Bool.eq_false_iff.2 fun continues => ?_
  rcases exists_of_continuesMark continues with ⟨other, longer⟩ | ⟨rfl, -⟩ | ⟨rfl, -⟩
  · obtain rfl := eq_of_prefix_complete mark complete other (mark_mem_all _)
      (longer ▸ List.prefix_append _ _)
    simpa using congrArg List.length longer
  · revert complete
    decide
  · revert complete
    decide

theorem isOpening_of_isNameStart {byte : UInt8} (start : isNameStart byte = true) :
    isOpening byte = true := by
  simp [isOpening, start]

theorem isBlankByte_of_isOpening {byte : UInt8} (opening : isOpening byte = true) :
    isBlankByte byte = false := by
  have all := forall_byte (p := fun byte => !isOpening byte || !isBlankByte byte)
    (by decide +kernel) byte
  simpa [opening] using all

/-- An operand does not begin with a blank. -/
theorem not_blank_of_opens {rest : List UInt8} (opens : Opens rest) :
    ∀ byte, rest.head? = some byte → isBlankByte byte = false := by
  rintro byte head
  obtain ⟨_, tail, rfl, opening⟩ := opens
  cases head
  exact isBlankByte_of_isOpening opening

/-- A blank in front of an operand. -/
theorem spells_gap : Spells [32] [] Opens :=
  spells_blank.mono fun _ opens => not_blank_of_opens opens

/-- A word or mark between two blanks and in front of an operand. -/
theorem Spells.spaced {text : List UInt8} {words : List (TokenKind × List UInt8)}
    {Follows : List UInt8 → Prop} (spells : Spells text words Follows)
    (first : text.head?.any (!isBlankByte ·) = true) (ends : ∀ rest, Follows (32 :: rest)) :
    Spells ([32] ++ text ++ [32]) words Opens := by
  have front : Spells ([32] ++ text) words Follows := by
    refine spells_blank.append spells fun rest _ byte head => ?_
    cases text with
    | nil => cases first
    | cons other tail =>
        cases head
        simpa using first
  have whole := front.append spells_gap fun rest _ => ends rest
  rwa [List.append_nil] at whole

end Token

/-! ## Operators -/

open Token

namespace BinaryOperator

/-- An operator is written as a mark or as a word between blanks. -/
theorem symbol_cases (operator : BinaryOperator) :
    (∃ mark : Mark, mark ≠ .dot ∧ operator.sign = .mark mark ∧
      operator.symbol = mark.spelling) ∨
      ∃ word : Keyword, operator.sign = .keyword word ∧
        operator.symbol = " " ++ word.spelling ++ " " := by
  cases operator <;>
    first
    | exact .inl ⟨_, by decide, rfl, rfl⟩
    | exact .inr ⟨_, rfl, by decide⟩

/-- Every binary operator is scanned as its sign in front of an operand. -/
theorem spells (operator : BinaryOperator) :
    ∃ lexeme, Spells (Text.bytes operator.symbol) [(operator.sign, lexeme)] Opens := by
  rcases operator.symbol_cases with ⟨mark, notDot, sign, symbol⟩ | ⟨word, sign, symbol⟩
  · rw [sign, symbol]
    exact ⟨_, (spells_mark mark).mono fun _ opens => continuesMark_of_opens notDot opens⟩
  · rw [sign, symbol, Text.bytes_append, Text.bytes_append]
    refine ⟨_, (spells_keyword word).spaced ?_ fun rest byte head => ?_⟩
    · obtain ⟨byte, tail, shape, start, -⟩ := isWord_keyword word
      simp [shape, isBlankByte_of_isOpening (isOpening_of_isNameStart start)]
    · cases head
      decide

/-- An operator goes on neither with a word nor with a number. -/
theorem apart (operator : BinaryOperator) (rest : List UInt8) :
    Apart (Text.bytes operator.symbol ++ rest) := by
  by_cases isRange : operator = .range
  · subst isRange
    rintro _ _ ⟨⟩
    refine ⟨by decide, fun _ next head => ?_⟩
    cases head
    decide
  · have head : (Text.bytes operator.symbol).head?.any
        (fun byte => !isNamePart byte && byte != Text.byteOf '.') = true := by
      cases operator <;> first | exact absurd rfl isRange | decide
    cases shape : Text.bytes operator.symbol with
    | nil => simp [shape] at head
    | cons byte tail =>
        simp only [shape, List.head?_cons, Option.any_some, Bool.and_eq_true, Bool.not_eq_true',
          bne_iff_ne] at head
        exact apart_of_head head.1 head.2 _

end BinaryOperator

/-- Every operator in front of an operand is written by a mark. -/
theorem UnaryOperator.symbol_eq (operator : UnaryOperator) :
    ∃ mark : Mark, mark ≠ .dot ∧ operator.sign = .mark mark ∧
      operator.symbol = mark.spelling := by
  cases operator <;> exact ⟨_, by decide, rfl, rfl⟩

/-- So it is scanned as its sign in front of an operand. -/
theorem UnaryOperator.spells (operator : UnaryOperator) :
    ∃ lexeme, Spells (Text.bytes operator.symbol) [(operator.sign, lexeme)] Opens := by
  obtain ⟨mark, notDot, sign, symbol⟩ := operator.symbol_eq
  rw [sign, symbol]
  exact ⟨_, (spells_mark mark).mono fun _ opens => continuesMark_of_opens notDot opens⟩

/-! ## Parts of a rendered form -/

namespace Token

/-- A word begins an operand. -/
theorem opens_of_isWord {text : List UInt8} (isWord : IsWord text) : Opens text := by
  obtain ⟨byte, rest, rfl, start, -⟩ := isWord
  exact ⟨byte, rest, rfl, isOpening_of_isNameStart start⟩

/-- A closing mark goes on with no word and no number. -/
theorem apart_right (mark : Mark) (closing : mark = .rightParen ∨ mark = .rightBracket)
    (rest : List UInt8) : Apart (Text.bytes mark.spelling ++ rest) := by
  rcases closing with rfl | rfl
  · exact apart_of_head (by decide) (by decide) _
  · exact apart_of_head (by decide) (by decide) _

/-- The marks of a conditional stand between blanks. -/
theorem spells_spaced_mark {mark : Mark} {symbol : String}
    (spaced : symbol = " " ++ mark.spelling ++ " ") (ends : continuesMark mark 32 = false)
    (first : (Text.bytes mark.spelling).head?.any (!isBlankByte ·) = true) :
    Spells (Text.bytes symbol) [(.mark mark, Text.bytes mark.spelling)] Opens := by
  rw [spaced, Text.bytes_append, Text.bytes_append]
  refine (spells_mark mark).spaced first fun rest byte head => ?_
  cases head
  exact ends

/-- A dot and a word behind an object. -/
theorem spells_member {label : String} (isWord : IsWord (Text.bytes label)) :
    Spells (Text.bytes "." ++ Text.bytes label)
        [(.mark .dot, Text.bytes "."), (wordKind (Text.bytes label), Text.bytes label)]
        (fun rest => ∀ byte, rest.head? = some byte → isNamePart byte = false) ∧
      ∀ rest, Apart (Text.bytes "." ++ Text.bytes label ++ rest) := by
  have spells := isWord.spells
  obtain ⟨byte, tail, shape, start, -⟩ := isWord
  have all := forall_byte (p := fun byte => !isNameStart byte ||
    (!continuesMark .dot byte && !isDigitByte byte)) (by decide +kernel) byte
  have separate : continuesMark .dot byte = false ∧ isDigitByte byte = false := by
    simpa [start] using all
  constructor
  · refine (spells_mark .dot).append spells fun rest _ other head => ?_
    rw [shape] at head
    cases head
    exact separate.1
  · rintro rest _ _ ⟨⟩
    refine ⟨by decide, fun _ next head => ?_⟩
    rw [shape] at head
    cases head
    exact separate.2

/-- Words between two marks. -/
def between (left right : Mark) (words : List (TokenKind × List UInt8)) :
    List (TokenKind × List UInt8) :=
  [(.mark left, Text.bytes left.spelling)] ++ words ++ [(.mark right, Text.bytes right.spelling)]

/-- Complete marks may be put around a text. -/
theorem Spells.between {text : List UInt8} {words : List (TokenKind × List UInt8)}
    {Follows : List UInt8 → Prop} (spells : Spells text words Follows) (left right : Mark)
    (leftComplete : left ∈ completeMarks) (rightComplete : right ∈ completeMarks)
    (closes : ∀ rest, Follows (Text.bytes right.spelling ++ rest)) :
    Spells (Text.bytes left.spelling ++ text ++ Text.bytes right.spelling)
      (between left right words) fun _ => True :=
  ((spells_complete left leftComplete).append spells fun _ _ => trivial).append
    (spells_complete right rightComplete) fun rest _ => closes rest

/-- A text that is scanned into some words and begins with an operand. -/
structure Worded (text : List UInt8) (words : List (TokenKind × List UInt8)) : Prop where
  spells : Spells text words Apart
  opens : Opens text

namespace Worded

variable {text : List UInt8} {words : List (TokenKind × List UInt8)}

/-- A keyword is scanned as one word. -/
theorem keyword (word : Keyword) :
    Worded (Text.bytes word.spelling) [(.keyword word, Text.bytes word.spelling)] :=
  ⟨(spells_keyword word).mono fun _ => Apart.not_part, opens_of_isWord (isWord_keyword word)⟩

/-- Parentheses make any text an operand that nothing goes on with. -/
theorem parenthesised {Follows : List UInt8 → Prop} (spells : Spells text words Follows)
    (closes : ∀ rest, Follows (Text.bytes ")" ++ rest)) :
    Worded (Text.bytes "(" ++ text ++ Text.bytes ")")
      (between .leftParen .rightParen words) := by
  have enclosed := spells.between .leftParen .rightParen (by decide) (by decide) closes
  refine ⟨enclosed.mono fun _ _ => trivial, ?_⟩
  rw [List.append_assoc]
  exact Opens.append ⟨_, _, rfl, by decide⟩ _

/-- Arguments in parentheses behind a name. -/
theorem called {name : List UInt8} {nameWords : List (TokenKind × List UInt8)}
    (spells : Spells name nameWords fun rest => ∀ byte, rest.head? = some byte →
      isNamePart byte = false)
    (opens : Opens name) (arguments : Spells text words Apart) :
    Worded (name ++ (Text.bytes "(" ++ text ++ Text.bytes ")"))
      (nameWords ++ between .leftParen .rightParen words) := by
  have enclosed := arguments.between .leftParen .rightParen (by decide) (by decide)
    (apart_right .rightParen (.inl rfl))
  refine ⟨?_, opens.append _⟩
  refine (spells.append enclosed fun rest _ byte head => ?_).mono fun _ _ => trivial
  cases head
  decide

/-- A keyword and a blank in front of a part. -/
theorem behind (word : Keyword) (worded : Worded text words) :
    Worded (Text.bytes word.spelling ++ [32] ++ text)
      ((.keyword word, Text.bytes word.spelling) :: words) := by
  have front := (spells_keyword word).append spells_gap fun rest _ byte head => by
    cases head
    decide
  refine ⟨front.append worded.spells fun rest _ => worded.opens.append rest, ?_⟩
  rw [List.append_assoc]
  exact (opens_of_isWord (isWord_keyword word)).append _

end Worded
end Token

/-! ## Rendered forms -/

namespace Expr

/-- The rendered forms of some expressions with commas between them are scanned into some words. -/
structure WordedAll (items : List Expr) (words : List (TokenKind × List UInt8)) : Prop where
  spells : Spells (Text.bytes (", ".intercalate (renderAll items))) words Apart
  opens : items ≠ [] → Opens (Text.bytes (", ".intercalate (renderAll items)))

variable {words objectWords : List (TokenKind × List UInt8)}

/-- A decimal is scanned as a number. -/
theorem worded_number {value : Float} (isDecimal : IsDecimal (Text.bytes (Decimal.format value))) :
    Worded (Text.bytes (Decimal.format value))
      [(.number, Text.bytes (Decimal.format value))] := by
  refine ⟨isDecimal.spells, ?_⟩
  obtain ⟨whole, tail, shape, someDigits, digits, -⟩ := isDecimal
  obtain ⟨first, others, rfl⟩ := List.exists_cons_of_ne_nil someDigits
  refine ⟨first, others ++ tail, shape, ?_⟩
  simp [isOpening, digits first List.mem_cons_self]

/-- A quoted text is scanned as a text. -/
theorem worded_text (value : String) :
    Worded (Text.bytes (Text.quoted value)) [(.text, Text.bytes (Text.quoted value))] :=
  ⟨(Text.spells_quoted value).mono fun _ _ => trivial, _, _, Text.bytes_quoted value, by decide⟩

/-- A name is scanned as one word where no part of a name follows. -/
theorem spells_name {label : String} (isName : IsName (Text.bytes label)) :
    Spells (Text.bytes label) [(.name, Text.bytes label)]
      fun rest => ∀ byte, rest.head? = some byte → isNamePart byte = false :=
  isName.2 ▸ isName.1.spells

theorem worded_name {label : String} (isName : IsName (Text.bytes label)) :
    Worded (Text.bytes label) [(.name, Text.bytes label)] :=
  ⟨(spells_name isName).mono fun _ => Apart.not_part, opens_of_isWord isName.1⟩

/-- Two operands and their operator, in parentheses. -/
theorem worded_binary {span : Span} {left right : Expr}
    {leftWords rightWords : List (TokenKind × List UInt8)} (operator : BinaryOperator)
    (leftWorded : Worded (Text.bytes left.render) leftWords)
    (rightWorded : Worded (Text.bytes right.render) rightWords) :
    ∃ lexeme, Worded (Text.bytes (binary span left operator right).render)
      (between .leftParen .rightParen (leftWords ++ [(operator.sign, lexeme)] ++ rightWords)) := by
  have render : Text.bytes (binary span left operator right).render = Text.bytes "(" ++
      (Text.bytes left.render ++ Text.bytes operator.symbol ++ Text.bytes right.render) ++
        Text.bytes ")" := by
    simp only [render, Text.bytes_append, List.append_assoc]
  obtain ⟨lexeme, sign⟩ := operator.spells
  have front := leftWorded.spells.append sign fun rest _ => operator.apart rest
  have whole := front.append rightWorded.spells fun rest _ => rightWorded.opens.append rest
  exact ⟨lexeme, render ▸ .parenthesised whole (apart_right .rightParen (.inl rfl))⟩

theorem worded_unary {span : Span} {operand : Expr} (operator : UnaryOperator)
    (worded : Worded (Text.bytes operand.render) words) :
    ∃ lexeme, Worded (Text.bytes (unary span operator operand).render)
      (between .leftParen .rightParen ((operator.sign, lexeme) :: words)) := by
  have render : Text.bytes (unary span operator operand).render = Text.bytes "(" ++
      (Text.bytes operator.symbol ++ Text.bytes operand.render) ++ Text.bytes ")" := by
    simp only [render, Text.bytes_append, List.append_assoc]
  obtain ⟨lexeme, sign⟩ := operator.spells
  have whole := sign.append worded.spells fun rest _ => worded.opens.append rest
  exact ⟨lexeme, render ▸ .parenthesised whole (apart_right .rightParen (.inl rfl))⟩

/-- A condition, in parentheses. -/
theorem worded_conditional {span : Span} {test consequent alternate : Expr}
    {testWords consequentWords alternateWords : List (TokenKind × List UInt8)}
    (testWorded : Worded (Text.bytes test.render) testWords)
    (consequentWorded : Worded (Text.bytes consequent.render) consequentWords)
    (alternateWorded : Worded (Text.bytes alternate.render) alternateWords) :
    Worded (Text.bytes (conditional span test consequent alternate).render)
      (between .leftParen .rightParen
        (testWords ++ [(.mark .question, Text.bytes Mark.question.spelling)] ++ consequentWords ++
          [(.mark .colon, Text.bytes Mark.colon.spelling)] ++ alternateWords)) := by
  have render : Text.bytes (conditional span test consequent alternate).render = Text.bytes "(" ++
      (Text.bytes test.render ++ Text.bytes " ? " ++ Text.bytes consequent.render ++
        Text.bytes " : " ++ Text.bytes alternate.render) ++ Text.bytes ")" := by
    simp only [render, Text.bytes_append, List.append_assoc]
  have question : Spells (Text.bytes " ? ")
      [(.mark .question, Text.bytes Mark.question.spelling)] Opens :=
    spells_spaced_mark (by decide) (by decide) (by decide)
  have colon : Spells (Text.bytes " : ")
      [(.mark .colon, Text.bytes Mark.colon.spelling)] Opens :=
    spells_spaced_mark (by decide) (by decide) (by decide)
  have apart (mark rest : List UInt8) : Apart (Text.bytes " " ++ mark ++ rest) :=
    apart_of_head (by decide) (by decide) _
  have asked := testWorded.spells.append question fun rest _ => apart (Text.bytes "? ") rest
  have chosen := asked.append consequentWorded.spells fun rest _ =>
    consequentWorded.opens.append rest
  have otherwise := chosen.append colon fun rest _ => apart (Text.bytes ": ") rest
  have whole := otherwise.append alternateWorded.spells fun rest _ =>
    alternateWorded.opens.append rest
  exact render ▸ .parenthesised whole (apart_right .rightParen (.inl rfl))

/-- A sequence, in brackets. -/
theorem worded_sequence {span : Span} {items : List Expr} (worded : WordedAll items words) :
    Worded (Text.bytes (sequence span items).render)
      (between .leftBracket .rightBracket words) := by
  have spells := worded.spells.between .leftBracket .rightBracket (by decide) (by decide)
    (apart_right .rightBracket (.inr rfl))
  have render : Text.bytes (sequence span items).render = Text.bytes "[" ++
      Text.bytes (", ".intercalate (renderAll items)) ++ Text.bytes "]" := by
    simp only [render, Text.bytes_append]
  refine ⟨render ▸ spells.mono fun _ _ => trivial, ?_⟩
  rw [render, List.append_assoc]
  exact Opens.append ⟨_, _, rfl, by decide⟩ _

/-- A call: no other word goes on with its name in front of the parenthesis. -/
theorem worded_call {span argumentsSpan : Span} {callee : String} {arguments : List Expr}
    (isName : IsName (Text.bytes callee)) (worded : WordedAll arguments words) :
    Worded (Text.bytes (call span callee argumentsSpan arguments).render)
      ((.name, Text.bytes callee) :: between .leftParen .rightParen words) := by
  have render : Text.bytes (call span callee argumentsSpan arguments).render =
      Text.bytes callee ++ (Text.bytes "(" ++
        Text.bytes (", ".intercalate (renderAll arguments)) ++ Text.bytes ")") := by
    simp only [render, Text.bytes_append, List.append_assoc]
  exact render ▸ .called (spells_name isName) (opens_of_isWord isName.1) worded.spells

/-- An object with a dot and a word behind it. -/
theorem spells_object {object : Expr} {label : String}
    (worded : Worded (Text.bytes object.render) objectWords) (isWord : IsWord (Text.bytes label)) :
    Spells (Text.bytes object.render ++ (Text.bytes "." ++ Text.bytes label))
        (objectWords ++ [(.mark .dot, Text.bytes Mark.dot.spelling),
          (wordKind (Text.bytes label), Text.bytes label)])
        (fun rest => ∀ byte, rest.head? = some byte → isNamePart byte = false) ∧
      Opens (Text.bytes object.render ++ (Text.bytes "." ++ Text.bytes label)) := by
  obtain ⟨spells, apart⟩ := spells_member isWord
  exact ⟨worded.spells.append spells fun rest _ => apart rest, worded.opens.append _⟩

/-- A member: the dot stands directly between the object and the name. -/
theorem worded_member {span nameSpan : Span} {object : Expr} {label : String}
    (worded : Worded (Text.bytes object.render) objectWords) (isWord : IsWord (Text.bytes label)) :
    Worded (Text.bytes (member span object nameSpan label).render)
      (objectWords ++ [(.mark .dot, Text.bytes Mark.dot.spelling),
        (wordKind (Text.bytes label), Text.bytes label)]) := by
  have render : Text.bytes (member span object nameSpan label).render =
      Text.bytes object.render ++ (Text.bytes "." ++ Text.bytes label) := by
    simp only [render, Text.bytes_append, List.append_assoc]
  obtain ⟨spells, opens⟩ := spells_object worded isWord
  exact render ▸ ⟨spells.mono fun _ => Apart.not_part, opens⟩

/-- A call of a member. -/
theorem worded_method {span callSpan argumentsSpan : Span} {object : Expr} {callee : String}
    {arguments : List Expr} (objectWorded : Worded (Text.bytes object.render) objectWords)
    (isWord : IsWord (Text.bytes callee)) (worded : WordedAll arguments words) :
    Worded (Text.bytes (method span object callSpan callee argumentsSpan arguments).render)
      (objectWords ++ [(.mark .dot, Text.bytes Mark.dot.spelling),
          (wordKind (Text.bytes callee), Text.bytes callee)] ++
        between .leftParen .rightParen words) := by
  have render : Text.bytes
      (method span object callSpan callee argumentsSpan arguments).render =
      Text.bytes object.render ++ (Text.bytes "." ++ Text.bytes callee) ++ (Text.bytes "(" ++
        Text.bytes (", ".intercalate (renderAll arguments)) ++ Text.bytes ")") := by
    simp only [render, Text.bytes_append, List.append_assoc]
  obtain ⟨spells, opens⟩ := spells_object objectWorded isWord
  exact render ▸ .called spells opens worded.spells

/-- A key in brackets behind its object. -/
theorem worded_index {span : Span} {object key : Expr}
    (objectWorded : Worded (Text.bytes object.render) objectWords)
    (worded : Worded (Text.bytes key.render) words) :
    Worded (Text.bytes (index span object key).render)
      (objectWords ++ between .leftBracket .rightBracket words) := by
  have render : Text.bytes (index span object key).render =
      Text.bytes object.render ++ (Text.bytes "[" ++ Text.bytes key.render ++ Text.bytes "]") := by
    simp only [render, Text.bytes_append, List.append_assoc]
  have enclosed := worded.spells.between .leftBracket .rightBracket (by decide) (by decide)
    (apart_right .rightBracket (.inr rfl))
  have spells := objectWorded.spells.append enclosed fun rest _ =>
    apart_of_head (by decide) (by decide) _
  exact render ▸ ⟨spells.mono fun _ _ => trivial, objectWorded.opens.append _⟩

/-- What is awaited stands behind a blank. -/
theorem worded_await {span : Span} {operand : Expr}
    (worded : Worded (Text.bytes operand.render) words) :
    Worded (Text.bytes (await span operand).render)
      ((.keyword .kwAwait, Text.bytes Keyword.kwAwait.spelling) :: words) := by
  have render : Text.bytes (await span operand).render =
      Text.bytes Keyword.kwAwait.spelling ++ [32] ++ Text.bytes operand.render := by
    rw [render, Text.bytes_append]
    rfl
  exact render ▸ worded.behind .kwAwait

theorem worded_delete {span nameSpan : Span} {label : String}
    (isName : IsName (Text.bytes label)) :
    Worded (Text.bytes (delete span nameSpan label).render)
      [(.keyword .kwDelete, Text.bytes Keyword.kwDelete.spelling), (.name, Text.bytes label)] := by
  have render : Text.bytes (delete span nameSpan label).render =
      Text.bytes Keyword.kwDelete.spelling ++ [32] ++ Text.bytes label := by
    rw [render, Text.bytes_append]
    rfl
  exact render ▸ (worded_name isName).behind .kwDelete

theorem worded_construct {span callSpan argumentsSpan : Span} {callee : String}
    {arguments : List Expr} (isName : IsName (Text.bytes callee))
    (worded : WordedAll arguments words) :
    Worded (Text.bytes (construct span callSpan callee argumentsSpan arguments).render)
      ((.keyword .kwNew, Text.bytes Keyword.kwNew.spelling) :: (.name, Text.bytes callee) ::
        between .leftParen .rightParen words) := by
  have render : Text.bytes (construct span callSpan callee argumentsSpan arguments).render =
      Text.bytes Keyword.kwNew.spelling ++ [32] ++
        Text.bytes (call span callee argumentsSpan arguments).render := by
    simp only [render, Text.bytes_append, List.append_assoc]
    rfl
  exact render ▸ (worded_call isName worded).behind .kwNew

theorem WordedAll.nil : WordedAll [] [] :=
  ⟨.nil _, fun someItems => absurd rfl someItems⟩

theorem WordedAll.single {item : Expr} (worded : Worded (Text.bytes item.render) words) :
    WordedAll [item] words := by
  have render : ", ".intercalate (renderAll [item]) = item.render := String.intercalate_singleton
  exact ⟨render ▸ worded.spells, fun _ => render ▸ worded.opens⟩

/-- An item with a comma and a blank in front of others. -/
theorem WordedAll.cons {item : Expr} {items : List Expr}
    {itemsWords : List (TokenKind × List UInt8)} (worded : Worded (Text.bytes item.render) words)
    (someItems : items ≠ []) (wordedItems : WordedAll items itemsWords) :
    WordedAll (item :: items)
      (words ++ [(.mark .comma, Text.bytes Mark.comma.spelling)] ++ itemsWords) := by
  have render : Text.bytes (", ".intercalate (renderAll (item :: items))) =
      Text.bytes item.render ++ (Text.bytes "," ++ [32]) ++
        Text.bytes (", ".intercalate (renderAll items)) := by
    obtain ⟨next, others, rfl⟩ := List.exists_cons_of_ne_nil someItems
    simp only [renderAll, String.intercalate_cons_cons, Text.bytes_append]
    rfl
  have comma : Spells (Text.bytes "," ++ [32])
      [(.mark .comma, Text.bytes Mark.comma.spelling)] Opens :=
    (spells_complete .comma (by decide)).append spells_gap fun _ _ => trivial
  have front := worded.spells.append comma fun rest _ => apart_of_head (by decide) (by decide) _
  have whole := front.append wordedItems.spells fun rest _ =>
    (wordedItems.opens someItems).append rest
  refine ⟨render ▸ whole, fun _ => ?_⟩
  rw [render, List.append_assoc]
  exact worded.opens.append _

end Expr
end ScopeScript
