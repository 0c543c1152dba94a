import ScopeScript.Proofs.Parser.RenderedWords
import ScopeScript.Proofs.Text.Escaping

/-!
# Rendering and reading

The rendered form of an expression has parentheses around every operator and no blanks around most
of them. It is scanned into the tokens it was put together from (`Worded`), and these tokens are a
way to write the expression (`Written`). So it is read as the same expression (`parse_render`).
-/

namespace ScopeScript

open Token

namespace Expr

/-- A node that rendering writes in a way that can be read: its names are words, its texts plain,
and its numbers read back. -/
def Legible : Expr → Prop
  | number _ value =>
      IsDecimal (Text.bytes (Decimal.format value)) ∧
        Decimal.read? (Decimal.format value) = some value
  | text _ value => ∀ c ∈ value.toList, Text.isPlain c = true
  | name _ label | call _ label _ _ => IsName (Text.bytes label)
  | member _ _ _ label | method _ _ _ label _ _ => IsWord (Text.bytes label)
  | absent _ | await _ _ | delete _ _ _ | construct _ _ _ _ _ => False
  | _ => True

/-- The rendered form of an expression is scanned into words that write it. -/
structure Rendered (expr : Expr) (words : List (TokenKind × List UInt8)) : Prop where
  spells : Spells (Text.bytes expr.render) words Apart
  opens : Opens (Text.bytes expr.render)
  written : ∀ tokens : List Token, tokens.map Token.word = words → Written 14 expr tokens

/-- The rendered forms of some expressions with commas between them are scanned into words that
write them as items of a list. -/
structure RenderedAll (items : List Expr) (words : List (TokenKind × List UInt8)) : Prop where
  spells : Spells (Text.bytes (", ".intercalate (renderAll items))) words Apart
  opens : items ≠ [] → Opens (Text.bytes (", ".intercalate (renderAll items)))
  written : ∀ tokens : List Token, tokens.map Token.word = words → Items items tokens

/-- The words of a rendered form are scanned from it. -/
theorem Rendered.worded {expr : Expr} {words : List (TokenKind × List UInt8)}
    (rendered : Rendered expr words) : Worded (Text.bytes expr.render) words :=
  ⟨rendered.spells, rendered.opens⟩

/-- And so are those of a list. -/
theorem RenderedAll.worded {items : List Expr} {words : List (TokenKind × List UInt8)}
    (rendered : RenderedAll items words) : WordedAll items words :=
  ⟨rendered.spells, rendered.opens⟩

/-- What is tight enough for a level is so for a looser one. -/
theorem Written.mono {level other : Nat} {expr : Expr} {tokens : List Token}
    (written : Written other expr tokens) (looser : level ≤ other) : Written level expr tokens := by
  cases written with
  | bare tight shape => exact .bare (Nat.le_trans looser tight) shape
  | parenthesised opening inner closing => exact .parenthesised opening inner closing

/-- An expression that is tight enough without parentheses. -/
theorem Rendered.bare {expr : Expr} {words : List (TokenKind × List UInt8)}
    (worded : Worded (Text.bytes expr.render) words) (tight : 14 ≤ expr.tightness)
    (shape : ∀ tokens : List Token, tokens.map Token.word = words → Shape expr tokens) :
    ∃ words, Rendered expr words :=
  ⟨words, worded.spells, worded.opens, fun tokens same => .bare tight (shape tokens same)⟩

/-- One token that is enough for an expression. -/
theorem Rendered.leaf {expr : Expr} {kind : TokenKind} {lexeme : List UInt8}
    (worded : Worded (Text.bytes expr.render) [(kind, lexeme)]) (tight : 14 ≤ expr.tightness)
    (shape : ∀ token : Token, token.kind = kind → token.lexeme = lexeme → Shape expr [token]) :
    ∃ words, Rendered expr words := by
  refine Rendered.bare worded tight fun tokens same => ?_
  obtain ⟨token, rfl, isToken⟩ := List.map_eq_singleton_iff.1 same
  exact shape token (congrArg Prod.fst isToken) (congrArg Prod.snd isToken)

/-- Parentheses make an expression as tight as required. -/
theorem Rendered.parenthesised {expr : Expr} {words : List (TokenKind × List UInt8)}
    (worded : Worded (Text.bytes expr.render) (between .leftParen .rightParen words))
    (shape : ∀ tokens : List Token, tokens.map Token.word = words → Shape expr tokens) :
    ∃ words, Rendered expr words := by
  refine ⟨_, worded.spells, worded.opens, fun tokens same => ?_⟩
  obtain ⟨front, last, rfl, sameFront, sameLast⟩ := List.map_eq_append_iff.1 same
  obtain ⟨first, middle, rfl, sameFirst, sameMiddle⟩ := List.map_eq_append_iff.1 sameFront
  obtain ⟨left, rfl, isLeft⟩ := List.map_eq_singleton_iff.1 sameFirst
  obtain ⟨right, rfl, isRight⟩ := List.map_eq_singleton_iff.1 sameLast
  exact .parenthesised (congrArg Prod.fst isLeft) (.bare (Nat.zero_le _) (shape _ sameMiddle))
    (congrArg Prod.fst isRight)

/-- Marks around rendered items make a list of them. -/
theorem RenderedAll.enclosed {items : List Expr} {words : List (TokenKind × List UInt8)}
    (rendered : RenderedAll items words) (left right : Mark) {tokens : List Token}
    (same : tokens.map Token.word = between left right words) :
    Enclosed left right items tokens := by
  obtain ⟨front, last, rfl, sameFront, sameLast⟩ := List.map_eq_append_iff.1 same
  obtain ⟨first, middle, rfl, sameFirst, sameMiddle⟩ := List.map_eq_append_iff.1 sameFront
  obtain ⟨leftToken, rfl, isLeft⟩ := List.map_eq_singleton_iff.1 sameFirst
  obtain ⟨rightToken, rfl, isRight⟩ := List.map_eq_singleton_iff.1 sameLast
  exact .between (congrArg Prod.fst isLeft) (rendered.written _ sameMiddle)
    (congrArg Prod.fst isRight)

/-- A legible number is rendered by its digits. -/
theorem rendered_number {span : Span} {value : Float}
    (legible : (Expr.number span value).Legible) :
    ∃ words, Rendered (.number span value) words := by
  obtain ⟨isDecimal, readsBack⟩ := legible
  refine Rendered.leaf (worded_number isDecimal) (Nat.le_succ 14) fun token kind lexeme =>
    .number kind ?_
  rw [Token.text, lexeme, Text.ofBytes_bytes]
  exact readsBack

/-- A text of plain characters is rendered in quotes. -/
theorem rendered_text {span : Span} {value : String}
    (plain : ∀ c ∈ value.toList, Text.isPlain c = true) :
    ∃ words, Rendered (.text span value) words := by
  obtain ⟨written, quoted, escapes⟩ := Text.escapes_quoted plain
  refine Rendered.leaf (worded_text value) (Nat.le_succ 14) fun token kind lexeme => .text kind ?_
  rw [Token.content, lexeme, quoted, escapes.unquote, Text.ofBytes_bytes]

theorem rendered_name {span : Span} {label : String} (isName : IsName (Text.bytes label)) :
    ∃ words, Rendered (.name span label) words := by
  refine Rendered.leaf (worded_name isName) (Nat.le_succ 14) fun token kind lexeme => .name kind ?_
  rw [Token.text, lexeme]
  exact Text.ofBytes_bytes label

/-- The operands stand in the parentheses of the operation, so any precedence will do. -/
theorem rendered_binary {span : Span} {left right : Expr} {operator : BinaryOperator}
    {leftWords rightWords : List (TokenKind × List UInt8)} (leftRendered : Rendered left leftWords)
    (rightRendered : Rendered right rightWords) :
    ∃ words, Rendered (.binary span left operator right) words := by
  obtain ⟨lexeme, worded⟩ := worded_binary operator leftRendered.worded rightRendered.worded
  refine Rendered.parenthesised worded fun tokens same => ?_
  obtain ⟨frontTokens, rightTokens, rfl, sameFront, sameRight⟩ := List.map_eq_append_iff.1 same
  obtain ⟨leftTokens, signTokens, rfl, sameLeft, sameSign⟩ := List.map_eq_append_iff.1 sameFront
  obtain ⟨token, rfl, isSign⟩ := List.map_eq_singleton_iff.1 sameSign
  have kind : token.kind = operator.sign := congrArg Prod.fst isSign
  have leftWritten := leftRendered.written leftTokens sameLeft
  have rightWritten := rightRendered.written rightTokens sameRight
  rw [List.append_assoc]
  by_cases isPower : operator = .power
  · subst isPower
    exact .power leftWritten kind (rightWritten.mono (by decide))
  · have loose := BinaryOperator.tightness_of_ne_power isPower rfl
    exact .binary isPower (leftWritten.mono (by omega))
      (by rw [kind, operator.binaryOperator?_sign]) (rightWritten.mono (by omega))

/-- The operand of an operator in front of it. -/
theorem rendered_unary {span : Span} {operator : UnaryOperator} {operand : Expr}
    {words : List (TokenKind × List UInt8)} (rendered : Rendered operand words) :
    ∃ words, Rendered (.unary span operator operand) words := by
  obtain ⟨lexeme, worded⟩ := worded_unary operator rendered.worded
  refine Rendered.parenthesised worded fun tokens same => ?_
  obtain ⟨token, operandTokens, rfl, isSign, sameOperand⟩ := List.map_eq_cons_iff.1 same
  have kind : token.kind = operator.sign := congrArg Prod.fst isSign
  exact .unary (by rw [kind, operator.unaryOperator?_sign])
    ((rendered.written operandTokens sameOperand).mono (by decide))

/-- The three parts of a condition. -/
theorem rendered_conditional {span : Span} {test consequent alternate : Expr}
    {testWords consequentWords alternateWords : List (TokenKind × List UInt8)}
    (testRendered : Rendered test testWords)
    (consequentRendered : Rendered consequent consequentWords)
    (alternateRendered : Rendered alternate alternateWords) :
    ∃ words, Rendered (.conditional span test consequent alternate) words := by
  refine Rendered.parenthesised (worded_conditional testRendered.worded consequentRendered.worded
    alternateRendered.worded) fun tokens same => ?_
  obtain ⟨_, alternateTokens, rfl, same, sameAlternate⟩ := List.map_eq_append_iff.1 same
  obtain ⟨_, colonTokens, rfl, same, sameColon⟩ := List.map_eq_append_iff.1 same
  obtain ⟨_, consequentTokens, rfl, same, sameConsequent⟩ := List.map_eq_append_iff.1 same
  obtain ⟨testTokens, questionTokens, rfl, sameTest, sameQuestion⟩ :=
    List.map_eq_append_iff.1 same
  obtain ⟨colonToken, rfl, isColon⟩ := List.map_eq_singleton_iff.1 sameColon
  obtain ⟨questionToken, rfl, isQuestion⟩ := List.map_eq_singleton_iff.1 sameQuestion
  have shape : Shape (.conditional span test consequent alternate) _ := .conditional
    ((testRendered.written testTokens sameTest).mono (by decide)) (congrArg Prod.fst isQuestion)
    ((consequentRendered.written consequentTokens sameConsequent).mono (by decide))
    (congrArg Prod.fst isColon)
    ((alternateRendered.written alternateTokens sameAlternate).mono (by decide))
  simpa using shape

theorem rendered_sequence {span : Span} {items : List Expr}
    {words : List (TokenKind × List UInt8)} (rendered : RenderedAll items words) :
    ∃ words, Rendered (.sequence span items) words :=
  Rendered.bare (worded_sequence rendered.worded) (Nat.le_succ 14) fun _ same =>
    .sequence (rendered.enclosed _ _ same)

theorem rendered_call {span argumentsSpan : Span} {callee : String} {arguments : List Expr}
    {words : List (TokenKind × List UInt8)} (isName : IsName (Text.bytes callee))
    (rendered : RenderedAll arguments words) :
    ∃ words, Rendered (.call span callee argumentsSpan arguments) words := by
  refine Rendered.bare (worded_call isName rendered.worded) (Nat.le_succ 14) fun tokens same => ?_
  obtain ⟨token, rest, rfl, isCallee, sameRest⟩ := List.map_eq_cons_iff.1 same
  refine .call (congrArg Prod.fst isCallee) ?_ (rendered.enclosed _ _ sameRest)
  rw [Token.text, show token.lexeme = Text.bytes callee from congrArg Prod.snd isCallee,
    Text.ofBytes_bytes]

/-- Any word may name a member. -/
theorem namesMember_wordKind (text : List UInt8) : (wordKind text).namesMember = true := by
  unfold wordKind
  split <;> rfl

/-- A member: what stands in front of the dot is closed. -/
theorem rendered_member {span nameSpan : Span} {object : Expr} {label : String}
    {words : List (TokenKind × List UInt8)} (isWord : IsWord (Text.bytes label))
    (rendered : Rendered object words) :
    ∃ words, Rendered (.member span object nameSpan label) words := by
  refine Rendered.bare (worded_member rendered.worded isWord) (Nat.le_refl 14)
    fun tokens same => ?_
  obtain ⟨objectTokens, rest, rfl, sameObject, sameRest⟩ := List.map_eq_append_iff.1 same
  obtain ⟨dot, names, rfl, isDot, sameNames⟩ := List.map_eq_cons_iff.1 sameRest
  obtain ⟨token, rfl, isLabel⟩ := List.map_eq_singleton_iff.1 sameNames
  have kind : token.kind = wordKind (Text.bytes label) := congrArg Prod.fst isLabel
  have lexeme : token.lexeme = Text.bytes label := congrArg Prod.snd isLabel
  refine .member (rendered.written _ sameObject) (congrArg Prod.fst isDot) ?_ ?_
  · rw [kind, namesMember_wordKind]
  · rw [Token.text, lexeme, Text.ofBytes_bytes]

/-- A call of a member. -/
theorem rendered_method {span callSpan argumentsSpan : Span} {object : Expr} {callee : String}
    {arguments : List Expr} {objectWords words : List (TokenKind × List UInt8)}
    (isWord : IsWord (Text.bytes callee)) (objectRendered : Rendered object objectWords)
    (rendered : RenderedAll arguments words) :
    ∃ words, Rendered (.method span object callSpan callee argumentsSpan arguments) words := by
  refine Rendered.bare (worded_method objectRendered.worded isWord rendered.worded)
    (Nat.le_refl 14) fun tokens same => ?_
  obtain ⟨frontTokens, argumentTokens, rfl, sameFront, sameArguments⟩ :=
    List.map_eq_append_iff.1 same
  obtain ⟨objectTokens, rest, rfl, sameObject, sameRest⟩ := List.map_eq_append_iff.1 sameFront
  obtain ⟨dot, names, rfl, isDot, sameNames⟩ := List.map_eq_cons_iff.1 sameRest
  obtain ⟨token, rfl, isCallee⟩ := List.map_eq_singleton_iff.1 sameNames
  have kind : token.kind = wordKind (Text.bytes callee) := congrArg Prod.fst isCallee
  have lexeme : token.lexeme = Text.bytes callee := congrArg Prod.snd isCallee
  rw [List.append_assoc]
  refine .method (objectRendered.written _ sameObject) (congrArg Prod.fst isDot) ?_ ?_
    (rendered.enclosed _ _ sameArguments)
  · rw [kind, namesMember_wordKind]
  · rw [Token.text, lexeme, Text.ofBytes_bytes]

/-- A key behind its object. -/
theorem rendered_index {span : Span} {object key : Expr}
    {objectWords keyWords : List (TokenKind × List UInt8)}
    (objectRendered : Rendered object objectWords) (keyRendered : Rendered key keyWords) :
    ∃ words, Rendered (.index span object key) words := by
  refine Rendered.bare (worded_index objectRendered.worded keyRendered.worded) (Nat.le_refl 14)
    fun tokens same => ?_
  obtain ⟨objectTokens, _, rfl, sameObject, same⟩ := List.map_eq_append_iff.1 same
  obtain ⟨_, closingTokens, rfl, same, sameClosing⟩ := List.map_eq_append_iff.1 same
  obtain ⟨openingTokens, keyTokens, rfl, sameOpening, sameKey⟩ := List.map_eq_append_iff.1 same
  obtain ⟨openingToken, rfl, isOpening⟩ := List.map_eq_singleton_iff.1 sameOpening
  obtain ⟨closingToken, rfl, isClosing⟩ := List.map_eq_singleton_iff.1 sameClosing
  have shape : Shape (.index span object key) _ := .index
    (objectRendered.written objectTokens sameObject) (congrArg Prod.fst isOpening)
    ((keyRendered.written keyTokens sameKey).mono (by decide)) (congrArg Prod.fst isClosing)
  simpa using shape

/-! ## Lists -/

theorem renderedAll_nil : RenderedAll [] [] := by
  refine ⟨WordedAll.nil.spells, WordedAll.nil.opens, fun tokens same => ?_⟩
  obtain rfl := List.map_eq_nil_iff.1 same
  exact .nil

/-- One more item in front of a list. -/
theorem renderedAll_cons {item : Expr} {items : List Expr}
    {words itemsWords : List (TokenKind × List UInt8)} (rendered : Rendered item words)
    (renderedItems : RenderedAll items itemsWords) :
    ∃ words, RenderedAll (item :: items) words := by
  cases items with
  | nil =>
      have worded := WordedAll.single rendered.worded
      refine ⟨words, worded.spells, worded.opens, fun tokens same => ?_⟩
      exact .last ((rendered.written tokens same).mono (by decide))
  | cons next items =>
      have worded := WordedAll.cons rendered.worded (by simp) renderedItems.worded
      refine ⟨_, worded.spells, worded.opens, fun tokens same => ?_⟩
      obtain ⟨_, itemsTokens, rfl, same, sameItems⟩ := List.map_eq_append_iff.1 same
      obtain ⟨itemTokens, commaTokens, rfl, sameItem, sameComma⟩ := List.map_eq_append_iff.1 same
      obtain ⟨commaToken, rfl, isComma⟩ := List.map_eq_singleton_iff.1 sameComma
      rw [List.append_assoc]
      exact .cons ((rendered.written _ sameItem).mono (by decide)) (congrArg Prod.fst isComma)
        (renderedItems.written _ sameItems)

mutual

/-- An expression with legible nodes is rendered into tokens that write it. -/
theorem exists_rendered : ∀ expr : Expr, (∀ node ∈ expr.nodes, node.Legible) →
    ∃ words, Rendered expr words
  | number span value, legible => rendered_number (legible _ List.mem_cons_self)
  | text _ value, legible => rendered_text (legible _ List.mem_cons_self)
  | bool _ true, _ =>
      Rendered.leaf (.keyword .kwTrue) (Nat.le_succ 14) fun _ kind _ => .bool kind
  | bool _ false, _ =>
      Rendered.leaf (.keyword .kwFalse) (Nat.le_succ 14) fun _ kind _ => .bool kind
  | none _, _ => Rendered.leaf (.keyword .kwNone) (Nat.le_succ 14) fun _ kind _ => .none kind
  | name _ label, legible => rendered_name (legible _ List.mem_cons_self)
  | binary _ left _ right, legible => by
      rw [nodes, List.forall_mem_cons, List.forall_mem_append] at legible
      obtain ⟨_, leftRendered⟩ := exists_rendered left legible.2.1
      obtain ⟨_, rightRendered⟩ := exists_rendered right legible.2.2
      exact rendered_binary leftRendered rightRendered
  | unary _ _ operand, legible => by
      rw [nodes, List.forall_mem_cons] at legible
      obtain ⟨_, rendered⟩ := exists_rendered operand legible.2
      exact rendered_unary rendered
  | conditional _ test consequent alternate, legible => by
      rw [nodes, List.forall_mem_cons, List.forall_mem_append, List.forall_mem_append] at legible
      obtain ⟨_, testRendered⟩ := exists_rendered test legible.2.1.1
      obtain ⟨_, consequentRendered⟩ := exists_rendered consequent legible.2.1.2
      obtain ⟨_, alternateRendered⟩ := exists_rendered alternate legible.2.2
      exact rendered_conditional testRendered consequentRendered alternateRendered
  | sequence _ items, legible => by
      rw [nodes, List.forall_mem_cons] at legible
      obtain ⟨_, rendered⟩ := exists_renderedAll items legible.2
      exact rendered_sequence rendered
  | call _ callee _ arguments, legible => by
      rw [nodes, List.forall_mem_cons] at legible
      obtain ⟨_, rendered⟩ := exists_renderedAll arguments legible.2
      exact rendered_call legible.1 rendered
  | member _ object _ label, legible => by
      rw [nodes, List.forall_mem_cons] at legible
      obtain ⟨_, rendered⟩ := exists_rendered object legible.2
      exact rendered_member legible.1 rendered
  | method _ object _ callee _ arguments, legible => by
      rw [nodes, List.forall_mem_cons, List.forall_mem_append] at legible
      obtain ⟨_, objectRendered⟩ := exists_rendered object legible.2.1
      obtain ⟨_, rendered⟩ := exists_renderedAll arguments legible.2.2
      exact rendered_method legible.1 objectRendered rendered
  | index _ object key, legible => by
      rw [nodes, List.forall_mem_cons, List.forall_mem_append] at legible
      obtain ⟨_, objectRendered⟩ := exists_rendered object legible.2.1
      obtain ⟨_, keyRendered⟩ := exists_rendered key legible.2.2
      exact rendered_index objectRendered keyRendered
  | absent _, legible => (legible _ List.mem_cons_self).elim
  | await _ _, legible => (legible _ List.mem_cons_self).elim
  | delete _ _ _, legible => (legible _ List.mem_cons_self).elim
  | construct _ _ _ _ _, legible => (legible _ List.mem_cons_self).elim

/-- All items of legible lists are rendered. -/
theorem exists_renderedAll : ∀ items : List Expr, (∀ node ∈ nodesAll items, node.Legible) →
    ∃ words, RenderedAll items words
  | [], _ => ⟨[], renderedAll_nil⟩
  | item :: items, legible => by
      rw [nodesAll, List.forall_mem_append] at legible
      obtain ⟨_, rendered⟩ := exists_rendered item legible.1
      obtain ⟨_, renderedItems⟩ := exists_renderedAll items legible.2
      exact renderedAll_cons rendered renderedItems

end

/-- A legible expression is read from its rendered form. -/
theorem parse_render_of_legible {expr : Expr} (legible : ∀ node ∈ expr.nodes, node.Legible) :
    ∃ read, Expr.parse expr.render = .ok read ∧ read.unplaced = expr.unplaced := by
  obtain ⟨words, rendered⟩ := exists_rendered expr legible
  obtain ⟨scanned, recognised⟩ := rendered.spells.scanWith apart_nil
  exact Parser.parse_of_written recognised ((rendered.written _ scanned).mono (Nat.zero_le 14))

/-- A node that is no operation on the surroundings, and if it is a text, one of printable
characters of the basic alphabet, line breaks and tabs. -/
def Plain : Expr → Prop
  | await _ _ | delete _ _ _ | construct _ _ _ _ _ => False
  | text _ value => ∀ c ∈ value.toList, Text.isPlain c = true
  | _ => True

instance : DecidablePred Plain
  | await _ _ | delete _ _ _ | construct _ _ _ _ _ => isFalse id
  | text _ value => List.decidableBAll (fun c => Text.isPlain c = true) value.toList
  | number _ _ | bool _ _ | none _ | absent _ | name _ _ | binary _ _ _ _ | unary _ _ _
  | conditional _ _ _ _ | sequence _ _ | call _ _ _ _ | member _ _ _ _ | method _ _ _ _ _ _
  | index _ _ _ => isTrue trivial

/-- The written form of a number is read as the number. -/
def ReadsBack : Expr → Prop
  | number _ value => Decimal.read? (Decimal.format value) = some value
  | _ => True

instance : DecidablePred ReadsBack
  | number _ value =>
      inferInstanceAs (Decidable (Decimal.read? (Decimal.format value) = some value))
  | text _ _ | bool _ _ | none _ | absent _ | name _ _ | binary _ _ _ _ | unary _ _ _
  | conditional _ _ _ _ | sequence _ _ | call _ _ _ _ | member _ _ _ _ | method _ _ _ _ _ _
  | index _ _ _ | await _ _ | delete _ _ _ | construct _ _ _ _ _ => isTrue trivial

/-- Numbers that are finite and not negative are written as decimals. -/
theorem isDecimal_format {value : Float} {mantissa : Nat} {exponent : Int}
    (taken : Binary64.ofFloat value = .finite false mantissa exponent) :
    IsDecimal (Text.bytes (Decimal.format value)) := by
  have bounds {c : Char} (digit : c.isDigit = true) : 48 ≤ c.toNat ∧ c.toNat ≤ 57 :=
    Char.isDigit_iff_toNat.1 digit
  have digits {chars : List Char} (areDigits : ∀ c ∈ chars, c.isDigit = true) :
      ∀ byte ∈ chars.map Text.byteOf, isDigitByte byte = true := by
    simp only [List.mem_map, forall_exists_index, and_imp, forall_apply_eq_imp_iff₂]
    intro c member
    have := bounds (areDigits c member)
    simp only [isDigitByte, Text.byteOf_eq_ofNat, Bool.and_eq_true, decide_eq_true_eq,
      UInt8.le_iff_toNat_le, UInt8.toNat_ofNat']
    simp only [UInt8.reduceToNat]
    omega
  obtain ⟨whole, someDigits, wholeDigits, shape⟩ := Decimal.format_digits taken
  have basic : ∀ c ∈ (Decimal.format value).toList, c.toNat < 128 := by
    have small {c : Char} (digit : c.isDigit = true) : c.toNat < 128 := by
      have := bounds digit
      omega
    rcases shape with rfl | ⟨places, -, placesDigits, written⟩
    · exact fun c member => small (wholeDigits c member)
    · rw [written]
      refine List.forall_mem_append.2 ⟨fun c member => small (wholeDigits c member), ?_⟩
      exact List.forall_mem_cons.2 ⟨by decide, fun c member => small (placesDigits c member)⟩
  rw [Text.bytes_of_toList basic]
  rcases shape with same | ⟨places, somePlaces, placesDigits, written⟩
  · exact ⟨whole.map Text.byteOf, [], by rw [same, List.append_nil], by simpa using someDigits,
      digits wholeDigits, .inl rfl⟩
  · refine ⟨whole.map Text.byteOf, _, ?_, by simpa using someDigits, digits wholeDigits,
      .inr ⟨places.map Text.byteOf, by simpa using somePlaces, digits placesDigits, rfl⟩⟩
    rw [written, List.map_append, List.map_cons]

/-- A node of a parsed expression is legible if its text is plain and its number reads back. -/
theorem legible_of_proper {node : Expr} (proper : node.Proper) (plain : node.Plain)
    (readsBack : node.ReadsBack) : node.Legible := by
  cases node with
  | number span value =>
      obtain ⟨mantissa, exponent, taken⟩ := proper
      exact ⟨isDecimal_format taken, readsBack⟩
  | text span value => exact plain
  | bool | none | binary | unary | conditional | sequence | index => trivial
  | name | call | member | method | absent => exact proper
  | await | delete | construct => exact plain

/-- An expression that was read is read again from its rendered form. -/
theorem parse_render {source : String} {expr : Expr} (parsed : Expr.parse source = .ok expr)
    (plain : ∀ node ∈ expr.nodes, node.Plain) (readsBack : ∀ node ∈ expr.nodes, node.ReadsBack) :
    ∃ read, Expr.parse expr.render = .ok read ∧ read.unplaced = expr.unplaced :=
  parse_render_of_legible fun node member =>
    legible_of_proper (proper_of_parse parsed node member) (plain node member)
      (readsBack node member)

/-- An implicit product, a member with the name of a keyword, a point next to two points and an
escaped quote are read again from their rendered forms. -/
theorem parse_render_product :
    ∃ expr, Expr.parse "2(x..4.50)['\"\\t'].if ? -a ^ 0.1 : [f(!1,)]" = .ok expr ∧
      (∀ node ∈ expr.nodes, node.Plain ∧ node.ReadsBack) ∧
      ∃ read, Expr.parse expr.render = .ok read ∧ read.unplaced = expr.unplaced := by
  have checked : (match Expr.parse "2(x..4.50)['\"\\t'].if ? -a ^ 0.1 : [f(!1,)]" with
      | .ok expr => decide (∀ node ∈ expr.nodes, node.Plain ∧ node.ReadsBack)
      | .error _ => false) = true := by
    decide +kernel
  cases parsed : Expr.parse "2(x..4.50)['\"\\t'].if ? -a ^ 0.1 : [f(!1,)]" with
  | error diagnostic => simp [parsed] at checked
  | ok expr =>
      simp only [parsed, decide_eq_true_eq] at checked
      exact ⟨expr, rfl, checked, parse_render parsed (fun node member => (checked node member).1)
        fun node member => (checked node member).2⟩

end Expr

end ScopeScript
